import Treeworks.Proofs.Frame.Processing

/-! Coroutines: going on with one keeps to a discipline if all its stages do. What is known of the results of work is
said of those results alone. -/
namespace Treeworks

namespace Work
variable {α β : Type} {D : Discipline}

/-- Whether every result of work is of some kind. -/
def Yields (w : Work α) (P : α → Prop) : Prop := ∀ σ m a m', w σ m = (.done a, m') → P a

theorem yields_pure {P : α → Prop} {a : α} (h : P a) : (pure a : Work α).Yields P := by
  intro σ m b m' hb
  cases hb
  exact h

theorem yields_bind {w : Work α} {f : α → Work β} {P : β → Prop} (hf : ∀ a, (f a).Yields P) : (w >>= f).Yields P := by
  intro σ m b m' hb
  rw [bind_eq] at hb
  rcases hr : w σ m with ⟨a | e | _, m₁⟩ <;> rw [hr] at hb
  · exact hf a σ m₁ b m' hb
  · cases hb
  · cases hb

theorem yields_attempt {w : Work α} {P : α → Prop} (h : w.Yields P) : (attempt w).Yields fun r => ∀ a, r = .ok a → P a := by
  intro σ m r m' hr a ha
  subst ha
  unfold attempt at hr
  rcases hw : w σ m with ⟨b | e | _, m₁⟩ <;> rw [hw] at hr
  · cases hr
    exact h σ m a _ hw
  · cases hr
  · cases hr

theorem yields_reraise {P : α → Prop} (e : Value) : (reraise e : Work α).Yields P := by
  intro σ m a m' h
  cases h

/-- What is known of the results of work helps with what is done with them. -/
theorem keeps_bind_of_yields {w : Work α} {f : α → Work β} {P : α → Prop} (hw : w.Keeps D) (hy : w.Yields P)
    (hf : ∀ a, P a → (f a).Keeps D) : (w >>= f).Keeps D := by
  intro σ hσ m
  have h := hw σ hσ m
  rw [bind_eq]
  rcases hr : w σ m with ⟨a | e | _, m'⟩ <;> rw [hr] at h
  · exact D.trans h (hf a (hy σ m a m' hr) σ hσ m')
  · exact h
  · exact h

/-! ### Parts -/

@[grind ←]
theorem keeps_updateCoroutine (i : Nat) (f : Coroutine → Coroutine) : (updateCoroutine i f).Keeps D :=
  keeps_modify fun m => D.aside { Aside.refl m with }

@[grind ←]
theorem keeps_suspend (i : Nat) (stage : Stage) (inner : Option Value) : (suspend i stage inner).Keeps D :=
  keeps_updateCoroutine _ _

@[grind ←]
theorem keeps_endCoroutine (i : Nat) : (endCoroutine i).Keeps D := keeps_updateCoroutine _ _

@[grind ←]
theorem keeps_cancellation : cancellation.Keeps D := keeps_makeFault _ _ _

@[grind ←]
theorem keeps_futureResult (future : Future) : (futureResult future).Keeps D := by
  unfold futureResult
  split
  · exact keeps_pure _
  · exact keeps_bind (keeps_modifyStore fun m => D.aside (.noteRaised m _ _)) fun _ => keeps_pure _
  · grind

@[grind ←]
theorem keeps_awaitBy (v : Value) : (awaitBy v).Keeps D := by
  unfold awaitBy
  grind

@[grind ←]
theorem keeps_iteratorBy (v : Value) : (iteratorBy v).Keeps D := by
  unfold iteratorBy
  grind

@[grind ←]
theorem keeps_drawNext (source : Value) (index : Nat) : (drawNext? source index).Keeps D := by
  unfold drawNext?
  grind

@[grind ←]
theorem keeps_sourceOf (v : Value) : (sourceOf v).Keeps D := by
  unfold sourceOf
  grind

@[grind ←]
theorem keeps_resumeInner (j : Nat) (fresh : Bool) (error : Option Value) : (resumeInner j fresh error).Keeps D := by
  unfold resumeInner
  grind

@[grind ←]
theorem keeps_boundArguments (callee : String) (signature : Signature) (args : List Value) (keywords : Table Value) :
    (boundArguments callee signature args keywords).Keeps D := by
  unfold boundArguments
  grind

end Work

/-- Whether what a coroutine does next leads to a stage of some kind, if it leads to one. -/
def Advance.Within (P : Stage → Prop) : Advance → Prop
  | .finish _ => True
  | .await _ next | .turn next | .go next => P next

/-- A kind of stages that coroutines do not leave, and in which they keep to a discipline. -/
structure Stage.Closed (D : Discipline) (P : Stage → Prop) : Prop where
  keeps : ∀ {stage}, P stage → ∀ arrived, (Work.advance stage arrived).Keeps D
  within : ∀ {stage}, P stage → ∀ arrived, (Work.advance stage arrived).Yields (Advance.Within P)
  draw : ∀ {next}, P next → ∀ source index, P (.draw source index next)

namespace Work
variable {D : Discipline} {P : Stage → Prop} (hP : Stage.Closed D P)
include hP

theorem keeps_goOn (fuel : Nat) : (∀ i stage arrived, P stage → (goOn fuel i stage arrived).Keeps D) ∧
    ∀ i j fresh error next, P next → (goInto fuel i j fresh error next).Keeps D := by
  induction fuel with
  | zero => exact ⟨fun _ _ _ _ => keeps_exhausted, fun _ _ _ _ _ _ => keeps_exhausted⟩
  | succ fuel ih =>
    obtain ⟨hon, hinto⟩ := ih
    refine ⟨fun i stage arrived hstage => ?_, fun i j fresh error next hnext => ?_⟩
    · unfold goOn
      refine keeps_bind_of_yields (keeps_attempt (hP.keeps hstage _)) (yields_attempt (hP.within hstage _))
        fun result hresult => ?_
      split
      · exact keeps_bind (keeps_endCoroutine _) fun _ => keeps_reraise _
      · exact keeps_bind (keeps_endCoroutine _) fun _ => keeps_pure _
      · exact keeps_bind (keeps_suspend _ _ _) fun _ => keeps_pure _
      · exact hon _ _ _ (hresult _ rfl)
      · rename_i awaited next
        have hnext : P next := hresult _ rfl
        split
        · refine keeps_bind (keeps_inspect _) fun future => ?_
          split
          · exact keeps_bind (keeps_futureResult _) fun _ => hon _ _ _ hnext
          · exact keeps_bind (keeps_suspend _ _ _) fun _ => keeps_pure _
        · exact hinto _ _ _ _ _ hnext
        · exact hinto _ _ _ _ _ hnext
        · refine keeps_bind (keeps_attempt (keeps_iteratorBy _)) fun iterator => ?_
          split
          · exact hon _ _ _ (hP.draw hnext _ _)
          · exact hon _ _ _ hnext
    · unfold goInto
      refine keeps_bind (keeps_resumeInner _ _ _) fun pause => ?_
      split
      · exact hon _ _ _ hnext
      · exact hon _ _ _ hnext
      · exact keeps_bind (keeps_suspend _ _ _) fun _ => keeps_pure _

/-- Resuming a coroutine that stands in such a stage keeps to the discipline. -/
theorem holds_resumeCoroutine {σ : Service} (hσ : ∀ r m, D.holds m (σ r m).2) {m : Machine} {i : Nat}
    (hstage : P (m.coroutine i).stage) (error : Option Value) : D.holds m (resumeCoroutine i error σ m).2 := by
  have hon := fun arrived => (keeps_goOn hP rounds).1 i (m.coroutine i).stage arrived hstage
  have hinto := fun j => (keeps_goOn hP rounds).2 i j false error (m.coroutine i).stage hstage
  unfold resumeCoroutine
  rw [bind_eq]
  dsimp only [inspect]
  cases (m.coroutine i).progress with
  | ended => exact keeps_fail _ σ hσ m
  | running => exact keeps_fail _ σ hσ m
  | fresh =>
    refine keeps_bind (keeps_updateCoroutine _ _) (fun _ => ?_) σ hσ m
    cases error with
    | some e => exact keeps_bind (keeps_endCoroutine _) fun _ => keeps_reraise _
    | none => exact hon _
  | suspended =>
    refine keeps_bind (keeps_updateCoroutine _ _) (fun _ => ?_) σ hσ m
    split
    · refine keeps_bind (keeps_inspect _) fun future => ?_
      split
      · exact keeps_bind (keeps_futureResult _) fun _ => hon _
      · exact keeps_bind (keeps_suspend _ _ _) fun _ => keeps_pure _
    · exact hinto _
    · exact hon _

end Work
end Treeworks

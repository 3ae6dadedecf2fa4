import Treeworks.Proofs.Default.Calls
import Treeworks.Proofs.Slot.History

/-! A service that minds defaults. The library does what it is asked for, users do what they have written themselves,
and of some classes alone the default may be asked for. -/
namespace Treeworks

/-- Whether a stage goes through a body that users have written. -/
def Stage.isScripted : Stage → Bool
  | .acts .. | .sleep .. | .call .. | .work .. => true
  | .draw _ _ next | .drawn next => next.isScripted
  | _ => false

/-- The class that the methods of families are for when they are called for a value. -/
def Store.familyOf? (s : Store) : Value → Option Nat
  | .type c => some c
  | v => (s.instance? v).map (·.type)

/-- Whether a request is for what users have written, or for the default of a class that is no family. -/
def Request.isForeign (m : Machine) : Request → Bool
  | .call (.function _) _ _ => true
  | .invoke (.inborn j _ receiver) _ =>
    match (m.store.type j).role with
    | .family => !(m.store.familyOf? receiver).all (m.store.descends · 0)
    | .worker .. => true
    | .plain => false
  | .resume i _ => (m.coroutine i).stage.isScripted
  | _ => false

/-- The class that a request asks for its default. -/
def Request.asksFor? (s : Store) : Request → Option Nat
  | .invoke (.inborn _ "default" receiver) _ => s.familyOf? receiver
  | _ => none

namespace Crew

/-- Users do what they have written, the library all else. To ask a class for its default comes to nothing, unless it is
one of those that may be asked. -/
def tended (crew : Crew) (asked : Nat → Bool) : Nat → Service
  | 0 => Treeworks.service 0
  | depth + 1 => fun r m =>
    if r.isForeign m then crew r (tended crew asked depth) m
    else if (r.asksFor? m.store).all asked then r.handle (tended crew asked depth) m
    else (.spent, m)

/-- Whether users leave alone what stands for defaults, and how instances are made; their functions give no classes. -/
structure Heedful (crew : Crew) : Prop where
  heeds : ∀ asked r, (crew r).Heeds (.defaults asked)
  tells : ∀ asked i args keywords,
    Work.Tells (α := Value) (.defaults asked) (fun v => ∀ j, v ≠ .type j) (crew (.call (.function i) args keywords))

/-- With the library itself for users, and where all may be asked, requests are done as they are in the library. -/
theorem tended_handle (depth : Nat) : tended (fun r => r.handle) (fun _ => true) depth = Treeworks.service depth := by
  induction depth with
  | zero => rfl
  | succ depth ih =>
    funext r m
    have hall : (r.asksFor? m.store).all (fun _ => true) = true := by
      cases r.asksFor? m.store <;> rfl
    unfold tended
    rw [ih, if_pos hall]
    exact ite_self _

end Crew

namespace Work
variable {F : Frame} {asked : Nat → Bool} {m : Machine}

/-! ### Coroutines of the library -/

theorem within_beginParse {P : Stage → Prop} (hP : ∀ p file step, P (.parsed p file step)) (p value settings : Value) :
    (beginParse p value settings).Yields (Advance.Within P) := by
  unfold beginParse
  refine yields_bind fun file => yields_bind fun label => yields_bind fun path => yields_bind fun step => ?_
  refine yields_bind fun parsed => ?_
  cases parsed with
  | ok tree =>
    refine yields_bind fun waits => ?_
    split
    · exact yields_pure (hP p file step)
    · exact yields_finishParse _ _ _ _
  | error e => exact (yields_closeStep_error step e).mono fun _ h => h.elim

theorem within_beginProcess {P : Stage → Prop} (hP : ∀ c step, P (.processed c step)) (p value settings : Value) :
    (beginProcess p value settings).Yields (Advance.Within P) := by
  unfold beginProcess
  refine yields_bind fun given => ?_
  extract_lets withSettings
  have hsettings (settings : Value) : (withSettings settings).Yields (Advance.Within P) := by
    unfold withSettings
    extract_lets withFile
    have hfile (file : Value) : (withFile file).Yields (Advance.Within P) := by
      refine yields_bind fun c => yields_bind fun finished => yields_bind fun label => yields_bind fun path => ?_
      refine yields_bind fun step => yields_bind fun ran => ?_
      split
      · exact yields_pure (hP c step)
      · exact (yields_closeStep_error step _).mono fun _ h => h.elim
    split <;> exact yields_bind fun file => hfile file
  split <;> exact yields_bind fun settings => hsettings settings

theorem within_advance {stage : Stage} (h : stage.isScripted = false) (arrived : Except Value Value) :
    (advance stage arrived).Yields (Advance.Within fun stage => stage.isScripted = false) := by
  induction stage generalizing arrived with
  | parse p value settings => exact yields_bind fun _ => within_beginParse (fun _ _ _ => rfl) _ _ _
  | parsed p file step => exact yields_finishParse _ _ _ _
  | process p value settings => exact yields_bind fun _ => within_beginProcess (fun _ _ => rfl) _ _ _
  | processed c step => exact yields_bind fun _ => yields_pure trivial
  | parsePassage c => exact yields_bind fun _ => yields_bind fun p => yields_bind fun v => yields_pure rfl
  | parsedPassage c => exact yields_bind fun _ => yields_bind fun _ => yields_pure trivial
  | settlePassage c awaitable => exact yields_bind fun _ => yields_pure rfl
  | settledPassage c => exact yields_bind fun _ => yields_bind fun _ => yields_pure trivial
  | resolve awaitable => exact yields_bind fun _ => yields_pure rfl
  | adopt awaitable =>
    refine yields_bind fun _ => yields_bind fun v => ?_
    split
    · exact yields_pure rfl
    · exact yields_pure rfl
    · exact yields_bind fun _ => yields_pure rfl
  | resolved => exact yields_bind fun _ => yields_pure trivial
  | draw source index next ih =>
    refine yields_bind fun drawn => ?_
    split
    · exact ih h _
    · exact ih h _
    · exact yields_pure h
    · exact yields_pure h
  | drawn next ih =>
    refine yields_bind fun refused => ?_
    split
    · exact ih h _
    · exact yields_pure trivial
  | acts | sleep | call | work => cases h

/-- The library's own stages heed every frame. -/
theorem heeds_advance_of_not_isScripted [F.Opens] {stage : Stage} (h : stage.isScripted = false) (arrived : Except Value Value) :
    (advance stage arrived).Heeds F := by
  induction stage generalizing arrived with
  | draw source index next ih =>
    refine heeds_bind (heeds_attempt (heeds_bind (heeds_release _) fun _ => heeds_drawNext _ _)) fun drawn => ?_
    split
    · exact ih h _
    · exact ih h _
    · exact heeds_pure _
    · exact heeds_pure _
  | drawn next ih =>
    refine heeds_bind (heeds_attempt (heeds_bind (heeds_release _) fun _ => heeds_fail _)) fun refused => ?_
    split
    · exact ih h _
    · exact heeds_pure _
  | acts | sleep | call | work => cases h
  | _ =>
    unfold advance
    grind

theorem heeding_library [F.Opens] : Heeding F fun stage => stage.isScripted = false where
  heeds h arrived := heeds_advance_of_not_isScripted h arrived
  within h arrived := within_advance h arrived
  draw h _ _ := h

/-! ### Requests -/

theorem heeds_call_of_not_function [F.Runs] {callee : Value} (h : ∀ i, callee ≠ .function i) (args : List Value)
    (keywords : Table Value) : (call callee args keywords).Heeds F := by
  unfold call
  split
  case h_1 i => exact absurd rfl (h i)
  all_goals grind

theorem tells_newCoroutine (stage : Stage) : (newCoroutine stage).Tells F fun v => ∀ i, v ≠ .type i := by
  rintro _ _ _ _ ⟨⟩
  exact nofun

theorem tells_raiseValue {α : Type} {P : α → Prop} (v : Value) : (raiseValue v : Work α).Tells F P := by
  unfold raiseValue
  split
  · rintro _ _ _ _ ⟨⟩
  · exact tells_fail _

/-- The library's own functions give no classes. -/
theorem tells_callHook (h : Hook) (args : List Value) (keywords : Table Value) :
    (callHook h args keywords).Tells F fun v => ∀ i, v ≠ .type i := by
  unfold callHook
  refine tells_bind fun name => tells_bind fun given => ?_
  split
  · split
    · exact tells_pure nofun
    · exact tells_raiseValue _
  · refine tells_bind fun p => ?_
    dsimp only
    split
    · refine tells_bind fun label => tells_bind fun tree => tells_bind fun _ => ?_
      split
      · exact tells_newCoroutine _
      · exact tells_pure nofun
    · exact tells_pure nofun
  · exact tells_bind fun p => tells_bind fun _ => tells_pure nofun
  · refine tells_bind fun p => tells_bind fun result => tells_bind fun waits => ?_
    split
    · exact tells_newCoroutine _
    · exact tells_bind fun _ => tells_pure nofun
  · refine tells_bind fun done => ?_
    split
    · exact tells_pure nofun
    · split
      · exact tells_bind fun _ => tells_pure nofun
      · exact tells_fail _
  · exact tells_bind fun _ => tells_fail _

theorem tells_failFor {α : Type} {P : α → Prop} (v : Value) (f : String → Failure) :
    (failFor v f : Work α).Tells F P := tells_bind fun _ => tells_fail _

theorem tells_callInstance (v : Value) (args : List Value) (keywords : Table Value) :
    (callInstance v args keywords).Tells F F.answers := by
  refine tells_bind fun m => ?_
  split
  · exact tells_call _ _ _
  · exact tells_failFor _ _

/-- What is called gives no class, unless users have written it. -/
theorem tells_call_of_not_function {callee : Value} (h : ∀ i, callee ≠ .function i) (args : List Value)
    (keywords : Table Value) : (call callee args keywords).Tells (.defaults asked) fun v => ∀ i, v ≠ .type i := by
  unfold call
  split
  · exact absurd rfl (h _)
  · exact tells_instantiate _ _ _
  · exact tells_callInstance _ _ _
  · exact tells_callInstance _ _ _
  · exact tells_callHook _ _ _
  · exact tells_bind fun given => tells_bind fun _ => tells_pure nofun
  · exact tells_bind fun _ => tells_fail _

theorem gives_familyOf {v : Value} {c : Nat} (h : m.store.familyOf? v = some c) : (familyOf v).Gives m c m := by
  cases v with
  | type i | processor i | worker i =>
    cases h
    exact fun _ => rfl
  | _ => cases h

/-- A method of families minds defaults, if it is for a family that may be asked for its default. -/
theorem minds_familyMethod {σ : Service} (hσ : σ.Minds asked) (hm : m.store.Tidy) {receiver : Value}
    (hfamily : (m.store.familyOf? receiver).all (m.store.descends · 0) = true) {method : String}
    (hasked : method = "default" → (m.store.familyOf? receiver).all asked = true) (args : List Value) :
    m.store.Minds asked (familyMethod method receiver args σ m).2.store := by
  by_cases hmethod : method = "default"
  · subst hmethod
    cases args with
    | cons v args => exact (heeds_fail (F := .defaults asked) _).holds hσ m hm
    | nil =>
      rw [familyMethod_default]
      cases hc : m.store.familyOf? receiver with
      | some c =>
        rw [hc] at hfamily hasked
        rw [(gives_familyOf hc).bind_eq]
        exact minds_defaultProcessor hσ hm hfamily (hasked rfl)
      | none =>
        have hlacking : (familyOf receiver >>= defaultProcessor).Heeds (.defaults asked) := by
          refine heeds_bind_of (P := fun _ => False) (heeds_familyOf receiver) ?_ nofun
          cases receiver with
          | type | processor | worker => cases hc
          | _ => exact tells_bind fun _ => tells_fail _
        exact hlacking.holds hσ m hm
  · exact (heeds_familyMethod_of_ne (F := .defaults asked) hmethod receiver args).holds hσ m hm

/-- What the library does for a request minds defaults, if that is not for others to do and asks no class for its default
that may not be asked. -/
theorem minds_handle {σ : Service} (hσ : σ.Minds asked) (hm : m.store.Tidy) {r : Request} (hr : r.isForeign m = false)
    (hasked : (r.asksFor? m.store).all asked = true) : m.store.Minds asked (r.handle σ m).2.store := by
  cases r with
  | call callee args keywords =>
    refine (heeds_call_of_not_function (F := .defaults asked) ?_ args keywords).holds hσ m hm
    rintro i rfl
    cases hr
  | invoke method args =>
    cases method with
    | inborn j name receiver =>
      change m.store.Minds asked (inbornMethod j name receiver args σ m).2.store
      rw [Request.isForeign] at hr
      split at hr
      · rename_i hrole
        rw [inbornMethod_of_family hrole]
        split
        · exact (heeds_bind (F := .defaults asked) (heeds_written receiver) (fun _ => heeds_pure _)).holds hσ m hm
        · refine minds_familyMethod hσ hm (by simpa using hr) ?_ args
          rintro rfl
          exact hasked
      · cases hr
      · rename_i hrole
        rw [inbornMethod, (gives_query _ m).bind_eq, hrole]
        exact (heeds_failLacking (F := .defaults asked) receiver name).holds hσ m hm
    | value callee leading => exact (heeds_call (F := .defaults asked) _ _ _).holds hσ m hm
    | ware ware name => exact (heeds_wareMethod (F := .defaults asked) _ _ _).holds hσ m hm
    | file file name => exact (heeds_fileMethod (F := .defaults asked) _ _ _).holds hσ m hm
    | mapping context =>
      have hmapping : (invoke (.mapping context) args).Heeds (.defaults asked) := by
        unfold invoke
        grind
      exact hmapping.holds hσ m hm
  | resume coroutine error =>
    obtain ⟨w, hw, heq⟩ :=
      exists_heeds_resumed (F := .defaults asked) heeding_library (heeds_updateCoroutine _) hr error
    have hresumed : Request.handle (.resume coroutine error) σ m = w σ m := heq σ
    rw [hresumed]
    exact hw.holds hσ m hm
  | attach ware attacher options => exact (heeds_attachNow (F := .defaults asked) _ _ _).holds hσ m hm
  | conclude coroutine => exact (heeds_concludeNow (F := .defaults asked) _).holds hσ m hm

end Work

theorem Service.minds_idle (asked : Nat → Bool) : Service.idle.Minds asked where
  minds _ _ hm := hm.minds_of_settled (.refl _)
  answers := nofun
  makes := nofun
  notes := nofun

open Work in
/-- Whatever is asked for, and however deep that goes, defaults are minded. -/
theorem Crew.minds_tended {crew : Crew} (hcrew : crew.Heedful) (asked : Nat → Bool) (depth : Nat) :
    (crew.tended asked depth).Minds asked := by
  induction depth with
  | zero =>
    have hidle := Service.minds_idle asked
    refine ⟨fun r m hm => ?_, fun {callee args keywords m v} h => ?_, fun _ _ h => ?_, fun _ _ _ h => ?_⟩
    · exact (heeds_fail (F := .defaults asked) .tooDeep).holds hidle m hm
    · cases h
    · cases h
    · cases h
  | succ depth ih =>
    refine ⟨fun r m hm => ?_, fun {callee args keywords m v} h => ?_, fun {c v m m'} hm hc h => ?_,
      fun {j c v m m'} hm hc hj h => ?_⟩
    · unfold tended
      split
      · exact (hcrew.heeds asked r).holds ih m hm
      · split
        · exact minds_handle ih hm (by simpa using ‹¬ r.isForeign m = true›) ‹_›
        · exact hm.minds_of_settled (.refl _)
    · by_cases hfunction : ∃ i, callee = .function i
      · obtain ⟨i, rfl⟩ := hfunction
        exact hcrew.tells asked i args keywords _ ih m v h
      · have hcall : crew.tended asked (depth + 1) (.call callee args keywords) m =
            call callee args keywords (crew.tended asked depth) m := by
          cases callee with
          | function i => exact absurd ⟨i, rfl⟩ hfunction
          | _ => rfl
        rw [hcall] at h
        exact tells_call_of_not_function (not_exists.mp hfunction) args keywords _ ih m v h
    · exact ⟨_, spare_of_instantiate hm hc .nothing rfl ih h⟩
    · have hforeign : Request.isForeign m (.invoke (.inborn j "default" (.type c)) []) = false := by
        simp [Request.isForeign, hj, Store.familyOf?, hc]
      have hdefault : inbornMethod j "default" (.type c) [] (crew.tended asked depth) m =
          defaultProcessor c (crew.tended asked depth) m := by
        rw [inbornMethod_of_family hj]
        rfl
      unfold tended at h
      rw [hforeign, if_neg Bool.false_ne_true] at h
      split at h
      · exact noted_of_defaultProcessor ih hm hc (hdefault.symm.trans h)
      · cases h

end Treeworks

import Treeworks.Carrier
import Treeworks.Proofs.Heed.Texts

/-! Deep copies, carrier files and diagnostics: to make them heeds every frame. A copy is given a state only if it is an
instance, or what a class or a recipe gives for one. -/
namespace Treeworks
namespace Copying
open Work
variable {α β : Type} {F : Frame}

/-- Whether work on copies heeds a frame, whatever was copied before. -/
def Heeds (F : Frame) (c : CopyM α) : Prop := ∀ known, Work.Heeds F (c known)

/-! ### Ways to put work together -/

@[grind ←]
theorem copies_pure (a : α) : Heeds F (pure a : CopyM α) := fun _ => Work.heeds_pure _

@[grind ←]
theorem copies_bind {c : CopyM α} {f : α → CopyM β} (hc : Heeds F c) (hf : ∀ a, Heeds F (f a)) : Heeds F (c >>= f) :=
  fun known => Work.heeds_bind (hc known) fun r => hf r.1 r.2

@[grind ←]
theorem copies_lift {w : Work α} (hw : w.Heeds F) : Heeds F (liftM w : CopyM α) :=
  fun _ => Work.heeds_bind hw fun _ => Work.heeds_pure _

/-- What is done with a result of other work can count on what is told of it. -/
theorem copies_bind_of {P : α → Prop} {w : Work α} {f : α → CopyM β} (hw : w.Heeds F) (hP : w.Tells F P)
    (hf : ∀ a, P a → Heeds F (f a)) : Heeds F (liftM w >>= f) := by
  intro known
  refine heeds_bind_of (P := fun r => P r.1) (heeds_bind hw fun _ => heeds_pure _) ?_ fun r hr => hf r.1 hr r.2
  exact tells_bind_of hP fun a ha => tells_pure ha

@[grind ←]
theorem copies_find (v : Value) : Heeds F (find? v) := fun _ => Work.heeds_pure _

@[grind ←]
theorem copies_record (v copy : Value) : Heeds F (record v copy) := fun _ => Work.heeds_pure _

@[grind ←]
theorem copies_place (v : Value) {f : Store → Value × Store} (h : ∀ s : Store, s.Settled (f s).2) :
    Heeds F (place v f) :=
  copies_bind (copies_lift (heeds_make h)) fun new => copies_bind (copies_record v new) fun _ => copies_pure new

@[grind ←]
theorem copies_change {f : Store → Store} (h : ∀ s : Store, s.Settled (f s)) : Heeds F (change f) :=
  copies_lift (heeds_modifyStore h)

@[grind ←]
theorem copies_refuse (v : Value) : Heeds F (refuse v) := copies_lift (heeds_failFor v _)

@[grind ←]
theorem copies_all {f : Value → CopyM Value} (hf : ∀ v, Heeds F (f v)) (vs : List Value) : Heeds F (all f vs) := by
  induction vs with
  | nil => exact copies_pure []
  | cons v vs ih => exact copies_bind (hf v) fun _ => copies_bind ih fun _ => copies_pure _

@[grind ←]
theorem copies_table {f : Value → CopyM Value} (hf : ∀ v, Heeds F (f v)) (t : Table Value) : Heeds F (table f t) :=
  copies_bind (copies_all hf _) fun _ => copies_pure _

@[grind ←]
theorem copies_entries {f : Value → CopyM Value} (hf : ∀ v, Heeds F (f v)) (dict : Value) (t : Entries) :
    Heeds F (entries f dict t) := by
  induction t with
  | nil => exact copies_pure ()
  | cons e t ih =>
    refine copies_bind (hf e.2) fun v => copies_bind (hf e.1) fun k => ?_
    exact copies_bind (copies_lift (heeds_setItem dict k v)) fun _ => ih

@[grind ←]
theorem copies_entriesOf (v : Value) : Heeds F (entriesOf v) :=
  copies_bind (copies_lift heeds_store) fun _ => copies_pure _

/-! ### States of instances -/

@[grind ←]
theorem heeds_renewed (detail : FaultDetail) (args : List Value) : (renewed detail args).Heeds F := by
  unfold renewed
  grind

@[grind ←]
theorem heeds_stateOf (v : Value) (x : Instance) : (stateOf v x).Heeds F := by
  unfold stateOf
  grind

@[grind ←]
theorem heeds_newLike (type : Nat) : (newLike type).Heeds F := by
  unfold newLike
  grind

/-- What is made like another object is an instance, or what its class gives. -/
theorem tells_newLike (type : Nat) : (newLike type).Tells F fun v => ∀ name, F.stores v name := by
  have hinstance : (make fun s => s.addInstance type).Tells F fun v => ∀ name, F.stores v name := by
    rintro _ _ m _ ⟨⟩ name
    exact F.stores_object (m.store.addInstance_ne_type type) name
  refine tells_bind fun own => ?_
  rcases own with _ | f | i
  · exact hinstance
  · exact fun σ hσ m v hv name => F.stores_of_answers (tells_call _ _ _ σ hσ m v hv) name
  · exact hinstance

theorem heeds_restore {v : Value} (hv : ∀ name, F.stores v name) (state : Value) : (restore v state).Heeds F := by
  have hset (name : String) (value : Value) := heeds_setAttribute (hv name) value
  unfold restore
  refine heeds_bind (heeds_attr? _ _) fun method => ?_
  split
  · exact heeds_bind (heeds_call _ _ _) fun _ => heeds_pure _
  · extract_lets ending
    have hending (parts : Value × Value) : (ending parts).Heeds F := by
      obtain ⟨fields, slots⟩ := parts
      unfold ending
      dsimp -zeta only
      extract_lets filling
      have hfilling (u : Unit) : (filling u).Heeds F := by
        unfold filling
        split
        · refine heeds_bind (heeds_query _) fun entries => ?_
          split <;> grind
        · exact heeds_pure _
      split
      · refine heeds_bind (heeds_attr _ _) fun w => ?_
        split
        · exact heeds_bind (heeds_updateFrom _ _) hfilling
        · exact heeds_bind (heeds_failLacking _ _) hfilling
      · exact hfilling ()
    split
    · refine heeds_bind (heeds_query _) fun parts => ?_
      split <;> exact heeds_bind (heeds_pure _) hending
    · exact heeds_bind (heeds_pure _) hending

@[grind ←]
theorem heeds_recipe (v : Value) (x : Instance) : (recipe? v x).Heeds F := by
  unfold recipe?
  refine heeds_bind (heeds_found _ _) fun method => heeds_bind (heeds_query _) fun own => ?_
  split
  · exact heeds_bind (heeds_call _ _ _) fun _ => heeds_pure _
  · exact heeds_bind (heeds_callMethod _ _ _) fun _ => heeds_pure _
  · exact heeds_pure _

@[grind ←]
theorem heeds_copier (s : Store) (v : Value) : (copier? s v).Heeds F := by
  unfold copier?
  grind

/-! ### Objects of each kind -/

section
variable {f g : Value → CopyM Value} (hf : ∀ v, Heeds F (f v)) (hg : ∀ v, Heeds F (g v))
include hf

theorem copies_ware (v : Value) (old : Ware) : Heeds F (ware f v old) := by
  refine copies_bind (copies_place v fun s => s.settled_addWare old) fun new => ?_
  refine copies_bind (hf _) fun context => copies_bind (hf _) fun steps => ?_
  refine copies_bind (copies_all hf _) fun _ => ?_
  cases old.attachers with
  | none =>
    refine copies_bind (copies_pure _) fun attachers => copies_bind (copies_table hf _) fun attrs => ?_
    cases new <;> grind
  | some w =>
    refine copies_bind (hf w) fun _ => copies_bind (copies_pure _) fun attachers => ?_
    refine copies_bind (copies_table hf _) fun attrs => ?_
    cases new <;> grind

theorem copies_step (v : Value) (old : Step) : Heeds F (step f v old) := by
  refine copies_bind (copies_place v fun s => s.settled_addStep old) fun new => ?_
  refine copies_bind (hf _) fun callee => copies_bind (hf _) fun name => ?_
  refine copies_bind (copies_table hf _) fun attrs => ?_
  cases new <;> grind

theorem copies_file (v : Value) (old : Carrier) : Heeds F (file f v old) := by
  refine copies_bind (copies_place v fun s => s.settled_addFile old) fun new => ?_
  refine copies_bind (hf _) fun contents => copies_bind (hf _) fun filename => ?_
  refine copies_bind (hf _) fun directory => copies_bind (hf _) fun extension => copies_bind (hf _) fun quiet => ?_
  refine copies_bind (hf _) fun messages => copies_bind (hf _) fun bags => copies_bind (copies_table hf _) fun attrs => ?_
  cases new <;> grind

omit hf in
theorem copies_finish (hg : ∀ v, Heeds F (g v)) (attrs : Table Value) (new : Value) :
    Heeds F (function.finish g attrs new) := by
  refine copies_bind (copies_table hg _) fun attrs => ?_
  exact copies_bind (copies_change (by grind)) fun _ => copies_pure _

theorem copies_function (hg : ∀ v, Heeds F (g v)) (v : Value) (old : Function) (attrs : Table Value) :
    Heeds F (function f g v old attrs) := by
  unfold function
  split
  · split
    · exact copies_pure _
    · exact copies_bind (copies_place v (by grind)) fun new => copies_finish hg attrs new
  · exact copies_pure _
  · exact copies_pure _
  · refine copies_bind (hf _) fun target => copies_bind (copies_place v (by grind)) fun new => copies_bind (hf _) fun leading => ?_
    refine copies_bind (hf _) fun keywords => copies_bind (copies_change (by grind)) fun _ => ?_
    exact copies_finish hg attrs new

theorem copies_fault (hg : ∀ v, Heeds F (g v)) (v : Value) (old : Fault) : Heeds F (fault f g v old) := by
  unfold fault
  refine copies_bind (copies_lift heeds_store) fun s => copies_bind (copies_all hf _) fun args => ?_
  refine copies_bind (copies_lift (heeds_renewed _ _)) fun args => ?_
  refine copies_bind (copies_place v fun s => s.settled_addFault _ _ _) fun new => ?_
  extract_lets _ ending
  have hending (detail : FaultDetail) : Heeds F (ending detail) := by
    refine copies_bind (copies_table hg _) fun attrs => ?_
    cases new <;> grind
  split
  · exact copies_bind (copies_pure _) hending
  · refine copies_bind (hg _) fun message => copies_bind (hg _) fun category => copies_bind (hg _) fun context => ?_
    refine copies_bind (hg _) fun cause => copies_bind (hg _) fun option => copies_bind (hg _) fun node => ?_
    exact copies_bind (copies_pure _) hending
  · refine copies_bind (hg _) fun cause => copies_bind (hg _) fun reason => copies_bind (hg _) fun name => ?_
    refine copies_bind (hg _) fun line => copies_bind (hg _) fun column => copies_bind (hg _) fun file => ?_
    exact copies_bind (hg _) fun fatal => copies_bind (copies_pure _) hending

theorem copies_follow (v : Value) (recipe : List Value) : Heeds F (follow f v recipe) := by
  have hitem (new item : Value) : Heeds F (do
      let item ← f item
      append new item
      return item : CopyM Value) :=
    copies_bind (hf item) fun w => copies_bind (copies_lift (heeds_append new w)) fun _ => copies_pure w
  unfold follow
  split
  · rename_i maker args rest
    -- Too many parts are refused. Of the three behind the arguments, each may be missing.
    dsimp only
    split
    refine copies_bind (copies_lift (heeds_fail _)) fun _ => ?_
    all_goals
      refine copies_bind (copies_lift (heeds_elements _)) fun vs => copies_bind (copies_all hf vs) fun args => ?_
      refine copies_bind_of (heeds_call _ _ _) (tells_call _ _ _) fun new hnew => ?_
      refine copies_bind (copies_record v new) fun _ => ?_
      split
      refine copies_bind (hf _) fun state => copies_bind (copies_lift (heeds_restore (F.stores_of_answers hnew) state)) fun _ => ?_
      all_goals
        split
        refine copies_bind (copies_lift (heeds_elements _)) fun is => copies_bind (copies_all (hitem new) is) fun _ => ?_
        all_goals
          split
          · refine copies_bind (copies_lift (heeds_elements _)) fun ps => ?_
            refine copies_bind (copies_all (fun pair => ?_) ps) fun _ => copies_pure new
            refine copies_bind (copies_lift (heeds_elements pair)) fun parts => ?_
            split
            · refine copies_bind (hf _) fun key => copies_bind (hf _) fun value => ?_
              exact copies_bind (copies_lift (heeds_setItem new key value)) fun _ => copies_pure key
            · exact copies_lift (heeds_fail _)
          · exact copies_pure new
  · exact copies_lift (heeds_fail _)

theorem copies_inst (v : Value) (x : Instance) : Heeds F (inst f v x) := by
  unfold inst
  refine copies_bind (copies_lift (heeds_recipe v x)) fun recipe => ?_
  split
  · exact copies_pure v
  · exact copies_bind (copies_lift (heeds_elements _)) fun parts => copies_follow hf v parts
  · refine copies_bind (copies_lift (heeds_stateOf v x)) fun state => ?_
    refine copies_bind_of (heeds_newLike x.type) (tells_newLike x.type) fun new hnew => ?_
    refine copies_bind (copies_record v new) fun _ => ?_
    dsimp only
    split
    · refine copies_bind (hf _) fun state => ?_
      exact copies_bind (copies_lift (heeds_restore hnew state)) fun _ => copies_pure new
    · exact copies_pure new

end

/-! ### Copies of values -/

/-- A copy refers to copies with less fuel. -/
theorem copies_copy (fuel : Nat) (v : Value) : Heeds F (copy fuel v) := by
  induction fuel using Nat.strongRecOn generalizing v with
  | ind fuel ih =>
    unfold copy
    split
    · exact copies_lift (heeds_fail _)
    · rename_i fuel
      refine copies_bind (copies_lift heeds_store) fun s => copies_bind (copies_find v) fun known => ?_
      refine copies_bind (copies_lift (heeds_copier s v)) fun method => ?_
      split
      · exact copies_pure _
      · refine copies_bind (copies_lift (heeds_newDict _)) fun memo => ?_
        refine copies_bind (copies_lift (heeds_call _ _ _)) fun new => ?_
        dsimp only
        split
        · exact copies_bind (copies_record v new) fun _ => copies_pure new
        · exact copies_pure new
      · -- Each kind of object leaves less fuel to what is in it.
        split
        case h_1 n =>
          have hn := ih n (by omega)
          refine copies_bind (copies_place _ (by grind)) fun new => ?_
          refine copies_bind (copies_all (fun w => ?_) _) fun _ => copies_pure new
          exact copies_bind (hn w) fun w => copies_bind (copies_lift (heeds_append new w)) fun _ => copies_pure w
        case h_2 n =>
          refine copies_bind (copies_place _ (by grind)) fun new => ?_
          exact copies_bind (copies_entries (ih n (by omega)) _ _) fun _ => copies_pure new
        case h_3 n =>
          refine copies_bind (copies_all (ih n (by omega)) _) fun items => copies_bind (copies_find _) fun known => ?_
          split
          · exact copies_pure _
          · split
            · exact copies_pure _
            · exact copies_place _ (by grind)
        case h_4 n =>
          refine copies_bind (copies_all (ih n (by omega)) _) fun items => ?_
          exact copies_bind (copies_lift (heeds_elementsOf items)) fun elements => copies_place _ (by grind)
        case h_5 n =>
          refine copies_bind (copies_place _ (by grind)) fun new => copies_bind (ih n (by omega) _) fun state => ?_
          refine copies_bind (copies_entriesOf state) fun state => ?_
          cases new <;> grind
        case h_6 n =>
          have hn := ih n (by omega)
          refine copies_bind (copies_place _ (by grind)) fun new => copies_bind (hn _) fun line => copies_bind (hn _) fun column => ?_
          cases new <;> grind
        case h_7 n =>
          refine copies_bind (copies_place _ (by grind)) fun new => copies_bind (ih n (by omega) _) fun state => ?_
          refine copies_bind (copies_entriesOf state) fun state => ?_
          cases new <;> grind
        case h_8 n => exact copies_inst (ih n (by omega)) _ _
        case h_9 n => exact copies_inst (ih n (by omega)) _ _
        case h_10 n => exact copies_fault (ih (n + 1) (by omega)) (ih n (by omega)) _ _
        case h_11 n => exact copies_file (ih n (by omega)) _ _
        case h_12 n => exact copies_ware (ih n (by omega)) _ _
        case h_13 n => exact copies_step (ih n (by omega)) _ _
        case h_14 n => exact copies_function (ih (n + 3) (by omega)) (ih n (by omega)) _ _ _
        case h_15 n =>
          have hn := ih (n + 2) (by omega)
          refine copies_bind (copies_place _ (by grind)) fun new => copies_bind (hn _) fun step => copies_bind (hn _) fun id => ?_
          refine copies_bind (hn _) fun parent => copies_bind (hn _) fun metrics => copies_bind (hn _) fun error => ?_
          refine copies_bind (copies_table hn _) fun attrs => ?_
          cases new <;> grind
        case h_16 n =>
          have hn := ih n (by omega)
          refine copies_bind (copies_place _ (by grind)) fun new => copies_bind (hn _) fun processor => ?_
          refine copies_bind (hn _) fun settings => copies_bind (hn _) fun file => copies_bind (hn _) fun tree => ?_
          refine copies_bind (hn _) fun result => ?_
          cases new <;> grind
        case h_17 n =>
          refine copies_bind (copies_place _ fun s => s.settled_addTicket _) fun new => ?_
          refine copies_bind (ih (n + 4) (by omega) _) fun step => ?_
          dsimp only
          split
          · refine copies_bind (copies_change fun s => s.settled_updateTicket _ fun _ => rfl) fun _ => copies_pure _
          · exact copies_pure _
        case h_28 =>
          split
          · exact copies_pure _
          · exact copies_lift (heeds_fail _)
        all_goals first | exact copies_pure _ | exact copies_refuse _

end Copying

namespace Work

@[grind ←]
theorem heeds_deepCopy (v : Value) : (deepCopy v).Heeds F :=
  heeds_bind (Copying.copies_copy _ v []) fun _ => heeds_pure _

/-! ### Files -/

@[grind ←]
theorem heeds_newFile (v : Value) : (newFile v).Heeds F := by
  unfold newFile
  split
  case h_6 =>
    refine heeds_bind (heeds_query _) fun entries => ?_
    split
    · grind
    · refine heeds_bind (heeds_make fun s => s.settled_emptyFile _) fun new => heeds_bind (heeds_trueOr _ _) fun _ => ?_
      exact heeds_bind (heeds_modifyStore fun s => s.settled_updateFile _ _) fun _ => heeds_pure _
  all_goals grind

@[grind ←]
theorem heeds_coerceFile (v : Value) : (coerceFile v).Heeds F := by
  unfold coerceFile
  grind

@[grind ←]
theorem heeds_bagOf (file : Nat) (key : Value) : (bagOf file key).Heeds F := by
  refine heeds_overridden _ _ _ (heeds_bind (heeds_newDict _) fun new => heeds_bind (heeds_query _) fun f => ?_)
  split
  · refine heeds_bind (heeds_query _) fun t => heeds_bind (heeds_valueUnder _ _) fun found => ?_
    split <;> grind
  · exact heeds_callMethod _ _ _

@[grind ←]
theorem heeds_isIn (v bags : Value) : (isIn v bags).Heeds F := by
  unfold isIn
  grind

@[grind ←]
theorem heeds_hasBag (file : Nat) (key : Value) : (hasBag file key).Heeds F := by
  unfold hasBag
  grind

/-! ### Diagnostics -/

@[grind ←]
theorem heeds_newDiagnostic (reason position file fatal : Value) : (newDiagnostic reason position file fatal).Heeds F := by
  unfold newDiagnostic
  grind

@[grind ←]
theorem heeds_newMessage (file : Nat) (reason position : Value) : (newMessage file reason position).Heeds F := by
  unfold newMessage
  grind

@[grind ←]
theorem heeds_recordMessage (file : Nat) (reason position : Value) (fatal : Bool) :
    (recordMessage file reason position fatal).Heeds F := by
  have hset (message : Value) := heeds_setAttribute (F.stores_public message (by decide : "fatal".toList.head? ≠ some '_'))
  unfold recordMessage
  grind

@[grind ←]
theorem heeds_anyFatal (vs : List Value) : (anyFatal vs).Heeds F := by
  fun_induction anyFatal vs <;> grind

@[grind ←]
theorem heeds_hasFailed (file : Nat) : (hasFailed file).Heeds F := by
  unfold hasFailed
  grind

end Work
end Treeworks

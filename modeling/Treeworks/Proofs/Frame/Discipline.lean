import Treeworks.Following

/-! What work does to the machine besides its result, whoever answers its requests. A discipline is a relation between
the machine before and after that everything keeps to: answers to requests are taken to keep to it, and work is shown
to do so then. -/
namespace Treeworks

/-- Whether an array has all items of another in their places, and perhaps more behind them. -/
structure Grows {α : Type} (xs ys : Array α) : Prop where
  size : xs.size ≤ ys.size
  same : ∀ i < xs.size, ∀ d, ys.getD i d = xs.getD i d

namespace Grows
variable {α : Type} {xs ys zs : Array α}

@[grind ←]
theorem refl (xs : Array α) : Grows xs xs := ⟨Nat.le_refl _, fun _ _ _ => rfl⟩

theorem trans (h : Grows xs ys) (h' : Grows ys zs) : Grows xs zs where
  size := Nat.le_trans h.size h'.size
  same i hi d := (h'.same i (Nat.lt_of_lt_of_le hi h.size) d).trans (h.same i hi d)

theorem push (xs : Array α) (x : α) : Grows xs (xs.push x) where
  size := by simp
  same i hi d := by simp [Array.getD, hi, Array.getElem_push_lt, Nat.lt_succ_of_lt hi]

end Grows

/-- What a computation that goes on gives, it gives after its first part has given something. -/
theorem Except.bind_eq_ok {ε α β : Type} {x : Except ε α} {f : α → Except ε β} {b : β} (h : (x >>= f) = .ok b) :
    ∃ a, x = .ok a ∧ f a = .ok b := by
  cases x with
  | error e => cases h
  | ok a => exact ⟨a, rfl, h⟩

/-- Two classes that differ at most in the annotations that one is given when it is asked for them. -/
structure TypeDef.Alike (t u : TypeDef) : Prop where
  ancestry : u.ancestry = t.ancestry
  role : u.role = t.role
  attrs : ∀ name ≠ "__annotations__", u.attrs.get? name = t.attrs.get? name

/-- What reading, showing and logging do to the machine: what is new may be added, and what was there stays. -/
structure Aside (m m' : Machine) : Prop where
  dicts : Grows m.store.dicts m'.store.dicts
  lists : Grows m.store.lists m'.store.lists
  sets : Grows m.store.sets m'.store.sets
  files : Grows m.store.files m'.store.files
  types : ∀ i, (m.store.type i).Alike (m'.store.type i)
  workers : m'.store.workers = m.store.workers
  processors : m'.store.processors = m.store.processors
  runner : m'.store.runner = m.store.runner
  cells : m'.cells = m.cells
  cell : m'.cell = m.cell
  tokens : m'.store.tokens = m.store.tokens

namespace Aside
variable {a b c m m' : Machine}

theorem refl (m : Machine) : Aside m m where
  dicts := .refl _
  lists := .refl _
  sets := .refl _
  files := .refl _
  types _ := ⟨rfl, rfl, fun _ _ => rfl⟩
  workers := rfl
  processors := rfl
  runner := rfl
  cells := rfl
  cell := rfl
  tokens := rfl

theorem trans (h : Aside a b) (h' : Aside b c) : Aside a c where
  dicts := h.dicts.trans h'.dicts
  lists := h.lists.trans h'.lists
  sets := h.sets.trans h'.sets
  files := h.files.trans h'.files
  types i :=
    { ancestry := (h'.types i).ancestry.trans (h.types i).ancestry
      role := (h'.types i).role.trans (h.types i).role
      attrs := fun name hname => ((h'.types i).attrs name hname).trans ((h.types i).attrs name hname) }
  workers := h'.workers.trans h.workers
  processors := h'.processors.trans h.processors
  runner := h'.runner.trans h.runner
  cells := h'.cells.trans h.cells
  cell := h'.cell.trans h.cell
  tokens := h'.tokens.trans h.tokens

/-! ### Something new -/

theorem addDict (m : Machine) (entries : Entries) : Aside m { m with store := (m.store.addDict entries).2 } :=
  { refl m with dicts := .push _ _ }

theorem addList (m : Machine) (items : List Value) : Aside m { m with store := (m.store.addList items).2 } :=
  { refl m with lists := .push _ _ }

theorem addSet (m : Machine) (e : Elements) : Aside m { m with store := (m.store.addSet e).2 } :=
  { refl m with sets := .push _ _ }

theorem addFile (m : Machine) (f : Carrier) : Aside m { m with store := (m.store.addFile f).2 } :=
  { refl m with files := .push _ _ }

theorem addTuple (m : Machine) (items : List Value) : Aside m { m with store := (m.store.addTuple items).2 } := by
  unfold Store.addTuple
  split
  · exact refl m
  · exact { refl m with }

theorem addFault (m : Machine) (detail : FaultDetail) (args : List Value) (cause : Value) :
    Aside m { m with store := (m.store.addFault detail args cause).2 } :=
  { addTuple m args with }

/-! ### Errors and annotations -/

theorem withoutReturn (m : Machine) (error : Value) (fuel : Nat) (handled : Value) :
    Aside m { m with store := m.store.withoutReturn error fuel handled } := by
  fun_induction Store.withoutReturn m.store error fuel handled with
  | case1 => exact { refl m with }
  | case2 _ _ _ _ ih => exact ih
  | case3 => exact refl m

theorem noteRaised (m : Machine) (error handled : Value) :
    Aside m { m with store := m.store.noteRaised error handled } := by
  unfold Store.noteRaised
  split
  · rename_i i
    have hraised : Aside m { m with store := m.store.updateFault i fun f => { f with raised := true } } :=
      { refl m with }
    split
    · exact hraised
    · have hreturn := withoutReturn { m with store := m.store.updateFault i fun f => { f with raised := true } }
        (.fault i) (m.store.updateFault i fun f => { f with raised := true }).faults.size handled
      exact hraised.trans { hreturn with }
  · exact refl m

/-- A class is given annotations when it is asked for them. -/
theorem annotate (m : Machine) (i : Nat) (v : Value) : Aside m { m with
    store := m.store.updateType i fun t => { t with attrs := t.attrs.set "__annotations__" v } } := by
  refine { refl m with types := fun j => ?_ }
  have hset (t : TypeDef) : t.Alike { t with attrs := t.attrs.set "__annotations__" v } :=
    ⟨rfl, rfl, fun name hname => by rw [Table.get?_set, if_neg (Ne.symm hname)]⟩
  simp only [Store.type, Store.updateType, Array.getD_eq_getD_getElem?, Array.getElem?_modify]
  split
  · cases m.store.types[j]? with
    | none => exact ⟨rfl, rfl, fun _ _ => rfl⟩
    | some t => exact hset t
  · exact ⟨rfl, rfl, fun _ _ => rfl⟩

end Aside

/-- Whether all fields of a logging context are scalars. -/
def LogContext.Plain (c : LogContext) : Prop :=
  ∀ v ∈ [c.processor, c.stage, c.filePath, c.spanId, c.parentSpanId], v.isScalar = true

namespace LogContext.Plain
variable {c : LogContext}

theorem entries (h : c.Plain) : ∀ e ∈ c.entries, e.2.isScalar = true := by
  intro e he
  have he' := (List.mem_filter.mp he).1
  simp only [List.mem_cons, List.not_mem_nil, or_false] at he'
  rcases he' with rfl | rfl | rfl | rfl | rfl <;> exact h _ (by simp)

theorem setField (h : c.Plain) (name : String) {v : Value} (hv : v.isScalar = true) : (c.setField name v).Plain := by
  simp only [LogContext.Plain, List.mem_cons, List.not_mem_nil, or_false, forall_eq_or_imp, forall_eq] at h ⊢
  obtain ⟨hp, hs, hf, hi, hn⟩ := h
  unfold LogContext.setField
  split
  · exact ⟨hv, hs, hf, hi, hn⟩
  split
  · exact ⟨hp, hv, hf, hi, hn⟩
  split
  · exact ⟨hp, hs, hv, hi, hn⟩
  split
  · exact ⟨hp, hs, hf, hv, hn⟩
  split
  · exact ⟨hp, hs, hf, hi, hv⟩
  · exact ⟨hp, hs, hf, hi, hn⟩

/-- Scalars put into a logging context leave it plain. -/
theorem merge (h : c.Plain) {values : Table Value} (hv : ∀ e ∈ values, e.2.isScalar = true) :
    (c.merge values).Plain := by
  unfold LogContext.merge
  induction values generalizing c with
  | nil => exact h
  | cons e values ih =>
    have hrest : ∀ e' ∈ values, e'.2.isScalar = true := fun e' he' => hv e' (.tail _ he')
    rw [List.foldl_cons]
    split
    · exact ih h hrest
    · exact ih (h.setField e.1 (hv e (.head _))) hrest

end LogContext.Plain

/-- A relation between the machine before and after that everything keeps to. It is asked of proper machines alone, in
whose logging contexts stand scalars. Reading keeps to it, and so does a change of logging contexts or of something
that is spare: new, and nobody's yet. -/
structure Discipline where
  holds : Machine → Machine → Prop
  proper : Machine → Prop
  spare : Machine → Value → Prop
  refl : ∀ m, holds m m
  trans : ∀ {a b c}, holds a b → holds b c → holds a c
  of_proper : ∀ {m m'}, (proper m → holds m m') → holds m m'
  proper_of_holds : ∀ {m m'}, holds m m' → proper m → proper m'
  plain : ∀ {m}, proper m → m.scope.fields.Plain
  aside : ∀ {m m'}, Aside m m' → holds m m'
  spare_dict : ∀ {m}, proper m → ∀ t, spare { m with store := (m.store.addDict t).2 } (.dict m.store.dicts.size)
  spare_file : ∀ {m}, proper m → ∀ f, spare { m with store := (m.store.addFile f).2 } (.file m.store.files.size)
  spare_of_holds : ∀ {m m' v}, holds m m' → spare m v → spare m' v
  write_dict : ∀ {m i}, spare m (.dict i) → ∀ f, holds m { m with store := m.store.updateDict i f }
  write_file : ∀ {m i}, spare m (.file i) → ∀ f, holds m { m with store := m.store.updateFile i f }
  set_scope : ∀ {m c} {n : Nat}, LogContext.Plain c →
    holds m { m with stamps := n, cells := m.cells.set! m.cell ⟨n, c⟩ }
  push_cell : ∀ m, holds m { m with cells := m.cells.push m.scope }
  push_token : ∀ m, holds m { m with store := { m.store with tokens := m.store.tokens.push ⟨m.cell, m.scope, false⟩ } }
  use_token : ∀ m token, holds m { m with
    cells := m.cells.set! m.cell (m.store.tokens.getD token default).previous
    store := { m.store with tokens := m.store.tokens.modify token fun t => { t with used := true } } }

namespace Work
variable {α β : Type} {D : Discipline}

/-- Whether work keeps to a discipline if all answers to its requests do. -/
def Keeps (D : Discipline) (w : Work α) : Prop :=
  ∀ σ : Service, (∀ r m, D.holds m (σ r m).2) → ∀ m, D.holds m (w σ m).2

/-- Whether work keeps to a discipline as long as something is spare. -/
def KeepsWith (D : Discipline) (v : Value) (w : Work α) : Prop :=
  ∀ σ : Service, (∀ r m, D.holds m (σ r m).2) → ∀ m, D.spare m v → D.holds m (w σ m).2

theorem bind_eq (w : Work α) (f : α → Work β) (σ : Service) (m : Machine) : (w >>= f) σ m =
    match w σ m with
    | (.done a, m) => f a σ m
    | (.raised e, m) => (.raised e, m)
    | (.spent, m) => (.spent, m) := rfl

theorem bind_done {w : Work α} {σ : Service} {m m' : Machine} {a : α} (h : w σ m = (.done a, m')) (f : α → Work β) :
    (w >>= f) σ m = f a σ m' := by
  rw [bind_eq, h]

/-- Once the runner has made a move, what it notes is logged. -/
theorem react_eq (move : Move) (σ : Service) (m : Machine) : react move σ m =
    (each logNote (m.store.runner.react move).2.1 >>= fun _ => pure (m.store.runner.react move).2.2 : Work Directive) σ
      { m with store := { m.store with runner := (m.store.runner.react move).1 } } := rfl

/-! ### Ways to put work together -/

@[grind ←]
theorem keeps_pure (a : α) : (pure a : Work α).Keeps D := fun _ _ m => D.refl m

@[grind ←]
theorem keeps_bind {w : Work α} {f : α → Work β} (hw : w.Keeps D) (hf : ∀ a, (f a).Keeps D) : (w >>= f).Keeps D := by
  intro σ hσ m
  have h := hw σ hσ m
  rw [bind_eq]
  rcases hr : w σ m with ⟨a | e | _, m'⟩ <;> rw [hr] at h
  · exact D.trans h (hf a σ hσ m')
  · exact h
  · exact h

/-- What is spare stays so while other work is done. -/
theorem keepsWith_bind {v : Value} {w : Work α} {f : α → Work β} (hw : w.Keeps D) (hf : ∀ a, (f a).KeepsWith D v) :
    (w >>= f).KeepsWith D v := by
  intro σ hσ m hv
  have h := hw σ hσ m
  rw [bind_eq]
  rcases hr : w σ m with ⟨a | e | _, m'⟩ <;> rw [hr] at h
  · exact D.trans h (hf a σ hσ m' (D.spare_of_holds h hv))
  · exact h
  · exact h

theorem keepsWith_seq {v : Value} {w : Work α} {f : α → Work β} (hw : w.KeepsWith D v)
    (hf : ∀ a, (f a).KeepsWith D v) : (w >>= f).KeepsWith D v := by
  intro σ hσ m hv
  have h := hw σ hσ m hv
  rw [bind_eq]
  rcases hr : w σ m with ⟨a | e | _, m'⟩ <;> rw [hr] at h
  · exact D.trans h (hf a σ hσ m' (D.spare_of_holds h hv))
  · exact h
  · exact h

theorem Keeps.with {v : Value} {w : Work α} (hw : w.Keeps D) : w.KeepsWith D v := fun σ hσ m _ => hw σ hσ m

/-- A new dictionary is spare for the work that goes on with it. -/
theorem keeps_addDict {f : Value → Work β} (t : Entries) (hf : ∀ i, (f (.dict i)).KeepsWith D (.dict i)) :
    (make (fun s => s.addDict t) >>= f).Keeps D := by
  intro σ hσ m
  refine D.of_proper fun hm => ?_
  exact D.trans (D.aside (.addDict m t)) (hf _ σ hσ _ (D.spare_dict hm t))

theorem keeps_serve (r : Request) : (serve r).Keeps D := fun _ hσ m => hσ r m

@[grind ←]
theorem keeps_call (callee : Value) (args : List Value) (keywords : Table Value) :
    Keeps (α := Value) D (serve (.call callee args keywords)) := keeps_serve _

@[grind ←]
theorem keeps_invoke (method : Method) (args : List Value) :
    Keeps (α := Value) D (serve (.invoke method args)) := keeps_serve _

@[grind ←]
theorem keeps_resume (coroutine : Nat) (error : Option Value) :
    Keeps (α := Pause) D (serve (.resume coroutine error)) := keeps_serve _

@[grind ←]
theorem keeps_attach (ware : Nat) (attacher : Value) (options : List Value) :
    Keeps (α := Unit) D (serve (.attach ware attacher options)) := keeps_serve _

@[grind ←]
theorem keeps_conclude (coroutine : Nat) : Keeps (α := Value) D (serve (.conclude coroutine)) := keeps_serve _

@[grind ←]
theorem keeps_attempt {w : Work α} (hw : w.Keeps D) : (attempt w).Keeps D := by
  intro σ hσ m
  have h := hw σ hσ m
  unfold attempt
  rcases hr : w σ m with ⟨a | e | _, m'⟩ <;> rw [hr] at h <;> exact h

theorem keeps_modify {f : Machine → Machine} (h : ∀ m, D.holds m (f m)) : (modify f).Keeps D := fun _ _ m => h m

theorem keeps_modifyStore {f : Store → Store} (h : ∀ m : Machine, D.holds m { m with store := f m.store }) :
    (modifyStore f).Keeps D := fun _ _ m => h m

theorem keeps_make {f : Store → α × Store} (h : ∀ m : Machine, D.holds m { m with store := (f m.store).2 }) :
    (make f).Keeps D := fun _ _ m => h m

@[grind ←]
theorem keeps_each {f : α → Work β} (hf : ∀ a, (f a).Keeps D) : ∀ as : List α, (each f as).Keeps D
  | [] => keeps_pure []
  | a :: as => keeps_bind (hf a) fun _ => keeps_bind (keeps_each hf as) fun _ => keeps_pure _

@[grind ←]
theorem keeps_eachValue {f : Value → Work β} (hf : ∀ a, (f a).Keeps D) (t : Table Value) :
    (eachValue f t).Keeps D := by
  unfold eachValue
  grind

/-! ### Looking -/

@[grind ←]
theorem keeps_store : store.Keeps D := fun _ _ m => D.refl m

@[grind ←]
theorem keeps_machine : machine.Keeps D := fun _ _ m => D.refl m

@[grind ←]
theorem keeps_inspect (f : Machine → α) : (inspect f).Keeps D := fun _ _ m => D.refl m

@[grind ←]
theorem keeps_query (f : Store → α) : (query f).Keeps D := fun _ _ m => D.refl m

@[grind ←]
theorem keeps_isCallable (v : Value) : (isCallable v).Keeps D := keeps_query _

@[grind ←]
theorem keeps_isOrdinary (e : Value) : (isOrdinary e).Keeps D := by
  unfold isOrdinary
  grind

@[grind ←]
theorem keeps_exhausted : (exhausted : Work α).Keeps D := fun _ _ m => D.refl m

/-! ### Something new -/

@[grind ←]
theorem keeps_newList (items : List Value) : (newList items).Keeps D := keeps_make fun m => D.aside (.addList m items)

theorem keeps_makeDict (t : Entries) : (make fun s => s.addDict t).Keeps D := keeps_make fun m => D.aside (.addDict m t)

@[grind ←]
theorem keeps_newDict (t : Table Value) : (newDict t).Keeps D := keeps_makeDict _

@[grind ←]
theorem keeps_newTuple (items : List Value) : (newTuple items).Keeps D :=
  keeps_make fun m => D.aside (.addTuple m items)

@[grind ←]
theorem keeps_newFunction (f : Function) : (newFunction f).Keeps D :=
  keeps_make fun m => D.aside { Aside.refl m with }

theorem keeps_makeSet (e : Elements) : (make fun s => s.addSet e).Keeps D := keeps_make fun m => D.aside (.addSet m e)

theorem keeps_makeFault (detail : FaultDetail) (args : List Value) (cause : Value) :
    (make fun s => s.addFault detail args cause).Keeps D := keeps_make fun m => D.aside (.addFault m detail args cause)

/-! ### Errors -/

@[grind ←]
theorem keeps_reraise (e : Value) : (reraise e : Work α).Keeps D := fun _ _ m => D.refl m

@[grind ←]
theorem keeps_raise (e : Value) : (raise e : Work α).Keeps D :=
  keeps_bind (keeps_modify fun m => D.aside (.noteRaised m e _)) fun _ => keeps_reraise e

@[grind ←]
theorem keeps_fail (f : Failure) : (fail f : Work α).Keeps D :=
  keeps_bind (keeps_makeFault _ _ _) fun e => keeps_raise e

@[grind ←]
theorem keeps_raiseEngine (kind : EngineKind) (message : String) (context option : Value) :
    (raiseEngine kind message context option : Work α).Keeps D :=
  keeps_bind (keeps_makeFault _ _ _) fun e => keeps_raise e

@[grind ←]
theorem keeps_failLacking (v : Value) (name : String) : (failLacking v name : Work α).Keeps D :=
  keeps_bind (keeps_query _) fun _ => keeps_fail _

@[grind ←]
theorem keeps_failFor (v : Value) (f : String → Failure) : (failFor v f : Work α).Keeps D :=
  keeps_bind (keeps_query _) fun _ => keeps_fail _

@[grind ←]
theorem keeps_look (f : Store → Except Failure α) : (look f).Keeps D := by
  intro σ hσ m
  unfold look
  split
  · exact D.refl m
  · exact keeps_fail _ σ hσ m

@[grind ←]
theorem keeps_raiseValue (v : Value) : (raiseValue v : Work α).Keeps D := by
  unfold raiseValue
  grind

@[grind ←]
theorem keeps_release (e : Except Value α) : (release e).Keeps D := by
  cases e with
  | ok a => exact keeps_pure a
  | error e => exact keeps_reraise e

@[grind ←]
theorem keeps_handling (e : Value) {w : Work α} (hw : w.Keeps D) : (handling e w).Keeps D := by
  have hpush : ∀ m : Machine, D.holds m { m with handling := e :: m.handling } :=
    fun m => D.aside { Aside.refl m with }
  have hpop : ∀ m : Machine, D.holds m { m with handling := m.handling.tail } :=
    fun m => D.aside { Aside.refl m with }
  refine keeps_bind (keeps_modify hpush) fun _ => keeps_bind (keeps_attempt hw) fun result => ?_
  exact keeps_bind (keeps_modify hpop) fun _ => keeps_release result

@[grind ←]
theorem keeps_record (event : Datum) : (record event).Keeps D := keeps_modify fun m => D.aside { Aside.refl m with }

end Work
end Treeworks

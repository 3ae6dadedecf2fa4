import Treeworks.Proofs.Frame.Coroutines

/-! What work of the library does to the machine, as far as three things go: to the configuration of logging no more
than to use loggers, to the classes no more than it has to, and to lines of control no more than to let futures be and
end. A frame is a relation between the machine before and after that allows for this; it says what else it takes for
granted of the answers to requests. -/
namespace Treeworks

/-- What the use of loggers makes of the state of logging. -/
structure Logging.Used (l l' : Logging) : Prop where
  configured : l'.configured = l.configured
  chain : l'.chain = l.chain
  rootLevel : l'.rootLevel = l.rootLevel
  ownLevel : l'.ownLevel = l.ownLevel
  kept : ∀ logger, l'.kept.get? logger = l.kept.get? logger ∨
    l.kept.get? logger = none ∧ l'.kept.get? logger = l.chain

namespace Logging.Used
variable {a b c l : Logging}

theorem refl (l : Logging) : l.Used l := ⟨rfl, rfl, rfl, rfl, fun _ => .inl rfl⟩

theorem trans (h : a.Used b) (h' : b.Used c) : a.Used c where
  configured := h'.configured.trans h.configured
  chain := h'.chain.trans h.chain
  rootLevel := h'.rootLevel.trans h.rootLevel
  ownLevel := h'.ownLevel.trans h.ownLevel
  kept logger := by
    rcases h'.kept logger with hbc | ⟨hb, hc⟩ <;> rcases h.kept logger with hab | ⟨ha, hab⟩
    · exact .inl (hbc.trans hab)
    · exact .inr ⟨ha, hbc.trans hab⟩
    · exact .inr ⟨hab ▸ hb, hc.trans h.chain⟩
    · exact .inr ⟨ha, hc.trans h.chain⟩

/-- One use of one logger. -/
theorem chainOf (l : Logging) (logger : String) : l.Used (l.chainOf logger).2 := by
  unfold Logging.chainOf
  split
  · exact refl l
  · rename_i hkept
    split
    · exact refl l
    · rename_i c hchain
      refine ⟨rfl, rfl, rfl, rfl, fun other => ?_⟩
      rw [Table.get?_set]
      split
      · rename_i heq
        exact .inr ⟨heq ▸ hkept, hchain.symm⟩
      · exact .inl rfl

end Logging.Used

/-- What a store keeps of the runs that are on: the contexts that can be brought back, the runs, what their
continuations are for, and what waits on the stack. -/
def Store.course (s : Store) : Array Token × Array Run × List Activation × Array Nat :=
  (s.tokens, s.runner.runs, s.runner.stack, s.runner.tickets.map (·.run))

/-- A store whose runs are as they were. There may be more continuations for them. -/
structure Store.Rests (s s' : Store) : Prop where
  tokens : s'.tokens = s.tokens
  runs : s'.runner.runs = s.runner.runs
  stack : s'.runner.stack = s.runner.stack
  tickets : Grows (s.runner.tickets.map (·.run)) (s'.runner.tickets.map (·.run))

namespace Store.Rests
variable {s s' s'' : Store}

theorem of_eq (h : s'.course = s.course) : s.Rests s' := by
  simp only [course, Prod.mk.injEq] at h
  obtain ⟨htokens, hruns, hstack, htickets⟩ := h
  exact ⟨htokens, hruns, hstack, htickets ▸ .refl _⟩

theorem trans (h : s.Rests s') (h' : s'.Rests s'') : s.Rests s'' where
  tokens := h'.tokens.trans h.tokens
  runs := h'.runs.trans h.runs
  stack := h'.stack.trans h.stack
  tickets := h.tickets.trans h'.tickets

end Store.Rests

/-- Whether a store has the classes of another, at least its instances of families, and its runs as they are. -/
structure Store.Settled (s s' : Store) : Prop where
  types : s'.types = s.types
  processors : s.processors.size ≤ s'.processors.size
  rests : s.Rests s'

namespace Loop

/-- Whether a handle is queued, or will be when a future ends. -/
def Holds (l : Loop) (h : Handle) : Prop := h ∈ l.ready ∨ ∃ i, h ∈ (l.future i).watchers

/-- What a future's task runs, and where. -/
def Future.line (f : Future) : Option (Nat × Nat) := f.task.map fun t => (t.coroutine, t.cell)

/-- A loop in which nothing new is going on: futures may be made and end, and what was queued may be gone. -/
structure Calm (l l' : Loop) : Prop where
  running : l'.running = l.running
  futures : l.futures.size ≤ l'.futures.size
  line : ∀ i, Future.line (l'.future i) = Future.line (l.future i)
  holds : ∀ h, l'.Holds h → l.Holds h

namespace Calm
variable {l l' l'' : Loop}

@[grind ←]
theorem refl (l : Loop) : l.Calm l := ⟨rfl, Nat.le_refl _, fun _ => rfl, fun _ h => h⟩

theorem trans (h : l.Calm l') (h' : l'.Calm l'') : l.Calm l'' where
  running := h'.running.trans h.running
  futures := Nat.le_trans h.futures h'.futures
  line i := (h'.line i).trans (h.line i)
  holds x hx := h.holds x (h'.holds x hx)

end Calm

/-- A future that is changed but for its task, and has no new watchers. -/
theorem calm_update (l : Loop) (i : Nat) {f : Future → Future} (hline : ∀ x, Future.line (f x) = Future.line x)
    (hwatchers : ∀ x, ∀ h ∈ (f x).watchers, h ∈ x.watchers) : l.Calm (l.update i f) where
  running := rfl
  futures := by simp [update]
  line j := by
    rw [future_update]
    split
    · exact hline _
    · rfl
  holds h hh := by
    rcases hh with hready | ⟨j, hj⟩
    · exact .inl hready
    · rw [future_update] at hj
      split at hj
      · exact .inr ⟨j, hwatchers _ h hj⟩
      · exact .inr ⟨j, hj⟩

@[grind ←]
theorem calm_newFuture (l : Loop) : l.Calm l.newFuture.2 := by
  have hfuture (i : Nat) : l.newFuture.2.future i = l.future i := by
    simp only [future, newFuture, Array.getD_eq_getD_getElem?, Array.getElem?_push]
    split
    · rename_i hi
      rw [hi, Array.getElem?_eq_none (Nat.le_refl _)]
      rfl
    · rfl
  refine ⟨rfl, by simp [newFuture], fun i => by rw [hfuture], fun h hh => ?_⟩
  refine hh.imp_right ?_
  rintro ⟨i, hi⟩
  exact ⟨i, hfuture i ▸ hi⟩

/-- The watchers of a future that ends were watching before. -/
@[grind ←]
theorem calm_settle (l : Loop) (i : Nat) (ending : Ending) : l.Calm (l.settle i ending) := by
  unfold settle
  split
  · exact .refl l
  · have hupdate : l.Calm (l.update i fun x => { x with ending := some ending, watchers := [] }) :=
      l.calm_update i (fun _ => rfl) fun _ _ h => absurd h List.not_mem_nil
    refine { hupdate with holds := fun h hh => ?_ }
    rcases hh with hready | hwatched
    · have hmoved : h ∈ l.ready ++ (l.future i).watchers := hready
      exact (List.mem_append.mp hmoved).imp_right fun hwatches => ⟨i, hwatches⟩
    · exact hupdate.holds h (.inr hwatched)

theorem calm_updateTask (l : Loop) (i : Nat) {f : Task → Task} (hcoroutine : ∀ t, (f t).coroutine = t.coroutine)
    (hcell : ∀ t, (f t).cell = t.cell) : l.Calm (l.updateTask i f) :=
  l.calm_update i (fun x => by cases hx : x.task <;> simp [Future.line, hx, hcoroutine, hcell]) fun _ _ h => h

@[grind ←]
theorem calm_cancel (l : Loop) (i : Nat) : l.Calm (l.cancel i).2 := by
  have hdue := l.calm_updateTask i (f := fun t => { t with cancelDue := true }) (fun _ => rfl) fun _ => rfl
  unfold cancel
  split
  · exact .refl l
  · split
    · exact l.calm_settle i _
    · split
      · split
        · exact l.calm_settle _ _
        · exact hdue
      · exact hdue

end Loop

namespace Machine

/-- What a machine keeps of lines of control. -/
def control (m : Machine) : Array Scope × Nat × Loop × Array Coroutine × Nat :=
  (m.cells, m.cell, m.loop, m.coroutines, m.spanIds)

/-- A machine whose lines of control are as they were. Coroutines may be made that have not begun. -/
structure Still (m m' : Machine) : Prop where
  cells : m'.cells = m.cells
  cell : m'.cell = m.cell
  loop : m.loop.Calm m'.loop
  coroutines : Grows m.coroutines m'.coroutines
  spanIds : m'.spanIds = m.spanIds

theorem Still.of_eq {m m' : Machine} (h : m'.control = m.control) : m.Still m' := by
  simp only [control, Prod.mk.injEq] at h
  obtain ⟨hcells, hcell, hloop, hcoroutines, hspans⟩ := h
  exact ⟨hcells, hcell, hloop ▸ .refl _, hcoroutines ▸ .refl _, hspans⟩

end Machine

/-- Whether a request lets coroutines go on. -/
def Request.resumes : Request → Bool
  | .resume .. | .conclude .. => true
  | _ => false

/-- A relation between the machine before and after, for machines in which it makes sense, and what is taken for granted
of those who answer requests. Of the classes it may ask more: which of their attributes may be stored, and what they may
be defined with. It need not be about work without an end, nor about requests that let coroutines go on. -/
structure Frame where
  sound : Machine → Prop
  holds : Machine → Machine → Prop
  lasting : Prop
  asks : Request → Prop
  serves : Service → Prop
  answers : Value → Prop
  stores : Value → String → Prop
  defines : Table Value → Prop
  defines_public : ∀ {attrs : Table Value}, (∀ e ∈ attrs, e.1.toList.head? ≠ some '_') → defines attrs
  trans : ∀ {a b c}, holds a b → holds b c → holds a c
  keeps : ∀ {a b}, holds a b → sound a → sound b
  calls : ∀ {r}, r.resumes = false → asks r
  served : ∀ {σ}, serves σ → ∀ {r}, r.resumes = false → ∀ m, ((σ r m).1 = .spent → lasting) → holds m (σ r m).2
  answered : ∀ {σ}, serves σ → ∀ {callee args keywords m v},
    (σ (.call callee args keywords) m).1 = .done v → answers v
  stores_of_answers : ∀ {v}, answers v → ∀ name, stores v name
  stores_object : ∀ {v}, (∀ i, v ≠ .type i) → ∀ name, stores v name
  stores_public : ∀ v {name : String}, name.toList.head? ≠ some '_' → stores v name
  still : ∀ {m m'}, m'.logging = m.logging → m.store.Settled m'.store → m.Still m' → holds m m'
  used : ∀ {m l}, m.logging.Used l → holds m { m with logging := l }
  stored : ∀ {m s} {i : Nat} {name value}, stores (.type i) name → m.store.setTypeAttr i name value = .ok s →
    holds m { m with store := s }
  annotated : ∀ m i v, holds m { m with
    store := m.store.updateType i fun t => { t with attrs := t.attrs.set "__annotations__" v } }
  derived : ∀ m base documented, holds m { m with store := (m.store.derive base documented).2 }
  defined : ∀ {m s} {i : Nat} {name module doc bases attrs role}, defines attrs →
    m.store.newType name module doc bases attrs role = .ok (i, s) → holds m { m with store := s }

/-- Whether a frame asks nothing of the classes. -/
class Frame.Lax (F : Frame) : Prop where
  stores : ∀ v name, F.stores v name
  defines : ∀ attrs, F.defines attrs

/-- Whether a frame asks nothing of lines of control, and is about whatever is done. -/
class Frame.Free (F : Frame) : Prop where
  sound : ∀ m, F.sound m
  lasting : F.lasting
  asks : ∀ r, F.asks r
  holds : ∀ {m m'}, m'.logging = m.logging → m'.store.types = m.store.types →
    m.store.processors.size ≤ m'.store.processors.size → F.holds m m'
  served : ∀ {σ}, F.serves σ → ∀ r m, F.holds m (σ r m).2

namespace Store
variable {s s' s'' : Store}

@[grind =]
theorem settled_iff : s.Settled s' ↔ s'.types = s.types ∧ s.processors.size ≤ s'.processors.size ∧
    s'.tokens = s.tokens ∧ s'.runner.runs = s.runner.runs ∧ s'.runner.stack = s.runner.stack ∧
    Grows (s.runner.tickets.map (·.run)) (s'.runner.tickets.map (·.run)) := by
  constructor
  · exact fun h => ⟨h.types, h.processors, h.rests.tokens, h.rests.runs, h.rests.stack, h.rests.tickets⟩
  · rintro ⟨htypes, hprocessors, htokens, hruns, hstack, htickets⟩
    exact ⟨htypes, hprocessors, htokens, hruns, hstack, htickets⟩

namespace Settled

@[grind ←]
theorem refl (s : Store) : s.Settled s := ⟨rfl, Nat.le_refl _, .of_eq rfl⟩

theorem trans (h : s.Settled s') (h' : s'.Settled s'') : s.Settled s'' :=
  ⟨h'.types.trans h.types, Nat.le_trans h.processors h'.processors, h.rests.trans h'.rests⟩

end Settled

/-! ### What leaves the classes alone -/

@[grind ←]
theorem settled_addList (s : Store) (items : List Value) : s.Settled (s.addList items).2 := ⟨rfl, Nat.le_refl _, .of_eq rfl⟩

@[grind ←]
theorem settled_addDict (s : Store) (entries : Entries) : s.Settled (s.addDict entries).2 := ⟨rfl, Nat.le_refl _, .of_eq rfl⟩

@[grind ←]
theorem settled_addSet (s : Store) (e : Elements) : s.Settled (s.addSet e).2 := ⟨rfl, Nat.le_refl _, .of_eq rfl⟩

@[grind ←]
theorem settled_addRecord (s : Store) (attrs : Entries) : s.Settled (s.addRecord attrs).2 := ⟨rfl, Nat.le_refl _, .of_eq rfl⟩

@[grind ←]
theorem settled_addView (s : Store) (entries : Entries) : s.Settled (s.addView entries).2 := ⟨rfl, Nat.le_refl _, .of_eq rfl⟩

@[grind ←]
theorem settled_addPoint (s : Store) (p : Point) : s.Settled (s.addPoint p).2 := ⟨rfl, Nat.le_refl _, .of_eq rfl⟩

@[grind ←]
theorem settled_addFile (s : Store) (f : Carrier) : s.Settled (s.addFile f).2 := ⟨rfl, Nat.le_refl _, .of_eq rfl⟩

@[grind ←]
theorem settled_addFunction (s : Store) (f : Function) : s.Settled (s.addFunction f).2 := ⟨rfl, Nat.le_refl _, .of_eq rfl⟩

@[grind ←]
theorem settled_addSpan (s : Store) (span : Span) : s.Settled (s.addSpan span).2 := ⟨rfl, Nat.le_refl _, .of_eq rfl⟩

@[grind ←]
theorem settled_addStep (s : Store) (step : Step) : s.Settled (s.addStep step).2 := ⟨rfl, Nat.le_refl _, .of_eq rfl⟩

@[grind ←]
theorem settled_addWare (s : Store) (w : Ware) : s.Settled (s.addWare w).2 := ⟨rfl, Nat.le_refl _, .of_eq rfl⟩

@[grind ←]
theorem settled_addTuple (s : Store) (items : List Value) : s.Settled (s.addTuple items).2 := by
  unfold addTuple
  split <;> exact ⟨rfl, Nat.le_refl _, .of_eq rfl⟩

@[grind ←]
theorem settled_addFault (s : Store) (detail : FaultDetail) (args : List Value) (cause : Value) :
    s.Settled (s.addFault detail args cause).2 :=
  (settled_addTuple s args).trans ⟨rfl, Nat.le_refl _, .of_eq rfl⟩

@[grind ←]
theorem settled_addInstance (s : Store) (type : Nat) : s.Settled (s.addInstance type).2 := by
  unfold addInstance
  split
  · exact ⟨rfl, by simp [addProcessor], .of_eq rfl⟩
  · exact ⟨rfl, Nat.le_refl _, .of_eq rfl⟩

theorem addInstance_ne_type (s : Store) (type i : Nat) : (s.addInstance type).1 ≠ .type i := by
  unfold addInstance
  split <;> exact nofun

@[grind ←]
theorem settled_addEmptyWare (s : Store) (context : Value) (attachers : Option Value) :
    s.Settled (s.addEmptyWare context attachers).2 := ⟨rfl, Nat.le_refl _, .of_eq rfl⟩

@[grind ←]
theorem settled_addContext (s : Store) (attrs : Table Value) : s.Settled (s.addContext attrs).2 :=
  ⟨rfl, Nat.le_refl _, .of_eq rfl⟩

@[grind ←]
theorem settled_contextFor (s : Store) (processor filePath : Value) :
    s.Settled (s.contextFor processor filePath).2 := ⟨rfl, Nat.le_refl _, .of_eq rfl⟩

@[grind ←]
theorem settled_emptyFile (s : Store) (contents : Value) : s.Settled (s.emptyFile contents).2 := ⟨rfl, Nat.le_refl _, .of_eq rfl⟩

@[grind ←]
theorem settled_moveFile (s : Store) (file : Nat) (filename directory extension : Value) :
    s.Settled (s.moveFile file filename directory extension) := ⟨rfl, Nat.le_refl _, .of_eq rfl⟩

@[grind ←]
theorem settled_fix (s : Store) (callee : Value) (leading : List Value) : s.Settled (s.fix callee leading).2 := by
  unfold fix
  extract_lets add
  have hadd (target : Value) (leading : List Value) (keywords : Entries) :
      s.Settled (add target leading keywords).2 :=
    (settled_addTuple s leading).trans ⟨rfl, Nat.le_refl _, .of_eq rfl⟩
  split
  · split <;> exact hadd _ _ _
  · exact hadd _ _ _

@[grind ←]
theorem settled_updateDict (s : Store) (i : Nat) (f : Entries → Entries) : s.Settled (s.updateDict i f) :=
  ⟨rfl, Nat.le_refl _, .of_eq rfl⟩

@[grind ←]
theorem settled_updateList (s : Store) (i : Nat) (f : Array Value → Array Value) : s.Settled (s.updateList i f) :=
  ⟨rfl, Nat.le_refl _, .of_eq rfl⟩

@[grind ←]
theorem settled_updateFile (s : Store) (i : Nat) (f : Carrier → Carrier) : s.Settled (s.updateFile i f) :=
  ⟨rfl, Nat.le_refl _, .of_eq rfl⟩

@[grind ←]
theorem settled_updateFault (s : Store) (i : Nat) (f : Fault → Fault) : s.Settled (s.updateFault i f) :=
  ⟨rfl, Nat.le_refl _, .of_eq rfl⟩

@[grind ←]
theorem settled_updateWare (s : Store) (i : Nat) (f : Ware → Ware) :
    s.Settled { s with runner := s.runner.updateWare i f } := ⟨rfl, Nat.le_refl _, .of_eq rfl⟩

@[grind ←]
theorem settled_updateStep (s : Store) (i : Nat) (f : Step → Step) :
    s.Settled { s with runner := s.runner.updateStep i f } := ⟨rfl, Nat.le_refl _, .of_eq rfl⟩

@[grind ←]
theorem settled_addTicket (s : Store) (ticket : Ticket) :
    s.Settled { s with runner := { s.runner with tickets := s.runner.tickets.push ticket } } :=
  ⟨rfl, Nat.le_refl _, rfl, rfl, rfl, by simpa only [Array.map_push] using Grows.push _ _⟩

/-- What continuations are for stays. -/
theorem settled_updateTicket (s : Store) (i : Nat) {f : Ticket → Ticket} (hf : ∀ ticket, (f ticket).run = ticket.run) :
    s.Settled { s with runner := { s.runner with tickets := s.runner.tickets.modify i f } } := by
  have hruns : (s.runner.tickets.modify i f).map (·.run) = s.runner.tickets.map (·.run) := by
    refine Array.ext_getElem? fun j => ?_
    simp only [Array.getElem?_map, Array.getElem?_modify]
    split <;> cases s.runner.tickets[j]? <;> simp [hf]
  exact ⟨rfl, Nat.le_refl _, .of_eq (by simp only [course, hruns])⟩

theorem settled_updateInstance (s : Store) (v : Value) (f : Instance → Instance) :
    s.Settled (s.updateInstance v f) := by
  cases v with
  | processor i => exact ⟨rfl, by simp [updateInstance], .of_eq rfl⟩
  | _ => exact ⟨rfl, Nat.le_refl _, .of_eq rfl⟩

theorem settled_setInstanceAttr {v : Value} {x : Instance} {name : String} {value : Value}
    (h : s.setInstanceAttr v x name value = .ok s') : s.Settled s' := by
  unfold setInstanceAttr at h
  dsimp only at h
  split at h
  · split at h
    · cases h
      exact settled_updateInstance s v _
    · cases h
  · cases h
  · cases h
  · cases h
    exact settled_updateInstance s v _
  · split at h
    · cases h
    · split at h
      · cases h
        exact settled_updateInstance s v _
      · cases h
      · cases h
        exact settled_updateDict s _ _

/-- To store an attribute on anything but a class leaves the classes alone. -/
theorem settled_setAttr {v : Value} (hv : ∀ i, v ≠ .type i) {name : String} {value : Value}
    (h : s.setAttr v name value = .ok s') : s.Settled s' := by
  cases v with
  | type i => exact absurd rfl (hv i)
  | worker i | processor i => exact settled_setInstanceAttr h
  | fault i =>
    obtain ⟨f, -, hf⟩ := Except.bind_eq_ok h
    cases hf
    exact settled_updateFault s i _
  | span i =>
    obtain ⟨span, -, hspan⟩ := Except.bind_eq_ok h
    cases hspan
    exact ⟨rfl, Nat.le_refl _, .of_eq rfl⟩
  | next t =>
    cases h
    split
    · exact settled_updateTicket s t fun _ => rfl
    · exact .refl s
  | _ =>
    simp only [setAttr, setContextAttr, setFunctionAttr] at h
    grind [Runner.updateWare, Runner.updateStep]

@[grind ←]
theorem settled_withoutReturn (s : Store) (error : Value) (fuel : Nat) (handled : Value) :
    s.Settled (s.withoutReturn error fuel handled) := by
  fun_induction withoutReturn s error fuel handled with
  | case1 => exact ⟨rfl, Nat.le_refl _, .of_eq rfl⟩
  | case2 _ _ _ _ ih => exact ih
  | case3 => exact .refl s

@[grind ←]
theorem settled_noteRaised (s : Store) (error handled : Value) : s.Settled (s.noteRaised error handled) := by
  unfold noteRaised
  split
  · rename_i i
    split
    · exact ⟨rfl, Nat.le_refl _, .of_eq rfl⟩
    · have hraised := s.settled_updateFault i fun f => { f with raised := true }
      exact (hraised.trans (settled_withoutReturn _ (.fault i) _ handled)).trans (settled_updateFault _ i _)
  · exact .refl s

end Store

namespace Frame
variable (F : Frame) {m m' : Machine}

theorem settled (hlogging : m'.logging = m.logging) (hstore : m.store.Settled m'.store)
    (hcontrol : m'.control = m.control) : F.holds m m' := F.still hlogging hstore (.of_eq hcontrol)

/-- What happens beside logging, the store and lines of control is left open. -/
theorem beside (hlogging : m'.logging = m.logging) (hstore : m'.store = m.store) (hcontrol : m'.control = m.control) :
    F.holds m m' := F.settled hlogging (hstore ▸ .refl _) hcontrol

theorem refl (m : Machine) : F.holds m m := F.beside rfl rfl rfl

/-- Whether a frame is about work that ends in a way. -/
def Counts {α : Type} (o : Outcome α) : Prop := o = .spent → F.lasting

@[simp]
theorem counts_done {α : Type} (a : α) : F.Counts (.done a) := nofun

@[simp]
theorem counts_raised {α : Type} (e : Value) : F.Counts (.raised e : Outcome α) := nofun

theorem counts_of_spent {α β : Type} (h : F.Counts (.spent : Outcome α)) : F.Counts (.spent : Outcome β) :=
  fun _ => h rfl

theorem counts [F.Free] {α : Type} (o : Outcome α) : F.Counts o := fun _ => Free.lasting

/-- Whether two services answer the requests that a frame is about alike, where it holds after a machine. -/
def Agree (m : Machine) (σ σ' : Service) : Prop := ∀ r m', F.asks r → F.holds m m' → σ' r m' = σ r m'

variable {F} in
theorem Agree.mono {σ σ' : Service} (h : F.Agree m σ σ') (hm : F.holds m m') : F.Agree m' σ σ' :=
  fun r m'' hr hm' => h r m'' hr (F.trans hm hm')

/-- The frame of logging, which asks nothing of the classes. -/
def logging : Frame where
  sound _ := True
  holds m m' := m.logging.Used m'.logging
  lasting := True
  asks _ := True
  serves σ := ∀ r (m : Machine), m.logging.Used (σ r m).2.logging
  answers _ := True
  stores _ _ := True
  defines _ := True
  defines_public _ := trivial
  trans := .trans
  keeps _ _ := trivial
  calls _ := trivial
  served h _ _ m _ := h _ m
  answered := fun _ _ _ _ _ _ _ => trivial
  stores_of_answers _ _ := trivial
  stores_object _ _ := trivial
  stores_public _ _ _ := trivial
  still h _ _ := h ▸ .refl _
  used := id
  stored _ _ := .refl _
  annotated _ _ _ := .refl _
  derived _ _ _ := .refl _
  defined _ _ := .refl _

instance : Frame.logging.Lax := ⟨fun _ _ => trivial, fun _ => trivial⟩

instance : Frame.logging.Free where
  sound _ := trivial
  lasting := trivial
  asks _ := trivial
  holds {m m'} h _ _ := (h ▸ .refl _ : m.logging.Used m'.logging)
  served h := h

end Frame

namespace Work
variable {α β : Type} {F : Frame}

/-- Whether work heeds a frame, if all answers to its requests do: where it ends, and where it asks. -/
structure Heeds (F : Frame) (w : Work α) : Prop where
  ends : ∀ {σ}, F.serves σ → ∀ {m}, F.sound m → F.Counts (w σ m).1 → F.holds m (w σ m).2
  relies : ∀ {σ σ'}, F.serves σ → ∀ {m}, F.sound m → F.Agree m σ σ' → w σ' m = w σ m

/-- A frame that asks nothing of lines of control is about whatever work does. -/
theorem Heeds.holds [F.Free] {w : Work α} (h : w.Heeds F) {σ : Service} (hσ : F.serves σ) (m : Machine) :
    F.holds m (w σ m).2 := h.ends hσ (Frame.Free.sound m) (F.counts _)

/-- Work that heeds the frame of logging does no more to its configuration than to use loggers. -/
theorem Heeds.used {w : Work α} (h : w.Heeds .logging) {σ : Service}
    (hσ : ∀ r (m : Machine), m.logging.Used (σ r m).2.logging) (m : Machine) :
    m.logging.Used (w σ m).2.logging := h.holds hσ m

/-- Whether all results of work are as told, if the answers to its requests are as a frame takes for granted. -/
def Tells (F : Frame) (P : α → Prop) (w : Work α) : Prop :=
  ∀ σ, F.serves σ → ∀ m a, (w σ m).1 = .done a → P a

/-! ### Ways to put work together -/

/-- Work that asks for nothing heeds a frame if it does so where it ends. -/
theorem heeds_of_holds {w : Work α} (hasks : ∀ σ σ' m, w σ' m = w σ m) (h : ∀ σ m, F.holds m (w σ m).2) : w.Heeds F where
  ends _ m _ _ := h _ m
  relies _ m _ _ := hasks _ _ m

@[grind ←]
theorem heeds_pure (a : α) : (pure a : Work α).Heeds F := heeds_of_holds (fun _ _ _ => rfl) fun _ m => F.refl m

theorem bind_inspect (f : Machine → α) (k : α → Work β) (σ : Service) (m : Machine) :
    (inspect f >>= k) σ m = k (f m) σ m := rfl

/-- What is done with a result can count on what is told of it. -/
theorem heeds_bind_of {P : α → Prop} {w : Work α} {f : α → Work β} (hw : w.Heeds F) (hP : w.Tells F P)
    (hf : ∀ a, P a → (f a).Heeds F) : (w >>= f).Heeds F where
  ends {σ} hσ {m} hm hcounts := by
    have h := hw.ends hσ hm
    change F.Counts (Work.bind w f σ m).1 at hcounts
    change F.holds m (Work.bind w f σ m).2
    unfold Work.bind at hcounts ⊢
    rcases hr : w σ m with ⟨a | e | _, m'⟩ <;> rw [hr] at h hcounts
    · have hm' := h (F.counts_done a)
      exact F.trans hm' ((hf a (hP σ hσ m a (by rw [hr]))).ends hσ (F.keeps hm' hm) hcounts)
    · exact h (F.counts_raised e)
    · exact h (F.counts_of_spent hcounts)
  relies {σ σ'} hσ {m} hm hagree := by
    have h := hw.ends hσ hm
    rw [bind_eq, bind_eq, hw.relies hσ hm hagree]
    rcases hr : w σ m with ⟨a | e | _, m'⟩
    · rw [hr] at h
      have hm' := h (F.counts_done a)
      exact (hf a (hP σ hσ m a (by rw [hr]))).relies hσ (F.keeps hm' hm) (hagree.mono hm')
    · rfl
    · rfl

@[grind ←]
theorem heeds_bind {w : Work α} {f : α → Work β} (hw : w.Heeds F) (hf : ∀ a, (f a).Heeds F) : (w >>= f).Heeds F :=
  heeds_bind_of (P := fun _ => True) hw (fun _ _ _ _ _ => trivial) fun a _ => hf a

theorem tells_pure {P : α → Prop} {a : α} (h : P a) : (pure a : Work α).Tells F P := by
  rintro _ _ _ _ ⟨⟩
  exact h

/-- What is told of the results of the rest is told of the results of all. -/
theorem tells_bind_of {P : α → Prop} {Q : β → Prop} {w : Work α} {f : α → Work β} (hw : w.Tells F P)
    (hf : ∀ a, P a → (f a).Tells F Q) : (w >>= f).Tells F Q := by
  intro σ hσ m b hb
  rw [bind_eq] at hb
  rcases hr : w σ m with ⟨a | e | _, m'⟩ <;> rw [hr] at hb
  · exact hf a (hw σ hσ m a (by rw [hr])) σ hσ m' b hb
  · cases hb
  · cases hb

theorem tells_bind {Q : β → Prop} {w : Work α} {f : α → Work β} (hf : ∀ a, (f a).Tells F Q) : (w >>= f).Tells F Q :=
  tells_bind_of (P := fun _ => True) (fun _ _ _ _ _ => trivial) fun a _ => hf a

theorem tells_fail {P : α → Prop} (f : Failure) : (fail f : Work α).Tells F P := by
  rintro _ _ _ _ ⟨⟩

/-- What is called gives what is taken for granted. -/
theorem tells_call (callee : Value) (args : List Value) (keywords : Table Value) :
    Tells (α := Value) F F.answers (serve (.call callee args keywords)) := fun _ hσ _ _ hv => F.answered hσ hv

theorem heeds_serve {r : Request} (h : r.resumes = false) : (serve r).Heeds F where
  ends hσ m _ := F.served hσ h m
  relies _ m _ hagree := hagree r m (F.calls h) (F.refl m)

theorem heeds_request [F.Free] (r : Request) : (serve r).Heeds F where
  ends hσ m _ _ := Frame.Free.served hσ r m
  relies _ m _ hagree := hagree r m (Frame.Free.asks r) (F.refl m)

@[grind ←]
theorem heeds_call (callee : Value) (args : List Value) (keywords : Table Value) :
    Heeds (α := Value) F (serve (.call callee args keywords)) := heeds_serve rfl

@[grind ←]
theorem heeds_invoke (method : Method) (args : List Value) : Heeds (α := Value) F (serve (.invoke method args)) :=
  heeds_serve rfl

@[grind ←]
theorem heeds_resume [F.Free] (coroutine : Nat) (error : Option Value) :
    Heeds (α := Pause) F (serve (.resume coroutine error)) := heeds_request _

@[grind ←]
theorem heeds_attach (ware : Nat) (attacher : Value) (options : List Value) :
    Heeds (α := Unit) F (serve (.attach ware attacher options)) := heeds_serve rfl

@[grind ←]
theorem heeds_conclude [F.Free] (coroutine : Nat) : Heeds (α := Value) F (serve (.conclude coroutine)) := heeds_request _

@[grind ←]
theorem heeds_attempt {w : Work α} (hw : w.Heeds F) : (attempt w).Heeds F where
  ends {σ} hσ {m} hm hcounts := by
    have h := hw.ends hσ hm
    unfold attempt at hcounts ⊢
    rcases hr : w σ m with ⟨a | e | _, m'⟩ <;> rw [hr] at h hcounts
    · exact h (F.counts_done a)
    · exact h (F.counts_raised e)
    · exact h (F.counts_of_spent hcounts)
  relies hσ m hm hagree := by
    unfold attempt
    rw [hw.relies hσ hm hagree]

@[grind ←]
theorem heeds_each {f : α → Work β} (hf : ∀ a, (f a).Heeds F) : ∀ as : List α, (each f as).Heeds F
  | [] => heeds_pure []
  | a :: as => heeds_bind (hf a) fun _ => heeds_bind (heeds_each hf as) fun _ => heeds_pure _

@[grind ←]
theorem heeds_eachValue {f : Value → Work β} (hf : ∀ a, (f a).Heeds F) (t : Table Value) : (eachValue f t).Heeds F := by
  unfold eachValue
  grind

/-! ### Looking at the machine, and changes -/

@[grind ←]
theorem heeds_store : store.Heeds F := heeds_of_holds (fun _ _ _ => rfl) fun _ m => F.refl m

@[grind ←]
theorem heeds_machine : machine.Heeds F := heeds_of_holds (fun _ _ _ => rfl) fun _ m => F.refl m

@[grind ←]
theorem heeds_inspect (f : Machine → α) : (inspect f).Heeds F :=
  heeds_of_holds (fun _ _ _ => rfl) fun _ m => F.refl m

@[grind ←]
theorem heeds_query (f : Store → α) : (query f).Heeds F := heeds_inspect _

theorem heeds_modify {f : Machine → Machine} (h : ∀ m, F.holds m (f m)) : (modify f).Heeds F :=
  heeds_of_holds (fun _ _ _ => rfl) fun _ m => h m

@[grind ←]
theorem heeds_modifyStore {f : Store → Store} (h : ∀ s : Store, s.Settled (f s)) : (modifyStore f).Heeds F :=
  heeds_modify fun m => F.settled rfl (h m.store) rfl

/-- A change of the loop by which nothing new is going on. -/
@[grind ←]
theorem heeds_modifyLoop {f : Loop → Loop} (h : ∀ l : Loop, l.Calm (f l)) : (modifyLoop f).Heeds F :=
  heeds_modify fun m => F.still rfl (.refl _) ⟨rfl, rfl, h m.loop, .refl _, rfl⟩

theorem heeds_free [F.Free] {f : Machine → Machine} (h : ∀ m, (f m).logging = m.logging ∧ (f m).store = m.store) :
    (modify f).Heeds F :=
  heeds_modify fun m => Frame.Free.holds (h m).1 (by rw [(h m).2]) (Nat.le_of_eq (by rw [(h m).2]))

@[grind ←]
theorem heeds_changeLoop [F.Free] (f : Loop → Loop) : (modifyLoop f).Heeds F := heeds_free fun _ => ⟨rfl, rfl⟩

@[grind ←]
theorem heeds_make {f : Store → α × Store} (h : ∀ s : Store, s.Settled (f s).2) : (make f).Heeds F :=
  heeds_of_holds (fun _ _ _ => rfl) fun _ m => F.settled rfl (h m.store) rfl

@[grind ←]
theorem heeds_makeInLoop {f : Loop → α × Loop} (h : ∀ l : Loop, l.Calm (f l).2) : (makeInLoop f).Heeds F :=
  heeds_of_holds (fun _ _ _ => rfl) fun _ m => F.still rfl (.refl _) ⟨rfl, rfl, h m.loop, .refl _, rfl⟩

@[grind ←]
theorem heeds_putInLoop [F.Free] (f : Loop → α × Loop) : (makeInLoop f).Heeds F :=
  heeds_of_holds (fun _ _ _ => rfl) fun _ _ => Frame.Free.holds rfl rfl (Nat.le_refl _)

@[grind ←]
theorem heeds_record (event : Datum) : (record event).Heeds F := heeds_modify fun _ => F.beside rfl rfl rfl

@[grind ←]
theorem heeds_exhausted : (exhausted : Work α).Heeds F := heeds_of_holds (fun _ _ _ => rfl) fun _ m => F.refl m

@[grind ←]
theorem heeds_isCallable (v : Value) : (isCallable v).Heeds F := heeds_query _

@[grind ←]
theorem heeds_isOrdinary (e : Value) : (isOrdinary e).Heeds F := by
  unfold isOrdinary
  grind

@[grind ←]
theorem heeds_newList (items : List Value) : (newList items).Heeds F :=
  heeds_make fun s => s.settled_addList items

@[grind ←]
theorem heeds_newDict (t : Table Value) : (newDict t).Heeds F := heeds_make fun s => s.settled_addDict _

@[grind ←]
theorem heeds_newTuple (items : List Value) : (newTuple items).Heeds F :=
  heeds_make fun s => s.settled_addTuple items

@[grind ←]
theorem heeds_newFunction (f : Function) : (newFunction f).Heeds F := heeds_make fun _ => ⟨rfl, Nat.le_refl _, .of_eq rfl⟩

@[grind ←]
theorem heeds_newCoroutine (stage : Stage) : (newCoroutine stage).Heeds F :=
  heeds_of_holds (fun _ _ _ => rfl) fun _ _ => F.still rfl (.refl _) ⟨rfl, rfl, .refl _, .push _ _, rfl⟩

/-! ### Errors -/

@[grind ←]
theorem heeds_reraise (e : Value) : (reraise e : Work α).Heeds F := heeds_of_holds (fun _ _ _ => rfl) fun _ m => F.refl m

@[grind ←]
theorem heeds_raise (e : Value) : (raise e : Work α).Heeds F :=
  heeds_bind (heeds_modify fun m => F.settled rfl (m.store.settled_noteRaised e _) rfl) fun _ => heeds_reraise e

@[grind ←]
theorem heeds_fail (f : Failure) : (fail f : Work α).Heeds F := heeds_bind (heeds_make fun s => s.settled_addFault _ _ _) fun e => heeds_raise e

@[grind ←]
theorem heeds_raiseEngine (kind : EngineKind) (message : String) (context option : Value) :
    (raiseEngine kind message context option : Work α).Heeds F := heeds_bind (heeds_make fun s => s.settled_addFault _ _ _) fun e => heeds_raise e

@[grind ←]
theorem heeds_failLacking (v : Value) (name : String) : (failLacking v name : Work α).Heeds F :=
  heeds_bind (heeds_query _) fun _ => heeds_fail _

@[grind ←]
theorem heeds_failFor (v : Value) (f : String → Failure) : (failFor v f : Work α).Heeds F :=
  heeds_bind (heeds_query _) fun _ => heeds_fail _

@[grind ←]
theorem heeds_look (f : Store → Except Failure α) : (look f).Heeds F where
  ends hσ m hm := by
    unfold look
    split
    · exact fun _ => F.refl m
    · exact (heeds_fail _).ends hσ hm
  relies hσ m hm hagree := by
    unfold look
    split
    · rfl
    · exact (heeds_fail _).relies hσ hm hagree

theorem heeds_perhaps {f : Store → Except Failure (α × Store)}
    (h : ∀ {m : Machine} {a s}, f m.store = .ok (a, s) → F.holds m { m with store := s }) : (perhaps f).Heeds F where
  ends hσ m hm := by
    unfold perhaps
    split
    · exact fun _ => h ‹_›
    · exact (heeds_fail _).ends hσ hm
  relies hσ m hm hagree := by
    unfold perhaps
    split
    · rfl
    · exact (heeds_fail _).relies hσ hm hagree

@[grind ←]
theorem heeds_raiseValue (v : Value) : (raiseValue v : Work α).Heeds F := by
  unfold raiseValue
  grind

@[grind ←]
theorem heeds_release (e : Except Value α) : (release e).Heeds F := by
  cases e with
  | ok a => exact heeds_pure a
  | error e => exact heeds_reraise e

@[grind ←]
theorem heeds_handling (e : Value) {w : Work α} (hw : w.Heeds F) : (handling e w).Heeds F := by
  refine heeds_bind (heeds_modify fun _ => F.beside rfl rfl rfl) fun _ => ?_
  refine heeds_bind (heeds_attempt hw) fun result => ?_
  exact heeds_bind (heeds_modify fun _ => F.beside rfl rfl rfl) fun _ => heeds_release result

@[grind ←]
theorem heeds_isPlainFault (kinds : List PlainKind) (e : Value) : (isPlainFault kinds e).Heeds F := by
  unfold isPlainFault
  grind

@[grind ←]
theorem heeds_orNone (kinds : List PlainKind) {w : Work α} (hw : w.Heeds F) : (orNone kinds w).Heeds F := by
  unfold orNone
  grind

end Work
end Treeworks

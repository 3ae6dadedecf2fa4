import Treeworks.Proofs.Pending.Settling
import Treeworks.Proofs.Span.Apart

/-! What a machine does for its calls: it makes moves, watches awaitables, runs handles and opens steps as it is noted for
lines of control. -/
namespace Treeworks
namespace Strands
variable {base : Nat → List Nat} {s : Strands} {τ : History} {σ : Service} {a : Activation} {rest : List Activation}
  {t c : Nat}

/-- A new task is an outside step. -/
theorem outside_newTask (hcell : s.machine.cell < s.machine.cells.size) (coroutine : Nat) : s.Outside { s.machine with
    cells := s.machine.cells.push s.machine.scope
    loop := (s.machine.loop.newTask coroutine s.machine.cells.size).2 } where
  runner := ⟨_, _, rfl⟩
  cell := rfl
  cells := by simp
  others k hk _ := by rw [Sound.scopeAt_push, if_neg (Nat.ne_of_lt hk)]
  scope := by
    refine .inr (.inr ?_)
    show Machine.scopeAt _ s.machine.cell = _
    rw [Sound.scopeAt_push, if_neg (Nat.ne_of_lt hcell)]
    rfl
  spanIds := Nat.le_refl _
  tokens := Nat.le_refl _
  held _ _ := rfl
  handles _ hh := Loop.holds_newTask hh

/-- A new coroutine is an outside step. -/
theorem outside_newCoroutine (s : Strands) (x : Coroutine) :
    s.Outside { s.machine with coroutines := s.machine.coroutines.push x } where
  runner := ⟨_, _, rfl⟩
  cell := rfl
  cells := Nat.le_refl _
  others _ _ _ := rfl
  scope := .inr (.inr rfl)
  spanIds := Nat.le_refl _
  tokens := Nat.le_refl _
  held _ _ := rfl
  handles _ hh := .inl hh

/-- What another has in common that differs in its machine and in what cells are for. -/
structure Alike (s s' : Strands) : Prop where
  owner : s'.owner = s.owner
  calls : s'.calls = s.calls
  spans : s'.spans = s.spans
  within : s'.within = s.within
  turn : s'.turn = s.turn

/-- A task for a coroutine that a step has given: it belongs to the call of the step, if there is one. -/
theorem newTask_kept (coroutine : Nat) (hs : s.runner.stack = a :: rest) (ha : a.wait = .settling t)
    (hwithin : s.owner a.run ≠ none → s.within = none) (hkept : Kept base s τ) : ∃ s₁, Kept base s₁ τ ∧ s.Alike s₁ ∧
      s₁.machine = { s.machine with
        cells := s.machine.cells.push s.machine.scope
        loop := (s.machine.loop.newTask coroutine s.machine.cells.size).2 } := by
  cases ho : s.owner a.run with
  | none =>
    have hmade := hkept.step (.outside (outside_newTask (sound_of_kept hkept).cell coroutine))
    exact ⟨_, hmade, ⟨rfl, rfl, rfl, rfl, rfl⟩, rfl⟩
  | some c =>
    have hnone : s.within = none := hwithin (by rw [ho]; exact Option.some_ne_none c)
    exact ⟨_, hkept.step (.spawn coroutine hs ha ho hnone), ⟨rfl, rfl, rfl, rfl, rfl⟩, rfl⟩

/-- The future of something awaitable that a step has given. -/
theorem futureOf_kept (v : Value) (hs : s.runner.stack = a :: rest) (ha : a.wait = .settling t)
    (hwithin : s.owner a.run ≠ none → s.within = none) (hkept : Kept base s τ) : ∃ f s₁, Kept base s₁ τ ∧ s.Alike s₁ ∧
      s₁.machine.store = s.machine.store ∧ Work.futureOf v σ s.machine = (.done f, s₁.machine) := by
  have hwrapped (x : Coroutine) : ∃ s₁, Kept base s₁ τ ∧ s.Alike s₁ ∧ s₁.machine.store = s.machine.store ∧
      s₁.machine = { s.machine with
        coroutines := s.machine.coroutines.push x
        cells := s.machine.cells.push s.machine.scope
        loop := (s.machine.loop.newTask s.machine.coroutines.size s.machine.cells.size).2 } := by
    let s₀ : Strands := { s with machine := { s.machine with coroutines := s.machine.coroutines.push x } }
    have hmade : Kept base s₀ τ := hkept.step (.outside (s.outside_newCoroutine x))
    obtain ⟨s₁, hkept₁, ⟨howner, hcalls, hspans, hopen, hturn⟩, hmachine⟩ :=
      newTask_kept (s := s₀) s.machine.coroutines.size hs ha hwithin hmade
    exact ⟨s₁, hkept₁, ⟨howner, hcalls, hspans, hopen, hturn⟩, by rw [hmachine], hmachine⟩
  cases v with
  | future i => exact ⟨i, s, hkept, ⟨rfl, rfl, rfl, rfl, rfl⟩, rfl, rfl⟩
  | coroutine i =>
    obtain ⟨s₁, hkept₁, halike, hmachine⟩ := newTask_kept i hs ha hwithin hkept
    exact ⟨_, s₁, hkept₁, halike, by rw [hmachine], by rw [hmachine]; rfl⟩
  | _ =>
    obtain ⟨s₁, hkept₁, halike, hstore, hmachine⟩ := hwrapped ⟨_, .fresh, none⟩
    exact ⟨_, s₁, hkept₁, halike, hstore, by rw [hmachine]; rfl⟩

/-- In a running loop the future of an awaitable that a step has given is watched. -/
theorem settle_await (v : Value) (hrunning : s.machine.loop.running = true) (hs : s.runner.stack = a :: rest)
    (ha : a.wait = .settling t) (hwithin : s.owner a.run ≠ none → s.within = none) (hkept : Kept base s τ) :
    ∃ f s₁, s.Alike s₁ ∧ Kept base (s₁.await a t f) (τ ++ s.runner.deeds (.watching f)) ∧
      Work.settle v σ s.machine = (.done (none, (s.runner.react (.watching f)).2.2), (s₁.await a t f).machine) := by
  obtain ⟨f, s₁, hkept₁, halike, hstore, hfuture⟩ := futureOf_kept (σ := σ) v hs ha hwithin hkept
  have hrunner : s₁.runner = s.runner := congrArg Store.runner hstore
  have hs₁ : s₁.runner.stack = a :: rest := hrunner ▸ hs
  have hwithin₁ : s₁.owner a.run ≠ none → s₁.within = none := by
    rw [halike.owner, halike.within]
    exact hwithin
  have hticket : Work.settlingTicket s₁.runner = t := by
    obtain ⟨i, drives, wait⟩ := a
    obtain rfl : wait = .settling t := ha
    rw [Work.settlingTicket, hs₁]
  refine ⟨f, s₁, halike, hrunner ▸ hkept₁.step (.await f hs₁ ha hwithin₁), ?_⟩
  let m : Machine := { s₁.machine with
    cells := s₁.machine.cells.push s₁.machine.scope
    loop := s₁.machine.loop.watch f ⟨.settled t f, s₁.machine.cells.size⟩ }
  have hsettle : Work.settle v σ s.machine = (Work.react (.watching f) >>= fun d => pure (none, d) : Work _) σ m := by
    rw [Work.settle_eq v hrunning, Work.bind_done hfuture]
    simp only [m, ← hticket]
    rfl
  rw [hsettle, Work.bind_done (Work.react_watching f), ← hrunner]
  rfl

/-- The handle that is first in the queue is run in its cell. -/
theorem runReady_enter {h : Handle} {queue : List Handle} (n : Nat) (hturn : s.turn = none) (hwithin : s.within = none)
    (hquiet : s.Quiet) (hready : s.machine.loop.ready = h :: queue) (hcell : h.cell < s.machine.cells.size)
    (hkept : Kept base s τ) : Kept base (s.enter h queue) τ ∧ Work.runReady (n + 1) σ s.machine = (do
      let result ← Work.attempt (Work.runCallback h.callback)
      Work.modify fun m => { m with cell := s.machine.cell }
      let _ ← (match result with
        | .ok _ => return ()
        | .error e => Work.reportUnhandled .null e)
      Work.runReady n : Work Unit) σ (s.enter h queue).machine :=
  ⟨hkept.step (.enter hturn hwithin hquiet hready hcell), Work.runReady_eq n hready⟩

/-- A call begins with its step, whose right is that of the call. -/
theorem openStep_process {processor path start level : Value} {parsed : Bool} {step : OpenStep} {m : Machine}
    (hσ : Frame.contexts.serves σ) (hfree : s.current = .free) (hwithin : s.within = none) (hc : s.calls c = none)
    (hprocessor : processor ≠ .null) (hkept : Kept base s τ)
    (hopen : Work.openStep (.str "pipeline.process") start level (Strand.values processor path parsed) σ s.machine =
      (.done step, m)) :
    Kept base (s.process c processor path parsed) τ ∧ (s.process c processor path parsed).machine.Kept m ∧
      ∃ x, (s.process c processor path parsed).Open c x ∧ step.token = x.token := by
  have hopened := Work.begun_openStep hσ hopen
  refine ⟨hkept.step (.process c processor path parsed hfree hwithin hc hprocessor), hopened.2, ?_⟩
  exact ⟨_, ⟨Function.update_self _ _ _, Function.update_self _ _ _⟩, hopened.1⟩

end Strands
end Treeworks

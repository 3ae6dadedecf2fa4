import Treeworks.Proofs.Frame.Discipline
import Treeworks.Proofs.Pending.Vigil
import Treeworks.Schedule

/-! What a machine does with awaitables and settle callbacks: in a running loop an awaitable is settled by watching a
future, and a settle callback that is taken from the queue discards its future before it does anything else. -/
namespace Treeworks

/-- The runner and the loop of a machine. -/
def Machine.vigil (m : Machine) (awaited dropped : Multiset (Nat × Nat)) : Vigil := ⟨m.store.runner, m.loop, awaited, dropped⟩

namespace Work
variable {σ : Service} {m : Machine} {base : Nat → List Nat} {τ : History} {awaited dropped : Multiset (Nat × Nat)}

/-- The future of something awaitable is its own or that of a new task. -/
theorem futureOf_goes (σ : Service) (v : Value) (hv : ∀ i, v = .future i → i < m.loop.futures.size)
    (hkept : Vigil.Kept base (m.vigil awaited dropped) τ) : ∃ f m', futureOf v σ m = (.done f, m') ∧
      m'.store = m.store ∧ f < m'.loop.futures.size ∧ Vigil.Kept base (m'.vigil awaited dropped) τ := by
  have htask (i cell : Nat) : Vigil.Kept base ⟨m.store.runner, (m.loop.newTask i cell).2, awaited, dropped⟩ τ :=
    hkept.step (.loop (.newTask i cell))
  have hlt (i cell : Nat) : (m.loop.newTask i cell).1 < (m.loop.newTask i cell).2.futures.size := by
    simp [Loop.newTask, Loop.schedule]
  cases v with
  | future i => exact ⟨i, m, rfl, rfl, hv i rfl, hkept⟩
  | _ => exact ⟨_, _, rfl, rfl, hlt _ _, htask _ _⟩

/-- What settling an awaitable comes to in a running loop. -/
theorem settle_eq (v : Value) (hrunning : m.loop.running = true) : settle v σ m = (do
    let future ← futureOf v
    let ticket ← query fun s => settlingTicket s.runner
    let cell ← newCell
    modifyLoop fun l => l.watch future ⟨.settled ticket future, cell⟩
    return (none, ← react (.watching future)) : Work (Option Value × Directive)) σ m := by
  unfold settle
  have hlook : inspect (·.loop.running) σ m = (.done true, m) := by rw [← hrunning]; rfl
  rw [bind_done hlook, if_pos rfl]

/-- Nothing is noted when a future is watched. -/
theorem react_watching (future : Nat) : react (.watching future) σ m =
    (.done (m.store.runner.react (.watching future)).2.2,
      { m with store := { m.store with runner := (m.store.runner.react (.watching future)).1 } }) := by
  have hnotes : (m.store.runner.react (.watching future)).2.1 = [] := by
    simp only [Runner.react]
    split <;> rfl
  rw [react_eq, hnotes]
  rfl

/-- In a running loop a step's awaitable is watched, and its ware waits for it from now on. -/
theorem settle_kept {a : Activation} {rest : List Activation} {t : Nat} (v : Value) (hrunning : m.loop.running = true)
    (hs : m.store.runner.stack = a :: rest) (ha : a.wait = .settling t)
    (hv : ∀ i, v = .future i → i < m.loop.futures.size) (hkept : Vigil.Kept base (m.vigil awaited dropped) τ) :
    ∃ f d m', settle v σ m = (.done (none, d), m') ∧
      Vigil.Kept base (m'.vigil ((t, f) ::ₘ awaited) dropped) (τ ++ m.store.runner.deeds (.watching f)) := by
  obtain ⟨f, m₁, hfuture, hstore, hf, hkept⟩ := futureOf_goes σ v hv hkept
  rw [← hstore] at hs
  have hticket : settlingTicket m₁.store.runner = t := by
    obtain ⟨i, drives, wait⟩ := a
    obtain rfl : wait = .settling t := ha
    rw [settlingTicket, hs]
  let m₂ : Machine := { m₁ with
    cells := m₁.cells.push m₁.scope
    loop := m₁.loop.watch f ⟨.settled t f, m₁.cells.size⟩ }
  have hsettle : settle v σ m = (react (.watching f) >>= fun d => pure (none, d) : Work _) σ m₂ := by
    rw [settle_eq v hrunning, bind_done hfuture]
    simp only [m₂, ← hticket]
    rfl
  rw [hsettle, bind_done (react_watching f), ← hstore]
  exact ⟨f, _, _, rfl, hkept.step (.await m₁.cells.size hs ha hf)⟩

/-- The handle that is first in the queue is run in its cell, and then the others. -/
theorem runReady_eq {h : Handle} {rest : List Handle} (n : Nat) (hready : m.loop.ready = h :: rest) :
    runReady (n + 1) σ m = (do
      let result ← attempt (runCallback h.callback)
      modify fun m₁ => { m₁ with cell := m.cell }
      let _ ← (match result with
        | .ok _ => return ()
        | .error e => reportUnhandled .null e)
      runReady n : Work Unit) σ { m with cell := h.cell, loop := { m.loop with ready := rest } } := by
  have htaken : runReady (n + 1) σ m = (runHandle h >>= fun _ => runReady n : Work Unit) σ
      { m with loop := { m.loop with ready := rest } } := by
    have hlook : inspect (·.loop.ready) σ m = (.done (h :: rest), m) := by rw [← hready]; rfl
    rw [runReady, bind_done hlook]
    rfl
  have hcell : inCell h.cell (runCallback h.callback) σ { m with loop := { m.loop with ready := rest } } =
      (attempt (runCallback h.callback) >>= fun result => modify (fun m₁ => { m₁ with cell := m.cell }) >>= fun _ =>
        pure result : Work _) σ { m with cell := h.cell, loop := { m.loop with ready := rest } } := rfl
  rw [htaken, runHandle, bind_eq, bind_eq, hcell, bind_eq, bind_eq]
  rcases attempt (runCallback h.callback) σ { m with cell := h.cell, loop := { m.loop with ready := rest } } with
    ⟨(_ | e) | e | _, m₁⟩
  · rfl
  · rfl
  · rfl
  · rfl

/-- When a settle callback is taken from the queue, its ware stops waiting for the future, which has ended. Only after
that is the run told, so whatever it does then, or its callback raises, changes nothing about that. -/
theorem runReady_kept {t f cell n : Nat} {rest : List Handle} (hready : m.loop.ready = ⟨.settled t f, cell⟩ :: rest)
    (hkept : Vigil.Kept base (m.vigil awaited dropped) τ) : ∃ m', Vigil.Kept base (m'.vigil (awaited.erase (t, f)) dropped) τ ∧
      m'.loop.isDone f = true ∧ runReady (n + 1) σ m = (do
        let result ← attempt (tellSettled t f)
        modify fun m₂ => { m₂ with cell := m.cell }
        let _ ← (match result with
          | .ok _ => return ()
          | .error e => reportUnhandled .null e)
        runReady n : Work Unit) σ m' := by
  let m' : Machine := { m with
    cell := cell
    loop := { m.loop with ready := rest }
    store := { m.store with runner := m.store.runner.discard t f } }
  refine ⟨m', hkept.step (.tell hready), (Vigil.sound_of_kept hkept).isDone_of_ready hready, ?_⟩
  rw [runReady_eq n hready]
  rfl

end Work
end Treeworks

import Treeworks.Proofs.Run.Order
import Treeworks.Proofs.Log.Recording
import Treeworks.Proofs.Report.Recorded

/-! Failures inside of the steps of a run. What fails is the last message of its file, and it is what the completion
callback of the run is called with; no step of the run is invoked after it. -/
namespace Treeworks

namespace Runner
variable {r : Runner} {t i : Nat} {drives : Bool} {rest : List Activation}

/-- An error that a step lets through before it has completed is noted and reported. -/
theorem react_raised (hstack : r.stack = ⟨i, drives, .step t⟩ :: rest) (hcalled : (r.ticket t).called = false) (e : Value) :
    (r.react (.raised e true)).2 = ([.stepFailed (r.stepOf t).name e], .call (r.run (r.ticket t).run).done [e]) ∧
      r.deeds (.raised e true) =
        [.completed t (some e), .reported (r.ticket t).run (r.run (r.ticket t).run).done [e]] := by
  let top : Runner := { r with stack := rest }
  have hticket : top.ticket t = r.ticket t := rfl
  have hreact : r.react (.raised e true) =
      ((top.mark t).push ⟨(r.ticket t).run, true, .failed⟩, [.stepFailed ((top.mark t).stepOf t).name e],
        .call (r.run (r.ticket t).run).done [e]) := by
    unfold react
    dsimp only
    rw [hstack]
    unfold raised failStep complete
    dsimp only
    rw [hticket, hcalled]
    rfl
  have hstep : (top.mark t).stepOf t = r.stepOf t := by
    unfold stepOf
    rw [ticket_mark_step]
    rfl
  refine ⟨by rw [hreact, hstep], ?_⟩
  unfold deeds signals demands lets
  rw [hreact, hstack]
  rfl

end Runner

namespace Work
variable {σ : Service} {m : Machine} {f t i : Nat} {drives : Bool} {rest : List Activation} {made : List Remark} {r : Remark}

/-- What a runner does and what is being handled is nothing to the diagnostics of a file. -/
theorem spares_runner (m : Machine) (f : Nat) (runner : Runner) (handling : List Value) :
    m.Spares f { m with store := { m.store with runner := runner }, handling := handling } where
  file := rfl
  files := Nat.le_refl _
  messages _ _ hl := ⟨hl, rfl⟩
  faults := Nat.le_refl _
  core _ _ := rfl
  tame h := ⟨h.plain, h.lists⟩

/-- A step that lets a message through has failed: that is logged, and the callback of its run is due to be called with
the message. -/
theorem answer_raised (h : m.Bears f (made ++ [r])) (hm : m.Tame)
    (hstack : m.store.runner.stack = ⟨i, drives, .step t⟩ :: rest)
    (hcalled : (m.store.runner.ticket t).called = false) (hname : (m.store.runner.stepOf t).name.isScalar = true) : ∃ m',
    answer (.error r.value) σ m =
      (.done (.call (m.store.runner.run (m.store.runner.ticket t).run).done [r.value]), m') ∧
      m'.Bears f (made ++ [r]) ∧ m'.store.runner = (m.store.runner.react (.raised r.value true)).1 := by
  have hr : m.Holds r := h.holds r (List.mem_append_right _ (.head _))
  obtain ⟨hreact, -⟩ := Runner.react_raised hstack hcalled r.value
  let after : Runner := (m.store.runner.react (.raised r.value true)).1
  let m₁ : Machine := { m with handling := r.value :: m.handling }
  let m₂ : Machine := { m₁ with store := { m.store with runner := after } }
  have hspares : m.Spares f m₂ := spares_runner m f after _
  -- A message is an ordinary error, so that the run is told of it.
  have hordinary : (isOrdinary r.value).Gives m₁ true m₁ := by
    have hdetail : (m.store.fault r.index).detail = .diagnostic r.diagnostic := congrArg Prod.fst hr.core
    refine (gives_store m₁).bind fun σ => ?_
    unfold Remark.value Fault.isOrdinary
    dsimp only
    rw [hdetail]
    rfl
  have hfields : ∀ e ∈ [("step", (m.store.runner.stepOf t).name), ("error_type", .str (m₂.store.typeName r.value))],
      Fits e := by
    intro e he
    simp only [List.mem_cons, List.not_mem_nil, or_false] at he
    rcases he with rfl | rfl
    · exact ⟨hname, by simp [unusualNames]⟩
    · exact ⟨rfl, by simp [unusualNames]⟩
  have hmethod : LogMethod.debug ≠ .exception := by decide
  obtain ⟨_, m₃, hlogged, hnoted⟩ :=
    notes_log (σ := σ) (hspares.tame hm) hmethod hfields "unified.framework.ware" "ware.step.error"
  have hmoved : react (.raised r.value true) σ m₁ =
      (.done (.call (m.store.runner.run (m.store.runner.ticket t).run).done [r.value]), m₃) := by
    rw [react_eq, hreact]
    have hlogged : logNote (.stepFailed (m.store.runner.stepOf t).name r.value) σ m₂ = (.done (), m₃) := by
      unfold logNote
      dsimp only
      rw [(gives_store m₂).bind_eq]
      exact hlogged
    have hnotes : each logNote [.stepFailed (m.store.runner.stepOf t).name r.value] σ m₂ = (.done [()], m₃) := by
      exact bind_done hlogged _
    exact bind_done hnotes _
  refine ⟨{ m₃ with handling := m₃.handling.tail }, ?_, ?_, ?_⟩
  · have hanswered : (do react (.raised r.value (← isOrdinary r.value)) : Work Directive) σ m₁ = _ :=
      (hordinary.bind_eq _ σ).trans hmoved
    exact handling_eq hanswered (by simp)
  · have hback : m₃.Spares f { m₃ with handling := m₃.handling.tail } := spares_runner m₃ f m₃.store.runner _
    exact h.spares (hspares.trans ((Machine.Spares.of_noted hnoted).trans hback))
  · exact congrArg Store.runner hnoted.store

/-- What is reported against a file is recorded faithfully, over any history of reports, of moves and of being made quiet or
loud. Each call ends, and makes what it says: the messages of the file are those that were warned of and those that failed, in
order; what fails is recorded and is raised, as that very message, if and only if the file is loud then; the file has failed
if and only if something failed; and each message says the path that its file had when it was made, its position and its
reason. When such a failure ends a step of a run that has not completed, the callback of the run is called with the message
that was recorded last, and no step of the run is invoked any more. -/
theorem reports_recorded_faithfully {m m' : Machine} {f : Nat} {os : List Occasion} (h : m.Bears f []) (hm : m.Tame)
    (hasked : Asked f m os m') : ∃ rs,
    List.Forall₂ (Occasion.Makes · f) os rs ∧ m'.Bears f rs.reduceOption ∧
      (hasFailed f).Gives m' (os.any (·.call.fails)) m' ∧ (∀ r ∈ rs.reduceOption, (printed r.value).Gives m' r.text m') ∧
      ∀ {base : Nat → List Nat} {τ : History} {i w t : Nat} {inputs args : List Value} {done reason position : Value}
        {drives : Bool} {rest : List Activation} {x : Reading} {σ σ' : Service} {m₀ : Machine} {step : Step}
        {context handled : Option Value},
        Reached base m'.store.runner τ → .started i w inputs done ∈ τ →
        m'.store.runner.stack = ⟨i, drives, .step t⟩ :: rest → (m'.store.runner.ticket t).called = false →
        (m'.store.runner.stepOf t).name.isScalar = true → m'.isLoud f = true → Readable σ' f m' reason position x →
        serve (.call step.callee args (context.map fun v => ("processor", v)).toList) σ m₀ =
          report .fail f reason position σ' m' →
        ∃ n m₁, m₁.Bears f (rs.reduceOption ++ [x.remark .fail n reason (m'.store.file f).path]) ∧
          (∀ fuel, follow (fuel + 2) handled (.invoke step args context) σ m₀ = (do
            let result ← attempt (handling (.fault n) (serve (.call done [.fault n] [])))
            follow fuel none (← answer result)) σ m₁) ∧
          Reached base m₁.store.runner (τ ++ [.completed t (some (.fault n)), .reported i done [.fault n]]) ∧
          ∀ r β, Reached base r (τ ++ [.completed t (some (.fault n)), .reported i done [.fault n]] ++ β) →
            β.invocations i = [] := by
  obtain ⟨rs, hrs, hbears, htame⟩ := hasked.makes h hm
  rw [List.nil_append] at hbears
  refine ⟨rs, hrs, hbears, any_fatal_of_makes hrs ▸ gives_hasFailed hbears,
    fun r hr => gives_printed (hbears.holds r hr), ?_⟩
  intro base τ i w t inputs args done reason position drives rest x σ σ' m₀ step context handled hreached hstarted hstack
    hcalled hname hloud hread hbody
  obtain ⟨n, m₂, hend, hfile, hrunner, htame₂, hbears₂⟩ := report_ends hbears htame hread .fail
  rw [hloud] at hend
  rw [← hrunner] at hreached hstack hcalled hname
  let r : Remark := x.remark .fail n reason (m'.store.file f).path
  obtain ⟨m₁, hanswer, hbears₁, hreact⟩ := answer_raised (σ := σ) hbears₂ htame₂ hstack hcalled hname
  -- The ticket that is open belongs to the run on top, and its callback is the one that the run began with.
  have hconsistent := Runner.consistent_of_reached hreached
  obtain ⟨-, hrun⟩ : t < m₂.store.runner.tickets.size ∧ (m₂.store.runner.ticket t).run = i :=
    hconsistent.waits _ (hstack ▸ List.mem_cons_self) t (.inl rfl)
  obtain ⟨-, -, -, hdone⟩ := (hconsistent.started i w inputs done).mp hstarted
  obtain ⟨-, hdeeds⟩ := Runner.react_raised hstack hcalled r.value
  rw [hrun, hdone] at hanswer hdeeds
  have hadmits : m₂.store.runner.Admits (τ.registry base) (.raised r.value true) :=
    .raised true hstack (by simp) (by simp [Remark.value])
  have hafter : Reached base m₁.store.runner (τ ++ [.completed t (some r.value), .reported i done [r.value]]) := by
    rw [hreact, ← hdeeds]
    exact hreached.move hadmits
  refine ⟨n, m₁, hbears₁, fun fuel => ?_, hafter, fun r' β hlater => ?_⟩
  · have hcall : (attempt (serve (.call step.callee args (context.map fun v => ("processor", v)).toList)) : Work _) σ m₀ =
        (.done (.error r.value), m₂) := by
      unfold attempt
      rw [hbody, hend]
      rfl
    have hnext : follow (fuel + 2) handled (.invoke step args context) σ m₀ =
        follow (fuel + 1) (some r.value) (.call done [r.value]) σ m₁ := by
      rw [follow]
      exact (bind_done hcall _).trans (bind_done hanswer _)
    exact hnext
  · have hsplit : τ ++ [.completed t (some (.fault n)), .reported i done [.fault n]] ++ β =
        τ ++ [.completed t (some (.fault n))] ++ .reported i done [.fault n] :: β := by simp
    exact History.invocations_eq_nil_of_lawful (Runner.consistent_of_reached hlater).lawful hsplit

end Work

/-- A run over a file is inside of its first step. -/
def checking : Runner × History :=
  let ware : Ware := .new .null (.list 1) none
  let check : Step := ⟨.function 0, .str "check", some 2, some 2, false, []⟩
  let later : Step := ⟨.function 1, .str "later", some 2, some 2, false, []⟩
  let r : Runner := ⟨#[ware], #[check, later], #[], #[], []⟩
  r.play [] [.start 0 [.null, .file 0] (.function 2), .found (some 0)]

/-- A machine with an error, a place, and a file that the first step of a run reports a failure against. -/
def Machine.checked : Machine :=
  { (default : Machine) with
    store := { (default : Store) with
      lists := #[#[], #[.step 0, .step 1]]
      dicts := #[[], [(.str "line", .int 3), (.str "column", .int 2)]]
      tuples := #[[], [.str "odd"]]
      faults := #[.new (.plain .value) (.tuple 1) .null]
      files := #[⟨.str "", .str "a", .null, .str "md", .bool false, .list 0, .dict 0, []⟩]
      functions := #[.script "check" (.ofTokens ["tree", "file"]) .plain false true
        [.report .fail "file" (.str "bad") .null none]]
      runner := checking.1 } }

namespace Work

/-- The error is warned of at the place. -/
def warned : Occasion := ⟨service 3, .checked, .report .warn (.fault 0) (.dict 1)⟩

/-- The file is renamed after that. -/
def renamed : Occasion := ⟨service 3, warned.after 0, .move (.str "b") .null .null⟩

/-- An error is warned of, then the file is renamed, and then a step of a run fails: both messages are recorded, each with the
path of its time, and the callback of the run is called with the second one. -/
theorem reports_recorded_faithfully_checked : ∃ i n m₁ x y,
    m₁.Bears 0 [Reading.remark x .warn i (.fault 0) "a.md", Reading.remark y .fail n (.str "bad") "b.md"] ∧
      (∀ fuel, follow (fuel + 2) none (.invoke (checking.1.step 0) [.null, .file 0] none) (service 5) (renamed.after 0) = (do
        let result ← attempt (handling (.fault n) (serve (.call (.function 2) [.fault n] [])))
        follow fuel none (← answer result)) (service 5) m₁) := by
  have hbears : Machine.checked.Bears 0 [] := {
    lt := by decide
    typed := ⟨rfl, rfl, rfl, rfl, rfl⟩
    messages := ⟨0, rfl, by decide, rfl⟩
    holds := by simp
    ascending := .nil }
  have hplain : Machine.checked.scope.fields.Plain := by
    unfold LogContext.Plain
    decide
  have htame : Machine.checked.Tame := ⟨hplain, fun logger c hc => by cases hc⟩
  have hwarned : warned.Fits 0 := by
    have hplace : Plain Machine.checked.store (.dict 1) (.point ⟨.int 3, .int 2⟩) :=
      @Plain.place Machine.checked.store (.dict 1) (Machine.checked.store.dict 1) rfl rfl rfl
    have hsaid : (saidOf (.fault 0)).Gives .checked (.str "odd") .checked := fun _ => rfl
    obtain ⟨x, hx⟩ := readable_of_plain (f := 0) hsaid rfl hplace (by decide) (by decide)
    exact ⟨x, hx _⟩
  have hasked : Asked 0 .checked [warned, renamed] (renamed.after 0) :=
    .call hwarned (.call (o := renamed) ⟨rfl, rfl, rfl⟩ (.nothing _))
  obtain ⟨rs, hrs, -, -, -, hfailing⟩ := reports_recorded_faithfully hbears htame hasked
  have hsaid : (saidOf (.str "bad")).Gives (renamed.after 0) (.str "bad") (renamed.after 0) := gives_pure _ _
  obtain ⟨y, hy⟩ := readable_of_plain (f := 0) hsaid rfl .nowhere (by decide) (by decide)
  have hreached : Reached (fun _ => [0, 1]) (renamed.after 0).store.runner checking.2 :=
    (Reached.begin rfl rfl rfl).play (by decide +kernel)
  have hbody : serve (.call (checking.1.step 0).callee [.null, .file 0] []) (service 5) (renamed.after 0) =
      report .fail 0 (.str "bad") .null (service 4) (renamed.after 0) := rfl
  obtain ⟨n, m₁, hends, hfollow, -⟩ :=
    @hfailing _ _ _ _ _ _ _ _ _ _ _ _ _ _ _ _ _ none none hreached (.head _) rfl rfl rfl rfl (hy (service 4)) hbody
  cases hrs with
  | cons hfirst hrest =>
    cases hrest with
    | cons hsecond hnone =>
      cases hnone
      cases hsecond with
      | reported hcall => cases hcall
      | quieted hcall => cases hcall
      | moved =>
        cases hfirst with
        | moved hcall => cases hcall
        | quieted hcall => cases hcall
        | @reported _ _ _ x i hcall =>
          cases hcall
          exact ⟨i, n, m₁, x, y, hends, hfollow⟩

end Work
end Treeworks

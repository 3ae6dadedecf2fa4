import Treeworks.Proofs.Report.Reading

/-! Positions of finite nesting. Their name and their start are told by two recursions, which test the kinds of positions
in different orders. Both come to an end, and the name begins with the point where the position starts. -/
namespace Treeworks

/-- What a position of finite nesting comes down to: nothing, a point, something that carries a position, a range whose
end does not count, a range between two positions, or something that cannot be told, with the error that says so. -/
inductive Layout
  | nowhere
  | point (p : Point)
  | carried (inner : Layout)
  | opening (start : Layout)
  | range (start stop : Layout)
  | untold (e : Value)

namespace Layout

/-- How deep a position is nested. -/
def depth : Layout → Nat
  | nowhere | point _ | untold _ => 1
  | carried inner => inner.depth + 1
  | opening start => start.depth + 1
  | range start stop => max start.depth stop.depth + 1

/-- The point where a position starts. -/
def start : Layout → Except Value Point
  | nowhere => .ok ⟨.null, .null⟩
  | point p => .ok p
  | carried inner => inner.start
  | opening first | range first _ => first.start
  | untold e => .error e

/-- The points whose texts stand in the name of a position, in order. -/
def points : Layout → List Point
  | nowhere => [⟨.null, .null⟩]
  | point p => [p]
  | carried inner => inner.points
  | opening start => start.points ++ start.points
  | range start stop => start.points ++ stop.points
  | untold _ => []

/-- The name of a position whose points have some texts; none where a point has none. -/
def name (text : Point → Except Value String) : Layout → Except Value String
  | nowhere => text ⟨.null, .null⟩
  | point p => text p
  | carried inner => inner.name text
  | opening start => do
    let first ← start.name text
    return first ++ "-" ++ first
  | range start stop => do
    let first ← start.name text
    let last ← stop.name text
    return first ++ "-" ++ last
  | untold e => .error e

theorem depth_pos (l : Layout) : 0 < l.depth := by
  cases l <;> simp [depth]

theorem exists_succ {l : Layout} {fuel : Nat} (h : l.depth ≤ fuel) : ∃ n, fuel = n + 1 :=
  Nat.exists_eq_add_of_le' (Nat.le_trans l.depth_pos h)

/-- A name is made of the texts of the points, with a hyphen between each two of them. -/
inductive Joined (text : Point → Except Value String) : List Point → String → Prop
  | one {p : Point} {t : String} (h : text p = .ok t) : Joined text [p] t
  | more {p : Point} {t rest : String} {ps : List Point} (h : text p = .ok t) (hrest : Joined text ps rest) :
      Joined text (p :: ps) (t ++ "-" ++ rest)

variable {text : Point → Except Value String}

theorem Joined.append {ps qs : List Point} {s t : String} (hs : Joined text ps s) (ht : Joined text qs t) :
    Joined text (ps ++ qs) (s ++ "-" ++ t) := by
  induction hs with
  | one h => exact .more h ht
  | @more p u rest ps h _ ih =>
    have hjoined : u ++ "-" ++ (rest ++ "-" ++ t) = u ++ "-" ++ rest ++ "-" ++ t := by
      simp only [String.append_assoc]
    exact hjoined ▸ .more h ih

/-- The name of a position is made of the texts of its points. -/
theorem joined_of_name {l : Layout} {n : String} (h : l.name text = .ok n) : Joined text l.points n := by
  induction l generalizing n with
  | nowhere => exact .one h
  | point p => exact .one h
  | carried inner ih => exact ih h
  | opening start ih =>
    obtain ⟨first, hfirst, hn⟩ := Except.bind_eq_ok h
    cases hn
    exact (ih hfirst).append (ih hfirst)
  | range start stop ihStart ihStop =>
    obtain ⟨first, hfirst, hrest⟩ := Except.bind_eq_ok h
    obtain ⟨last, hlast, hn⟩ := Except.bind_eq_ok hrest
    cases hn
    exact (ihStart hfirst).append (ihStop hlast)
  | untold e => cases h

/-- The first of the points of a position is the one where it starts. -/
theorem head_points {l : Layout} {p : Point} (h : l.start = .ok p) : l.points.head? = some p := by
  induction l with
  | nowhere => cases h; rfl
  | point q => cases h; rfl
  | carried inner ih => exact ih h
  | opening start ih =>
    unfold points
    rw [List.head?_append, ih h, Option.some_or]
  | range start stop ih _ =>
    unfold points
    rw [List.head?_append, ih h, Option.some_or]
  | untold e => cases h

/-- Where a position has a name, it has a start. -/
theorem start_of_name {l : Layout} {n : String} (h : l.name text = .ok n) : ∃ p, l.start = .ok p := by
  induction l generalizing n with
  | nowhere => exact ⟨_, rfl⟩
  | point p => exact ⟨p, rfl⟩
  | carried inner ih => exact ih h
  | opening start ih =>
    obtain ⟨first, hfirst, -⟩ := Except.bind_eq_ok h
    exact ih hfirst
  | range start stop ih _ =>
    obtain ⟨first, hfirst, -⟩ := Except.bind_eq_ok h
    exact ih hfirst
  | untold e => cases h

/-- A name is the text of the start, alone or before a hyphen and the texts of further points. -/
theorem exists_first {l : Layout} {n : String} (h : l.name text = .ok n) : ∃ p first, l.start = .ok p ∧ text p = .ok first ∧
    p ∈ l.points ∧ (n = first ∨ ∃ ps rest, l.points = p :: ps ∧ Joined text ps rest ∧ n = first ++ "-" ++ rest) := by
  obtain ⟨p, hp⟩ := start_of_name h
  have hhead : l.points.head? = some p := head_points hp
  have hjoined : Joined text l.points n := joined_of_name h
  have hmem : p ∈ l.points := List.mem_of_mem_head? hhead
  cases hpoints : l.points with
  | nil => rw [hpoints] at hhead; cases hhead
  | cons q qs =>
    rw [hpoints] at hhead hjoined hmem
    cases hhead
    cases hjoined with
    | one hfirst => exact ⟨p, n, hp, hfirst, hmem, .inl rfl⟩
    | @more _ first rest _ hfirst hrest => exact ⟨p, first, hp, hfirst, hmem, .inr ⟨qs, rest, rfl, hrest, rfl⟩⟩

end Layout

/-- How work ends whose result may be an error. -/
def Outcome.ofResult {α : Type} : Except Value α → Outcome α
  | .ok a => .done a
  | .error e => .raised e

/-- Values that are neither nothing, nor points, nor mappings: they are asked for a position. -/
def Value.isOther : Value → Bool
  | .null | .point _ | .dict _ | .view _ => false
  | _ => true

namespace Work
variable {α β : Type} {σ : Service} {I : Machine → Prop}

/-- Whether work ends in one way in all machines of a kind, and leads to machines of that kind again. -/
def Settles (σ : Service) (I : Machine → Prop) (w : Work α) (r : Except Value α) : Prop :=
  ∀ m, I m → ∃ m', w σ m = (.ofResult r, m') ∧ I m'

theorem settles_pure (a : α) : Settles σ I (pure a) (.ok a) := fun m hm => ⟨m, rfl, hm⟩

theorem Settles.bind {w : Work α} {f : α → Work β} {r : Except Value α} {g : α → Except Value β} (hw : Settles σ I w r)
    (hf : ∀ a, r = .ok a → Settles σ I (f a) (g a)) : Settles σ I (w >>= f) (r >>= g) := by
  intro m hm
  obtain ⟨m₁, hend, hm₁⟩ := hw m hm
  rw [bind_eq, hend]
  cases r with
  | error e => exact ⟨m₁, rfl, hm₁⟩
  | ok a => exact hf a rfl m₁ hm₁

/-- What a look at the store gives is known where the store is. -/
theorem Settles.of_eq {w w' : Work α} {r : Except Value α} (h : ∀ m, I m → w σ m = w' σ m) (hw : Settles σ I w' r) :
    Settles σ I w r := by
  intro m hm
  rw [h m hm]
  exact hw m hm

/-- How a value is read as a position, in all machines of a kind: what it is made of is looked up there, or asked for
and answered always alike. -/
inductive Laid (σ : Service) (I : Machine → Prop) : Value → Layout → Prop
  | nowhere : Laid σ I .null .nowhere
  | point {i : Nat} {p : Point} (hp : ∀ m, I m → m.store.point i = p) : Laid σ I (.point i) (.point p)
  | place {v : Value} {entries : Entries} (hv : ∀ m, I m → m.store.mapping? v = some entries)
      (hposition : entries.named? "position" = none) (hstart : entries.named? "start" = none) :
      Laid σ I v (.point (pointOf entries))
  | inside {v w : Value} {entries : Entries} {l : Layout} (hv : ∀ m, I m → m.store.mapping? v = some entries)
      (hposition : entries.named? "position" = some w) (hw : Laid σ I w l) : Laid σ I v (.carried l)
  | opening {v w : Value} {entries : Entries} {l : Layout} (hv : ∀ m, I m → m.store.mapping? v = some entries)
      (hposition : entries.named? "position" = none) (hstart : entries.named? "start" = some w) (hw : Laid σ I w l)
      (hstop : Settles σ I (truth (entries.named "end")) (.ok false)) : Laid σ I v (.opening l)
  | range {v w : Value} {entries : Entries} {l l' : Layout} (hv : ∀ m, I m → m.store.mapping? v = some entries)
      (hposition : entries.named? "position" = none) (hstart : entries.named? "start" = some w) (hw : Laid σ I w l)
      (hstop : Settles σ I (truth (entries.named "end")) (.ok true)) (hlast : Laid σ I (entries.named "end") l') :
      Laid σ I v (.range l l')
  | unended {v w e : Value} {entries : Entries} {l : Layout} (hv : ∀ m, I m → m.store.mapping? v = some entries)
      (hposition : entries.named? "position" = none) (hstart : entries.named? "start" = some w) (hw : Laid σ I w l)
      (hstop : Settles σ I (truth (entries.named "end")) (.error e)) : Laid σ I v (.range l (.untold e))
  | held {v w : Value} {l : Layout} (hv : v.isOther = true) (hread : Settles σ I (attrOrNull v "position") (.ok w))
      (hw : Laid σ I w l) : Laid σ I v (.carried l)
  | untold {v e : Value} (hv : v.isOther = true) (hread : Settles σ I (attrOrNull v "position") (.error e)) :
      Laid σ I v (.untold e)

/-! ### One step of each recursion -/

section
variable {m : Machine} {v w : Value} {entries : Entries}

/-- The last part of the name of a range: its end is rendered only if it counts. -/
def endName (fuel : Nat) (stop : Value) (first : String) : Work String := do
  if ← truth stop then positionName fuel stop else pure first

theorem not_null_of_mapping? (hv : m.store.mapping? v = some entries) : v ≠ .null := by
  rintro rfl
  cases hv

theorem positionName_inside (hv : m.store.mapping? v = some entries) (hposition : entries.named? "position" = some w)
    (fuel : Nat) : positionName (fuel + 1) v σ m = positionName fuel w σ m := by
  rw [positionName, if_neg (not_null_of_mapping? hv), (gives_store m).bind_eq, hv]
  dsimp only
  rw [hposition]

theorem positionName_range (hv : m.store.mapping? v = some entries) (hposition : entries.named? "position" = none)
    (hstart : entries.named? "start" = some w) (fuel : Nat) :
    positionName (fuel + 1) v σ m = (do
      let first ← positionName fuel w
      let last ← endName fuel (entries.named "end") first
      return first ++ "-" ++ last : Work String) σ m := by
  rw [positionName, if_neg (not_null_of_mapping? hv), (gives_store m).bind_eq, hv]
  dsimp only
  rw [hposition, hstart]
  refine congrFun (congrFun (congrArg (positionName fuel w >>= ·) (funext fun first => ?_)) σ) m
  unfold endName
  rw [bind_assoc]
  refine congrArg (truth _ >>= ·) (funext fun counts => ?_)
  cases counts <;> rfl

theorem positionName_place (hv : m.store.mapping? v = some entries) (hposition : entries.named? "position" = none)
    (hstart : entries.named? "start" = none) (fuel : Nat) :
    positionName (fuel + 1) v σ m = pointText (pointOf entries) σ m := by
  rw [positionName, if_neg (not_null_of_mapping? hv), (gives_store m).bind_eq, hv]
  dsimp only
  rw [hposition, hstart]

theorem positionName_other (hv : v.isOther = true) (fuel : Nat) (m : Machine) :
    positionName (fuel + 1) v σ m = (attrOrNull v "position" >>= positionName fuel) σ m := by
  cases v <;> first
    | rfl
    | cases hv

theorem positionStart_mapping (hv : m.store.mapping? v = some entries) (fuel : Nat) :
    positionStart (fuel + 1) v σ m =
      (match entries.named? "position", entries.named? "start" with
        | some inner, _ => positionStart fuel inner
        | none, some start => positionStart fuel start
        | none, none => pure (pointOf entries) : Work Point) σ m := by
  cases v <;> cases hv <;> rfl

theorem positionStart_other (hv : v.isOther = true) (fuel : Nat) (m : Machine) :
    positionStart (fuel + 1) v σ m = (attrOrNull v "position" >>= positionStart fuel) σ m := by
  cases v <;> first
    | rfl
    | cases hv

end

/-! ### Both recursions -/

theorem gives_trueOr_null (standard : Value) (m : Machine) : (trueOr .null standard).Gives m standard m :=
  gives_trueOr_of_isScalar rfl standard m

/-- The point of nothing is the first. -/
theorem gives_pointText_nowhere (m : Machine) : (pointText ⟨.null, .null⟩).Gives m "1:1" m := by
  have hone : (formatted (.int 1)).Gives m "1" m := fun _ => rfl
  exact (gives_trueOr_null _ m).bind (hone.bind ((gives_trueOr_null _ m).bind (hone.bind (gives_pure _ m))))

variable {text : Point → Except Value String}

theorem settles_nowhere (htext : Settles σ I (pointText ⟨.null, .null⟩) (text ⟨.null, .null⟩)) (fuel : Nat) :
    Settles σ I (positionName (fuel + 1) .null) (text ⟨.null, .null⟩) := by
  intro m hm
  obtain ⟨m', htold, -⟩ := htext m hm
  rw [gives_pointText_nowhere m σ] at htold
  refine ⟨m, ?_, hm⟩
  cases hone : text ⟨.null, .null⟩ with
  | error e => rw [hone] at htold; cases htold
  | ok t =>
    rw [hone] at htold
    cases htold
    rfl

/-- A range has its name told if its start and its end have; it starts where its start does. -/
theorem settles_range {v w : Value} {entries : Entries} {fuel : Nat} {first : Except Value String}
    {start : Except Value Point} (f : String → Except Value String)
    (hv : ∀ m, I m → m.store.mapping? v = some entries) (hposition : entries.named? "position" = none)
    (hstart : entries.named? "start" = some w) (hname : Settles σ I (positionName fuel w) first)
    (hpoint : Settles σ I (positionStart fuel w) start)
    (hlast : ∀ t, Settles σ I (endName fuel (entries.named "end") t) (f t)) :
    Settles σ I (positionName (fuel + 1) v) (do let t ← first; let u ← f t; return t ++ "-" ++ u) ∧
      Settles σ I (positionStart (fuel + 1) v) start := by
  refine ⟨.of_eq (fun m hm => positionName_range (hv m hm) hposition hstart fuel) ?_, .of_eq (fun m hm => ?_) hpoint⟩
  · exact hname.bind fun t _ => (hlast t).bind fun u _ => settles_pure _
  · rw [positionStart_mapping (hv m hm), hposition, hstart]

/-- A position of finite nesting has its name and its start told, by any fuel that its nesting does not exceed. -/
theorem settles_position {v : Value} {l : Layout} (h : Laid σ I v l)
    (htext : ∀ p ∈ l.points, Settles σ I (pointText p) (text p)) {fuel : Nat} (hfuel : l.depth ≤ fuel) :
    Settles σ I (positionName fuel v) (l.name text) ∧ Settles σ I (positionStart fuel v) l.start := by
  -- A position takes one step of the fuel; what is in it has the rest.
  induction h generalizing fuel with
  | nowhere =>
    obtain ⟨n, rfl⟩ := Layout.exists_succ hfuel
    exact ⟨settles_nowhere (htext _ (List.mem_singleton.mpr rfl)) n, settles_pure _⟩
  | @point i p hp =>
    obtain ⟨n, rfl⟩ := Layout.exists_succ hfuel
    have hname : ∀ m, I m → positionName (n + 1) (.point i) σ m = pointText p σ m := by
      intro m hm
      rw [← hp m hm]
      rfl
    have hstart : ∀ m, I m → positionStart (n + 1) (.point i) σ m = (pure p : Work Point) σ m := by
      intro m hm
      rw [← hp m hm]
      rfl
    exact ⟨.of_eq hname (htext p (List.mem_singleton.mpr rfl)), .of_eq hstart (settles_pure p)⟩
  | @place v entries hv hposition hopen =>
    obtain ⟨n, rfl⟩ := Layout.exists_succ hfuel
    have hname : ∀ m, I m → positionName (n + 1) v σ m = pointText (pointOf entries) σ m :=
      fun m hm => positionName_place (hv m hm) hposition hopen n
    have hstart : ∀ m, I m → positionStart (n + 1) v σ m = (pure (pointOf entries) : Work Point) σ m := by
      intro m hm
      rw [positionStart_mapping (hv m hm), hposition, hopen]
    exact ⟨.of_eq hname (htext _ (List.mem_singleton.mpr rfl)), .of_eq hstart (settles_pure _)⟩
  | @inside v w entries l hv hposition hw ih =>
    obtain ⟨n, rfl⟩ := Layout.exists_succ hfuel
    obtain ⟨hname, hstart⟩ := ih htext (Nat.le_of_succ_le_succ hfuel)
    refine ⟨.of_eq (fun m hm => positionName_inside (hv m hm) hposition n) hname, .of_eq (fun m hm => ?_) hstart⟩
    rw [positionStart_mapping (hv m hm), hposition]
  | @opening v w entries l hv hposition hopen hw hstop ih =>
    obtain ⟨n, rfl⟩ := Layout.exists_succ hfuel
    have hpoints : ∀ p ∈ l.points, Settles σ I (pointText p) (text p) :=
      fun p hp => htext p (List.mem_append_left _ hp)
    obtain ⟨hname, hstart⟩ := ih hpoints (Nat.le_of_succ_le_succ hfuel)
    -- The end does not count, so the start is rendered in its place.
    refine settles_range .ok hv hposition hopen hname hstart fun t => ?_
    exact hstop.bind (g := fun _ => .ok t) fun b hb => by
      cases hb
      exact settles_pure t
  | @range v w entries l l' hv hposition hopen hw hstop hlast ih ihLast =>
    obtain ⟨n, rfl⟩ := Layout.exists_succ hfuel
    have hdepth : max l.depth l'.depth ≤ n := Nat.le_of_succ_le_succ hfuel
    have hfirst : l.depth ≤ n := by omega
    have hrest : l'.depth ≤ n := by omega
    obtain ⟨hname, hstart⟩ := ih (fun p hp => htext p (List.mem_append_left _ hp)) hfirst
    obtain ⟨hend, -⟩ := ihLast (fun p hp => htext p (List.mem_append_right _ hp)) hrest
    refine settles_range (fun _ => l'.name text) hv hposition hopen hname hstart fun t => ?_
    exact hstop.bind (g := fun _ => l'.name text) fun b hb => by
      cases hb
      exact hend
  | @unended v w e entries l hv hposition hopen hw hstop ih =>
    obtain ⟨n, rfl⟩ := Layout.exists_succ hfuel
    have hdepth : max l.depth 1 ≤ n := Nat.le_of_succ_le_succ hfuel
    have hfirst : l.depth ≤ n := by omega
    obtain ⟨hname, hstart⟩ := ih (fun p hp => htext p (List.mem_append_left _ hp)) hfirst
    refine settles_range (fun _ => .error e) hv hposition hopen hname hstart fun t => ?_
    exact hstop.bind (g := fun _ => .error e) fun b hb => by cases hb
  | @held v w l hv hread hw ih =>
    obtain ⟨n, rfl⟩ := Layout.exists_succ hfuel
    obtain ⟨hname, hstart⟩ := ih htext (Nat.le_of_succ_le_succ hfuel)
    refine ⟨.of_eq (fun m _ => positionName_other hv n m) ?_, .of_eq (fun m _ => positionStart_other hv n m) ?_⟩
    · exact hread.bind (g := fun _ => l.name text) fun a ha => by
        cases ha
        exact hname
    · exact hread.bind (g := fun _ => l.start) fun a ha => by
        cases ha
        exact hstart
  | @untold v e hv hread =>
    obtain ⟨n, rfl⟩ := Layout.exists_succ hfuel
    refine ⟨.of_eq (fun m _ => positionName_other hv n m) ?_, .of_eq (fun m _ => positionStart_other hv n m) ?_⟩
    · exact hread.bind (g := fun _ => .error e) fun a ha => by cases ha
    · exact hread.bind (g := fun _ => .error e) fun a ha => by cases ha

/-! ### Diagnostics -/

/-- What a diagnostic gives for its reason: the text of an error, or the reason as it is. -/
def saidOf (reason : Value) : Work Value := if reason.isFault then do pure (Value.str (← printed reason)) else pure reason

/-- The diagnostic of a reason at a position that has a name and a start. -/
def diagnosticAt (reason said : Value) (name : String) (start : Point) (file fatal : Value) : Diagnostic :=
  ⟨said, .str name, start.line, start.column, file, fatal, if reason.isFault then reason else .null⟩

/-- A diagnostic is made of the text of its reason, and of the name and the start of its position. -/
theorem newDiagnostic_eq (reason position file fatal : Value) : newDiagnostic reason position file fatal = (do
    let said ← saidOf reason
    let name ← positionName positionDepth position
    let start ← positionStart positionDepth position
    make fun s => s.addFault (.diagnostic (diagnosticAt reason said name start file fatal)) [said] .null) := by
  unfold newDiagnostic saidOf diagnosticAt
  split
  · simp only [bind_assoc]
  · rfl

/-- Where the position of a diagnostic has a name, the diagnostic is made, and bears that name and the line and the column
of the start; where it has none, the error that says so is the end. -/
theorem newDiagnostic_of_laid {v reason said file fatal : Value} {l : Layout} (h : Laid σ I v l)
    (htext : ∀ p ∈ l.points, Settles σ I (pointText p) (text p)) (hdepth : l.depth ≤ positionDepth)
    (hsaid : Settles σ I (saidOf reason) (.ok said)) {m : Machine} (hm : I m) : ∃ m', match l.name text with
      | .error e => newDiagnostic reason v file fatal σ m = (.raised e, m')
      | .ok n => ∃ i p, newDiagnostic reason v file fatal σ m = (.done (.fault i), m') ∧ l.start = .ok p ∧
          (m'.store.fault i).detail = .diagnostic (diagnosticAt reason said n p file fatal) := by
  obtain ⟨hname, hstart⟩ := settles_position h htext hdepth
  obtain ⟨m₁, hfirst, hm₁⟩ := hsaid m hm
  obtain ⟨m₂, hsecond, hm₂⟩ := hname m₁ hm₁
  rw [newDiagnostic_eq, bind_eq, hfirst]
  dsimp only [Outcome.ofResult]
  rw [bind_eq, hsecond]
  cases hl : l.name text with
  | error e => exact ⟨m₂, rfl⟩
  | ok n =>
    obtain ⟨p, hp⟩ := Layout.start_of_name hl
    obtain ⟨m₃, hthird, -⟩ := hstart m₂ hm₂
    dsimp only [Outcome.ofResult]
    rw [bind_eq, hthird, hp]
    refine ⟨_, _, p, rfl, rfl, ?_⟩
    simp [Store.fault, Fault.new]

/-- The name of a position of finite nesting and its start agree. Both recursions end, however the points and the values
between them are nested; a name is the text of the start, alone or before a hyphen and the texts of further points; and
a diagnostic that is made for the position bears that name with the line and the column of that start. -/
theorem name_begins_with_start {v : Value} {l : Layout} (h : Laid σ I v l)
    (htext : ∀ p ∈ l.points, Settles σ I (pointText p) (text p)) :
    (∀ fuel, l.depth ≤ fuel →
      Settles σ I (positionName fuel v) (l.name text) ∧ Settles σ I (positionStart fuel v) l.start) ∧
    (∀ n, l.name text = .ok n → ∃ p first, l.start = .ok p ∧ Settles σ I (pointText p) (.ok first) ∧
      (n = first ∨ ∃ ps rest, l.points = p :: ps ∧ Layout.Joined text ps rest ∧ n = first ++ "-" ++ rest)) ∧
    ∀ {reason said file fatal : Value}, l.depth ≤ positionDepth → Settles σ I (saidOf reason) (.ok said) →
      ∀ m, I m → ∃ m', match l.name text with
        | .error e => newDiagnostic reason v file fatal σ m = (.raised e, m')
        | .ok n => ∃ i p, newDiagnostic reason v file fatal σ m = (.done (.fault i), m') ∧ l.start = .ok p ∧
            (m'.store.fault i).detail = .diagnostic (diagnosticAt reason said n p file fatal) := by
  refine ⟨fun fuel => settles_position h htext, fun n hn => ?_,
    fun hdepth hsaid m hm => newDiagnostic_of_laid h htext hdepth hsaid hm⟩
  obtain ⟨p, first, hp, hfirst, hmem, hrest⟩ := Layout.exists_first hn
  exact ⟨p, first, hp, hfirst ▸ htext p hmem, hrest⟩

/-! ### Positions that no class of a script has a say in -/

/-- How a value is read as a position in a store, where nothing has to be asked for. -/
inductive Plain (s : Store) : Value → Layout → Prop
  | nowhere : Plain s .null .nowhere
  | point (i : Nat) : Plain s (.point i) (.point (s.point i))
  | place {v : Value} {entries : Entries} (hv : s.mapping? v = some entries) (hposition : entries.named? "position" = none)
      (hstart : entries.named? "start" = none) : Plain s v (.point (pointOf entries))
  | inside {v w : Value} {entries : Entries} {l : Layout} (hv : s.mapping? v = some entries)
      (hposition : entries.named? "position" = some w) (hw : Plain s w l) : Plain s v (.carried l)
  | opening {v w : Value} {entries : Entries} {l : Layout} (hv : s.mapping? v = some entries)
      (hposition : entries.named? "position" = none) (hstart : entries.named? "start" = some w) (hw : Plain s w l)
      (hend : (entries.named "end").isAsked = false) (hstop : s.truthy (entries.named "end") = false) :
      Plain s v (.opening l)
  | range {v w : Value} {entries : Entries} {l l' : Layout} (hv : s.mapping? v = some entries)
      (hposition : entries.named? "position" = none) (hstart : entries.named? "start" = some w) (hw : Plain s w l)
      (hend : (entries.named "end").isAsked = false) (hstop : s.truthy (entries.named "end") = true)
      (hlast : Plain s (entries.named "end") l') : Plain s v (.range l l')
  | held {v w : Value} {l : Layout} (hv : v.isOther = true) (hdirect : v.isDirect = true)
      (hposition : s.attr? v "position" = some w) (hw : Plain s w l) : Plain s v (.carried l)
  | bare {v : Value} (hv : v.isOther = true) (hlacks : s.lacks v "position" = true) : Plain s v (.carried .nowhere)

/-- What is known to end without a request. -/
theorem Gives.settles {w : Work α} {a : α} {m : Machine} (h : w.Gives m a m) : Settles σ (· = m) w (.ok a) := by
  rintro _ rfl
  exact ⟨_, h σ, rfl⟩

theorem Plain.laid {m : Machine} {v : Value} {l : Layout} (h : Plain m.store v l) : Laid σ (· = m) v l := by
  have hmapping {v : Value} {entries : Entries} (hv : m.store.mapping? v = some entries) :
      ∀ m', m' = m → m'.store.mapping? v = some entries := by
    rintro _ rfl
    exact hv
  induction h with
  | nowhere => exact .nowhere
  | point i => exact .point fun m' hm => hm ▸ rfl
  | place hv hposition hstart => exact .place (hmapping hv) hposition hstart
  | inside hv hposition _ ih => exact .inside (hmapping hv) hposition ih
  | opening hv hposition hstart _ hend hstop ih =>
    exact .opening (hmapping hv) hposition hstart ih (hstop ▸ (gives_truth_of_not_isAsked hend).settles)
  | range hv hposition hstart _ hend hstop _ ih ihLast =>
    exact .range (hmapping hv) hposition hstart ih (hstop ▸ (gives_truth_of_not_isAsked hend).settles) ihLast
  | held hv hdirect hposition _ ih => exact .held hv (gives_attrOrNull_of_isDirect hdirect hposition).settles ih
  | bare hv hlacks => exact .held hv (gives_attrOrNull_of_lacks hlacks).settles .nowhere

/-- Where every point has a text, a position that nothing has to be asked for has a name. -/
theorem Plain.exists_name {s : Store} {v : Value} {l : Layout} (h : Plain s v l)
    (htext : ∀ p ∈ l.points, ∃ t, text p = .ok t) : ∃ n, l.name text = .ok n := by
  induction h with
  | nowhere => exact htext _ (List.mem_singleton.mpr rfl)
  | point i => exact htext _ (List.mem_singleton.mpr rfl)
  | place => exact htext _ (List.mem_singleton.mpr rfl)
  | inside _ _ _ ih => exact ih htext
  | opening _ _ _ _ _ _ ih =>
    obtain ⟨first, hfirst⟩ := ih fun p hp => htext p (List.mem_append_left _ hp)
    exact ⟨first ++ "-" ++ first, by rw [Layout.name, hfirst]; rfl⟩
  | range _ _ _ _ _ _ _ ih ihLast =>
    obtain ⟨first, hfirst⟩ := ih fun p hp => htext p (List.mem_append_left _ hp)
    obtain ⟨last, hlast⟩ := ihLast fun p hp => htext p (List.mem_append_right _ hp)
    exact ⟨first ++ "-" ++ last, by rw [Layout.name, hfirst, hlast]; rfl⟩
  | held _ _ _ _ ih => exact ih htext
  | bare => exact htext _ (List.mem_singleton.mpr rfl)

/-- Where nothing has to be asked for and all points are of scalars, both recursions give a result and change nothing, and
the name begins with the text of the start. -/
theorem Plain.told {m : Machine} {v : Value} {l : Layout} (h : Plain m.store v l)
    (hpoints : ∀ p ∈ l.points, p.line.isScalar = true ∧ p.column.isScalar = true) : ∃ n p first,
    (∀ fuel, l.depth ≤ fuel → (positionName fuel v).Gives m n m ∧ (positionStart fuel v).Gives m p m) ∧
      (pointText p).Gives m first m ∧ (n = first ∨ ∃ rest, n = first ++ "-" ++ rest) := by
  have hexists : ∀ p : Point, ∃ t, p ∈ l.points → ∀ m, (pointText p).Gives m t m := by
    intro p
    by_cases hp : p ∈ l.points
    · obtain ⟨t, ht⟩ := exists_pointText (hpoints p hp).1 (hpoints p hp).2
      exact ⟨t, fun _ => ht⟩
    · exact ⟨"", fun hmem => absurd hmem hp⟩
  choose text htext using hexists
  obtain ⟨n, hn⟩ := @Plain.exists_name (fun p => .ok (text p)) _ _ _ h fun p _ => ⟨text p, rfl⟩
  obtain ⟨p, first, hp, hfirst, hmem, hrest⟩ := Layout.exists_first hn
  cases hfirst
  refine ⟨n, p, text p, fun fuel hfuel => ⟨fun σ => ?_, fun σ => ?_⟩, htext p hmem m, ?_⟩
  · obtain ⟨hname, -⟩ := settles_position (σ := σ) h.laid (fun p hp => (htext p hp m).settles) hfuel
    obtain ⟨_, hend, rfl⟩ := hname m rfl
    rw [hend, hn]
    rfl
  · obtain ⟨-, hstart⟩ := settles_position (σ := σ) h.laid (fun p hp => (htext p hp m).settles) hfuel
    obtain ⟨_, hend, rfl⟩ := hstart m rfl
    rw [hend, hp]
    rfl
  · obtain hone | ⟨_, rest, -, -, hmore⟩ := hrest
    · exact .inl hone
    · exact .inr ⟨rest, hmore⟩

end Work

/-- A machine with a range from an object that carries a place to a point. -/
def Machine.ranged : Machine :=
  { (default : Machine) with
    store := { (default : Store) with
      dicts := #[[(.str "end", .point 0), (.str "start", .record 0)], [(.str "line", .int 3), (.str "column", .int 0)],
        [(.str "position", .dict 1)]]
      records := #[2]
      points := #[⟨.int 4, .str "x"⟩] } }

namespace Work

theorem name_begins_with_start_ranged : ∃ m' i,
    newDiagnostic (.str "boom") (.dict 0) (.str "a.txt") (.bool true) (service 0) .ranged = (.done (.fault i), m') ∧
      (m'.store.fault i).detail =
        .diagnostic ⟨.str "boom", .str "3:1-4:x", .int 3, .int 0, .str "a.txt", .bool true, .null⟩ := by
  let s : Store := Machine.ranged.store
  let text (p : Point) : Except Value String := if p.line = .int 3 then .ok "3:1" else .ok "4:x"
  have hplain : Plain s (.dict 0) (.range (.carried (.point ⟨.int 3, .int 0⟩)) (.point ⟨.int 4, .str "x"⟩)) := by
    refine .range rfl rfl rfl ?_ rfl (by decide +kernel) (.point 0)
    have hinner : Plain s (.dict 1) (.point ⟨.int 3, .int 0⟩) := @Plain.place s (.dict 1) (s.dict 1) rfl rfl rfl
    exact .held rfl rfl rfl hinner
  have htext : ∀ p ∈ [⟨.int 3, .int 0⟩, ⟨.int 4, .str "x"⟩], Settles (service 0) (· = .ranged) (pointText p) (text p) := by
    rintro p hp
    obtain rfl | hp := List.mem_cons.mp hp
    · exact Gives.settles fun _ => rfl
    · obtain rfl := List.mem_singleton.mp hp
      exact Gives.settles fun _ => rfl
  obtain ⟨-, -, hmade⟩ := name_begins_with_start hplain.laid htext
  have hsaid : Settles (service 0) (· = .ranged) (saidOf (.str "boom")) (.ok (.str "boom")) := settles_pure _
  obtain ⟨m', i, p, hmade, hp, hdetail⟩ := hmade (by decide) hsaid .ranged rfl
  cases hp
  exact ⟨m', i, hmade, hdetail⟩

end Work
end Treeworks

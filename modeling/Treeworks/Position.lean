import Treeworks.Wording

/-! Positions in a text: a point, a range between two positions, or anything that carries one.
The name of a position is its full rendering; its start is the point where it begins. -/
namespace Treeworks.Work

/-- A point as `line:column`; a part that is missing or false counts as one. -/
def pointText (p : Point) : Work String := do
  let line ← formatted (← trueOr p.line (.int 1))
  let column ← formatted (← trueOr p.column (.int 1))
  return line ++ ":" ++ column

/-- The point that a mapping of line and column stands for. -/
def pointOf (entries : Entries) : Point := ⟨entries.named "line", entries.named "column"⟩

/-- The name of a position, which must not be nested deeper than the fuel. A range without a true
end ends where it starts. -/
def positionName : Nat → Value → Work String
  | 0, _ => fail .tooDeep
  | fuel + 1, v => do
    if v = .null then return "1:1"
    let s ← store
    match s.mapping? v with
    | some entries =>
      match entries.named? "position", entries.named? "start" with
      | some inner, _ => positionName fuel inner
      | none, some start => do
        let first ← positionName fuel start
        let stop := entries.named "end"
        let last ← if ← truth stop then positionName fuel stop else pure first
        return first ++ "-" ++ last
      | none, none => pointText (pointOf entries)
    | none =>
      match v with
      | .point i => pointText (s.point i)
      | v => do positionName fuel (← attrOrNull v "position")

/-- The point where a position starts, which must not be nested deeper than the fuel. -/
def positionStart : Nat → Value → Work Point
  | 0, _ => fail .tooDeep
  | fuel + 1, v => do
    let s ← store
    match v, s.mapping? v with
    | .null, _ => return ⟨.null, .null⟩
    | .point i, _ => return s.point i
    | v, none => do positionStart fuel (← attrOrNull v "position")
    | _, some entries =>
      match entries.named? "position", entries.named? "start" with
      | some inner, _ => positionStart fuel inner
      | none, some start => positionStart fuel start
      | none, none => return pointOf entries

/-- The nesting up to which positions are followed. -/
def positionDepth : Nat := 970

end Treeworks.Work

import Treeworks.Loop

/-! Passages: the stages that they take, where the tree of one comes from, and how it ends. -/
namespace Treeworks

/-- The steps that take a passage through parse, run and compile. -/
def passageSteps : Array Step :=
  #[⟨.hook .parseStage, .str "parse_step", some 1, some 1, false, []⟩,
    ⟨.hook .runStage, .str "run_step", some 2, some 2, false, []⟩,
    ⟨.hook .compileStage, .str "stringify_step", some 1, some 1, false, []⟩]

/-- The tree that a stage works on: one that was given, else the one that is parked. -/
def chosenTree (given parked : Value) : Value := if given = .null then parked else given

/-- The tree that is parked afterwards: one that was given takes an empty place. -/
def parkedTree (given parked : Value) : Value := if parked = .null then given else parked

namespace Passage

/-- A passage before its first stage. Texts and files are carriers, any other value is a tree. -/
def ofValue (processor settings value file : Value) : Passage :=
  ⟨processor, settings, file, if value.isFile || value.isText then .null else value, .null⟩

/-- A passage without a tree takes the one that is parked on its file. -/
def look (p : Passage) (parked : Value) : Passage := { p with tree := chosenTree p.tree parked }

/-- How the future of a passage ends when its completion is reported: with the passage, or with an error that has to be
one. -/
def ending? (passage : Nat) (error : Value) : Option Ending :=
  if error = .null then some (.value (.passage passage))
  else if error.isFault then some (.error error)
  else none

end Passage
end Treeworks

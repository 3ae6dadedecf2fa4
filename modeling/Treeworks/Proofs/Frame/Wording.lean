import Treeworks.Wording
import Treeworks.Proofs.Frame.Conduct

/-! Texts of values and paths of files: whatever has to be asked for them, to make them keeps to every discipline. -/
namespace Treeworks.Work
variable {α : Type} {D : Discipline}

@[grind ←]
theorem keeps_textBy (m : Value × List Value) (args : List Value) : (textBy m args).Keeps D := by
  unfold textBy
  grind

@[grind ←]
theorem keeps_trueOr (v standard : Value) : (trueOr v standard).Keeps D := by
  unfold trueOr
  grind

/-- What the fuel bounds keeps to a discipline if it does so with less fuel: the texts of values refer to those of what
is in them, and to one another. -/
theorem keeps_texts (fuel : Nat) :
    (∀ shown v, (writtenAt fuel shown v).Keeps D) ∧ (∀ v, (printedAt fuel v).Keeps D) ∧
      (∀ v, (formattedAt fuel v).Keeps D) ∧ (∀ i, (pathAt fuel i).Keeps D) ∧ ∀ v, (startAt fuel v).Keeps D := by
  induction fuel with
  | zero =>
    refine ⟨fun _ _ => ?_, fun _ => ?_, fun _ => ?_, fun _ => ?_, fun _ => ?_⟩
    · unfold writtenAt; grind
    · unfold printedAt; grind
    · unfold formattedAt; grind
    · unfold pathAt; grind
    · unfold startAt; grind
  | succ fuel ih =>
    obtain ⟨hwritten, hprinted, hformatted, hpath, hstart⟩ := ih
    refine ⟨fun shown v => ?_, fun v => ?_, fun v => ?_, fun i => ?_, fun v => ?_⟩
    · unfold writtenAt
      refine keeps_bind keeps_store fun s => keeps_bind (keeps_special v _) fun m => ?_
      split
      · exact keeps_textBy _ _
      · split <;> grind
    · unfold printedAt
      refine keeps_bind keeps_store fun s => keeps_bind (keeps_special v _) fun m => ?_
      split
      · exact keeps_textBy _ _
      · split
        case h_4 =>
          split
          · refine keeps_bind (keeps_truth _) fun b => ?_
            split <;> grind
          · split <;> grind
        all_goals grind
    · unfold formattedAt
      grind
    · unfold pathAt
      refine keeps_overridden _ _ _ (keeps_bind (keeps_query _) fun f => ?_)
      refine keeps_bind (keeps_truth _) fun hasName => ?_
      split
      · exact keeps_pure _
      · refine keeps_bind (keeps_truth _) fun hasExtension => ?_
        split <;> grind
    · unfold startAt
      grind

@[grind ←]
theorem keeps_written (v : Value) : (written v).Keeps D := (keeps_texts _).1 [] v

@[grind ←]
theorem keeps_printed (v : Value) : (printed v).Keeps D := (keeps_texts _).2.1 v

@[grind ←]
theorem keeps_formatted (v : Value) : (formatted v).Keeps D := (keeps_texts _).2.2.1 v

@[grind ←]
theorem keeps_filePath (i : Nat) : (filePath i).Keeps D := (keeps_texts _).2.2.2.1 i

@[grind ←]
theorem keeps_filePath? (i : Nat) : (filePath? i).Keeps D := by
  unfold filePath?
  grind

end Treeworks.Work

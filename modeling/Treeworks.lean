import Treeworks.Answer
import Treeworks.Proofs.Run.Order
import Treeworks.Proofs.Run.Loss
import Treeworks.Proofs.Run.Modes
import Treeworks.Proofs.Run.Surface
import Treeworks.Proofs.Passage.Apart
import Treeworks.Proofs.Passage.Refinement
import Treeworks.Proofs.Slot.History
import Treeworks.Proofs.Slot.Forms
import Treeworks.Proofs.Call.Steps
import Treeworks.Proofs.Log.Families
import Treeworks.Proofs.Log.Failing
import Treeworks.Proofs.Default.History
import Treeworks.Proofs.Lineage.Derived
import Treeworks.Proofs.Attach.Ending
import Treeworks.Proofs.Pending.Settling
import Treeworks.Proofs.Span.Working
import Treeworks.Proofs.Log.Program
import Treeworks.Proofs.Log.Brackets
import Treeworks.Proofs.Report.Contexts
import Treeworks.Proofs.Report.Failing
import Treeworks.Proofs.Copy.Apart
import Treeworks.Proofs.Own.Isolated
import Treeworks.Proofs.Own.Course
import Treeworks.Proofs.Own.Documents
import Treeworks.Proofs.Own.Founding
import Treeworks.Proofs.Own.Isolation

import Earliest.Column.Agreement
import Earliest.Column.Collect
import Earliest.Config.Document
import Earliest.FirstBy.Session
import Earliest.Memory.Pool
import Earliest.Proofs.Bitmap.Equality
import Earliest.Proofs.Column.Agreement
import Earliest.Proofs.Column.Entries
import Earliest.Proofs.Column.Strings
import Earliest.Proofs.Column.Views
import Earliest.Proofs.Config.Run
import Earliest.Proofs.FirstBy.Footprint
import Earliest.Proofs.FirstBy.Indistinguishable
import Earliest.Proofs.FirstBy.Input
import Earliest.Proofs.FirstBy.Intact
import Earliest.Proofs.FirstBy.Merge
import Earliest.Proofs.FirstBy.Observation
import Earliest.Proofs.FirstBy.Order
import Earliest.Proofs.FirstBy.Outcome
import Earliest.Proofs.FirstBy.Refusal
import Earliest.Proofs.FirstBy.Relabel
import Earliest.Proofs.FirstBy.Replay
import Earliest.Proofs.FirstBy.RollUp
import Earliest.Proofs.FirstBy.Run
import Earliest.Proofs.FirstBy.SameBatches
import Earliest.Proofs.Intermediate.Framing
import Earliest.Proofs.Memory.Amortised
import Earliest.Proofs.Memory.Conservation
import Earliest.Proofs.Memory.Ensure
import Earliest.Proofs.Memory.Reservations
import Earliest.Proofs.Memory.Run
import Earliest.Proofs.Validity.Run

import StackSteps.Viewer
import StackSteps.Proofs.Statement.RoundTrip
import StackSteps.Proofs.Statement.Prefixes
import StackSteps.Proofs.Machine.StoredBytes
import StackSteps.Proofs.Machine.Failure
import StackSteps.Proofs.Machine.LowViews
import StackSteps.Proofs.Machine.WellFormed
import StackSteps.Proofs.Machine.Pictures
import StackSteps.Proofs.Machine.Independence
import StackSteps.Proofs.Machine.Arithmetic
import StackSteps.Proofs.Machine.PairStore
import StackSteps.Proofs.Stack.ByteArray
import StackSteps.Proofs.Labels.History
import StackSteps.Proofs.Session.Freshness
import StackSteps.Proofs.Session.Seeding
import StackSteps.Proofs.Session.Building
import StackSteps.Proofs.Trace.Driving
import StackSteps.Proofs.Trace.Edits
import StackSteps.Proofs.Trace.LabelAges
import StackSteps.Proofs.Trace.LargerStack
import StackSteps.Proofs.Trace.Lifetimes
import StackSteps.Proofs.Trace.Spacing
import StackSteps.Proofs.Trace.Touched
import StackSteps.Proofs.Json.ReadBack
import StackSteps.Proofs.Machine.FromLines
import StackSteps.Proofs.Snapshot.ReadBack
import StackSteps.Proofs.Setup.Seeds
import StackSteps.Proofs.Viewer.Calls
import StackSteps.Proofs.Viewer.LastSettings
import StackSteps.Proofs.Viewer.SeedTexts
import StackSteps.Proofs.Viewer.Views
import StackSteps.Proofs.Stack.Shifts
import StackSteps.Json.Compact
import StackSteps.Proofs.Stack.Masks

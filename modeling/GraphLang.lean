import GraphLang.Container.Document
import GraphLang.Main
import GraphLang.Program.Sketch
import GraphLang.Proofs.Bridge.Unseen
import GraphLang.Proofs.Captures
import GraphLang.Proofs.ExceptionPaths
import GraphLang.Proofs.Frozen
import GraphLang.Proofs.Locality
import GraphLang.Proofs.Optimize.Again
import GraphLang.Proofs.Optimize.Readable
import GraphLang.Proofs.Program.FreeNames
import GraphLang.Proofs.Program.LeftOut
import GraphLang.Proofs.Program.Rebuilding
import GraphLang.Proofs.Program.RoundTrip
import GraphLang.Proofs.Rule.Changing
import GraphLang.Proofs.Rule.Isolation
import GraphLang.Proofs.Rule.MemberTypes
import GraphLang.Proofs.Rule.Ranges
import GraphLang.Proofs.Rule.SingleRoot
import GraphLang.Proofs.Unmixed
import GraphLang.Proofs.ValidRuns
import GraphLang.Scopes.Document

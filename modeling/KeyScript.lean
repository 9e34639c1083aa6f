import KeyScript.Session
import KeyScript.Plan.Diff
import KeyScript.Report
import KeyScript.Keyboard.Display
import KeyScript.Program.Runner
import KeyScript.Number.Duration
import KeyScript.Settings.Version
import KeyScript.Settings.Load
import KeyScript.CommandLine.Perform
import KeyScript.Main
import KeyScript.Yaml.Scalar
import KeyScript.Yaml.Token
import KeyScript.Yaml.Layout
import KeyScript.Yaml.Atom
import KeyScript.Yaml.Node
import KeyScript.Yaml.Value
import KeyScript.Proofs.Links
import KeyScript.Proofs.Loading
import KeyScript.Proofs.Moves
import KeyScript.Proofs.Reachable
import KeyScript.Proofs.Expansion
import KeyScript.Proofs.Interruption
import KeyScript.Proofs.Wire
import KeyScript.Proofs.BinaryForm
import KeyScript.Proofs.Utf8
import KeyScript.Proofs.LoadedPlan
import KeyScript.Proofs.PlanRun
import KeyScript.Proofs.Difference
import KeyScript.Proofs.FailSafe
import KeyScript.Proofs.Presses
import KeyScript.Proofs.DryRun
import KeyScript.Proofs.AcceptedSettings
import KeyScript.Proofs.Agreement
import KeyScript.Proofs.DelayRange
import KeyScript.Proofs.BareMachine
import KeyScript.Proofs.DelayHistory
import KeyScript.Proofs.Assertions
import KeyScript.Proofs.ExitCodes
import KeyScript.Proofs.Lines
import KeyScript.Proofs.Rebuilding
import KeyScript.Proofs.Watching
import KeyScript.Proofs.Words
import KeyScript.Proofs.Inspection
import KeyScript.Proofs.WordMap
import KeyScript.Proofs.Aliases
import KeyScript.Proofs.Renumbering
import KeyScript.Proofs.Appending
import KeyScript.Proofs.Grammar
import KeyScript.Proofs.Spacing
import KeyScript.Proofs.Patching
import KeyScript.Proofs.Chords
import KeyScript.Proofs.FirstProblem
import KeyScript.Proofs.Attribution
import KeyScript.Proofs.Reencoding
import KeyScript.Proofs.Echoing
import KeyScript.Proofs.AppliedSettings
import KeyScript.Proofs.Suggestions
import KeyScript.Proofs.Pointer

import Promptwright.Cli.Run
import Promptwright.Main
import Promptwright.Proofs.Cli.Compile
import Promptwright.Proofs.Document.JsonTexts
import Promptwright.Proofs.Document.JsonTokens
import Promptwright.Proofs.Evaluation.Calls
import Promptwright.Proofs.Evaluation.Cases
import Promptwright.Proofs.Evaluation.Grading
import Promptwright.Proofs.Evaluation.Registration
import Promptwright.Proofs.Evaluation.Structured
import Promptwright.Proofs.Json.Reordered
import Promptwright.Proofs.Package.Compile
import Promptwright.Proofs.Package.Confinement
import Promptwright.Proofs.Package.Contents
import Promptwright.Proofs.Package.Dialects
import Promptwright.Proofs.Package.Duplicates
import Promptwright.Proofs.Package.Fragments
import Promptwright.Proofs.Package.Literal
import Promptwright.Proofs.Package.MessageData
import Promptwright.Proofs.Package.References
import Promptwright.Proofs.Package.Registry
import Promptwright.Proofs.Package.RewrittenTypes
import Promptwright.Proofs.Package.Schedule
import Promptwright.Proofs.Package.SchemaErrors
import Promptwright.Proofs.Package.TemplateOrder
import Promptwright.Proofs.Package.Wording
import Promptwright.Proofs.Prompt.Discovery
import Promptwright.Proofs.Prompt.Loaded
import Promptwright.Proofs.Prompt.NestedBraces
import Promptwright.Proofs.Prompt.RoundTrip
import Promptwright.Proofs.Prompt.SchemaPositions
import Promptwright.Proofs.Prompt.Whereabouts
import Promptwright.Proofs.Script.Canonical
import Promptwright.Proofs.Script.Paragraphs
import Promptwright.Proofs.Script.Presentation
import Promptwright.Proofs.Script.Quoting
import Promptwright.Proofs.Script.Templates
import Promptwright.Proofs.Text.Respelling
import Promptwright.Proofs.Validator.Combinators
import Promptwright.Proofs.Validator.Complete
import Promptwright.Proofs.Validator.Sound

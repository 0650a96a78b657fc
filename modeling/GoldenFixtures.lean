import GoldenFixtures.Main
import GoldenFixtures.Proofs.Decimal.Digits
import GoldenFixtures.Proofs.Json.Scalars
import GoldenFixtures.Proofs.Replay.Clean
import GoldenFixtures.Proofs.Json.ReadBack
import GoldenFixtures.Proofs.Json.ReadShape
import GoldenFixtures.Proofs.Json.Sorted
import GoldenFixtures.Proofs.Time.Calendar
import GoldenFixtures.Proofs.Time.Instant
import GoldenFixtures.Proofs.Time.Pattern
import GoldenFixtures.Proofs.Transcript.Normalize
import GoldenFixtures.Proofs.Archive.Roster
import GoldenFixtures.Proofs.Json.Compact
import GoldenFixtures.Proofs.Sbom.Merge
import GoldenFixtures.Proofs.Text.Lines
import GoldenFixtures.Proofs.Archive.Privacy
import GoldenFixtures.Proofs.Text.Order
import GoldenFixtures.Proofs.FileTree.Path
import GoldenFixtures.Proofs.FileTree.Entries
import GoldenFixtures.Proofs.FileTree.Resolve
import GoldenFixtures.Proofs.FileTree.Write
import GoldenFixtures.Proofs.Sbom.Discover
import GoldenFixtures.Proofs.Sbom.Stored
import GoldenFixtures.Proofs.Command.SanitizeJsonl
import GoldenFixtures.Proofs.Replay.Report
import GoldenFixtures.Proofs.Replay.Finding
import GoldenFixtures.Proofs.Replay.Verify
import GoldenFixtures.Proofs.Text.Lowercase
import GoldenFixtures.Proofs.Transcript.Presentation
import GoldenFixtures.Proofs.Json.ReadAgain
import GoldenFixtures.Proofs.FileTree.Overwrite
import GoldenFixtures.Proofs.Command.NormalizeTranscripts.Check
import GoldenFixtures.Proofs.Command.NormalizeTranscripts.InPlace
import GoldenFixtures.Proofs.Time.Rounding
import GoldenFixtures.Proofs.Transcript.Stamp
import GoldenFixtures.Proofs.FileTree.Directories
import GoldenFixtures.Proofs.Command.Frame
import GoldenFixtures.Proofs.Json.Canonical
import GoldenFixtures.Proofs.Sbom.Identity
import GoldenFixtures.Proofs.Replay.Candidates
import GoldenFixtures.Proofs.Replay.Cycle
import GoldenFixtures.Proofs.Checks
import GoldenFixtures.Proofs.Decimal.Binary64
import GoldenFixtures.Proofs.Json.Number
import GoldenFixtures.Proofs.Replay.Query
import GoldenFixtures.Proofs.Archive.Schema
import GoldenFixtures.Proofs.Transcript.Refusal
import GoldenFixtures.Proofs.Text.Shown
import GoldenFixtures.Proofs.Archive.Layout
import GoldenFixtures.Proofs.Time.Offset
import GoldenFixtures.Proofs.Time.Agreement
import GoldenFixtures.Proofs.Transcript.Patterns
import GoldenFixtures.Proofs.Json.Tree
import GoldenFixtures.Proofs.Json.ReadTree
import GoldenFixtures.Proofs.Yaml.Cursor
import GoldenFixtures.Proofs.Yaml.Gives
import GoldenFixtures.Proofs.Yaml.Quoted
import GoldenFixtures.Proofs.Yaml.Plain
import GoldenFixtures.Proofs.Yaml.Step
import GoldenFixtures.Proofs.Yaml.Tokens
import GoldenFixtures.Proofs.Yaml.TreeTokens
import GoldenFixtures.Proofs.Yaml.TreeNode
import GoldenFixtures.Proofs.Yaml.TreeValue
import GoldenFixtures.Proofs.Yaml.Number
import GoldenFixtures.Proofs.Yaml.TreeAlike
import GoldenFixtures.Proofs.Replay.JsonDocument

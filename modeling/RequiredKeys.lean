import RequiredKeys.Files.Tree
import RequiredKeys.Main
import RequiredKeys.Requirement.Snapshot
import RequiredKeys.Schema.Registry
import RequiredKeys.Token.Transcript
import RequiredKeys.Proofs.Lexeme.Word
import RequiredKeys.Proofs.Lexeme.LongestNumber
import RequiredKeys.Proofs.Lexeme.Unquoting
import RequiredKeys.Proofs.Input.Failures
import RequiredKeys.Proofs.Token.Gap
import RequiredKeys.Proofs.Token.Pull
import RequiredKeys.Proofs.Token.Transcript
import RequiredKeys.Proofs.Token.Acceptance
import RequiredKeys.Proofs.Token.Refusal
import RequiredKeys.Proofs.Token.Separation
import RequiredKeys.Proofs.Token.Bracketing
import RequiredKeys.Proofs.Token.Source
import RequiredKeys.Proofs.Token.Retry
import RequiredKeys.Proofs.Token.Concatenation
import RequiredKeys.Proofs.Token.Viability
import RequiredKeys.Proofs.Token.Truncation
import RequiredKeys.Proofs.Token.Position
import RequiredKeys.Proofs.Token.Blame
import RequiredKeys.Proofs.Token.Ending
import RequiredKeys.Proofs.Token.Termination
import RequiredKeys.Proofs.Token.FailedRead
import RequiredKeys.Proofs.Json.Keys
import RequiredKeys.Proofs.Json.ReaderLexemes
import RequiredKeys.Proofs.Json.ReaderValues
import RequiredKeys.Proofs.Json.Agreement
import RequiredKeys.Proofs.Requirement.Verdict
import RequiredKeys.Proofs.Requirement.EarlyStop
import RequiredKeys.Proofs.Requirement.Lookahead
import RequiredKeys.Proofs.Requirement.Composition
import RequiredKeys.Proofs.Requirement.Termination
import RequiredKeys.Proofs.Requirement.Fold
import RequiredKeys.Proofs.Requirement.Clause
import RequiredKeys.Proofs.Schema.Registry
import RequiredKeys.Proofs.Schema.Directory
import RequiredKeys.Proofs.Json.Writer
import RequiredKeys.Proofs.Program.Answer
import RequiredKeys.Proofs.Requirement.Identity
import RequiredKeys.Proofs.Requirement.Monotone
import RequiredKeys.Proofs.Program.Precedence
import RequiredKeys.Proofs.Json.ReadBack
import RequiredKeys.Proofs.Program.ReadBack
import RequiredKeys.Proofs.Program.RunLog
import RequiredKeys.Proofs.Schema.History
import RequiredKeys.Proofs.Json.Encoding
import RequiredKeys.Proofs.Program.Settings
import RequiredKeys.Proofs.Token.Frames
import RequiredKeys.Proofs.Requirement.LockStep

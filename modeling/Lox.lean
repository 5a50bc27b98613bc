import Lox.Command.Folder
import Lox.Main
import Lox.Tree.Bracketed
import Lox.Token.Stream
import Lox.Grammar.Tape
import Lox.Proofs.Grammar.Outcome
import Lox.Proofs.Grammar.ExpressionReading
import Lox.Proofs.Grammar.StatementReading
import Lox.Proofs.Token.Written
import Lox.Proofs.Tree.Legal
import Lox.Proofs.Tree.Arranged
import Lox.Proofs.Tree.Numbering
import Lox.Proofs.Scope.Visit
import Lox.Proofs.Scope.Shape
import Lox.Proofs.Scope.Resolved
import Lox.Proofs.Machine.Activity
import Lox.Proofs.Machine.Growth
import Lox.Proofs.Machine.Frame
import Lox.Proofs.Machine.Place
import Lox.Proofs.Machine.Timeline
import Lox.Proofs.Machine.Soundness
import Lox.Proofs.Machine.Rules
import Lox.Proofs.Machine.Lookup
import Lox.Proofs.Machine.Evaluation
import Lox.Proofs.Machine.Execution
import Lox.Proofs.Machine.Simulation
import Lox.Proofs.Scope.Unique
import Lox.Proofs.Session.History
import Lox.Proofs.Session.Chronicle
import Lox.Proofs.Session.Environments
import Lox.Proofs.Session.InternalFaults
import Lox.Proofs.Session.Located
import Lox.Proofs.Session.Place
import Lox.Proofs.Grammar.Spelling
import Lox.Proofs.Grammar.Spelled
import Lox.Proofs.Grammar.Rereading
import Lox.Proofs.Grammar.Derivation
import Lox.Proofs.Number.ReadBack
import Lox.Proofs.Token.Lexing
import Lox.Proofs.Tree.Words
import Lox.Proofs.Grammar.Respelling
import Lox.Proofs.Tree.RoundTrip
import Lox.Proofs.Machine.Termination
import Lox.Proofs.Tree.Loops
import Lox.Proofs.Machine.Fuel
import Lox.Proofs.Session.Steps
import Lox.Proofs.Session.Super
import Lox.Proofs.Session.Joining
import Lox.Proofs.Session.Termination
import Lox.Proofs.Machine.Alike
import Lox.Proofs.Machine.AlikeEvaluation
import Lox.Proofs.Machine.AlikeExecution
import Lox.Proofs.Machine.AlikeActivity
import Lox.Proofs.Grammar.AlikeReading
import Lox.Proofs.Scope.Alike
import Lox.Proofs.Session.Renumbering
import Lox.Proofs.Session.Refused
import Lox.Proofs.Tree.Renaming
import Lox.Proofs.Scope.Names
import Lox.Proofs.Scope.Renaming
import Lox.Proofs.Grammar.Relabelling
import Lox.Proofs.Token.Relabelling
import Lox.Proofs.Session.Renaming
import Lox.Proofs.Tree.Occurrence
import Lox.Proofs.Scope.Places
import Lox.Proofs.Scope.Distances
import Lox.Proofs.Scope.Misuses
import Lox.Proofs.Session.Numbering
import Lox.Proofs.Grammar.Ladder
import Lox.Proofs.Token.Bytes
import Lox.Proofs.Token.Scanning
import Lox.Proofs.Token.Coverage
import Lox.Proofs.Token.LongestMatch
import Lox.Proofs.Machine.Collection
import Lox.Proofs.Grammar.Composing
import Lox.Proofs.Machine.Watching
import Lox.Proofs.Session.Arguments
import Lox.Proofs.Session.Returns
import Lox.Proofs.Machine.ForLoops
import Lox.Proofs.Number.Overflow
import Lox.Proofs.Grammar.ComplaintOrder
import Lox.Proofs.Grammar.Gluing
import Lox.Proofs.Grammar.Endings
import Lox.Proofs.Grammar.Gaps
import Lox.Proofs.Grammar.LongLists
import Lox.Proofs.Grammar.MissingSemicolon
import Lox.Proofs.Token.Layout
import Lox.Proofs.Session.Output
import Lox.Proofs.Grammar.Tape
import Lox.Proofs.Grammar.TapeReading

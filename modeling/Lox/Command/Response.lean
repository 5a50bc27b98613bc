import Lox.Command.Arguments
import Lox.Command.Prompt
import Lox.Command.Script
import Lox.Text.Quoted
import Lox.Tree.Encoding
import Lox.Tree.Source

namespace Lox

namespace Exit

def failure : Nat := 1

def usage : Nat := 64

def dataError : Nat := 65

def software : Nat := 70

end Exit

structure Response where
  exit : Nat
  written : Written
deriving DecidableEq

namespace Response

def versionText : String := "rox 0.2.0\n"

def helpText : String :=
  "Lox language interpreter\n\nUsage: rox [OPTIONS] <COMMAND>\n\nCommands:\n"
    ++ "  tokenize  Tokenizes input from a file, printing each token\n"
    ++ "  parse     Parses a file as a Lox program and prints it back in canonical form\n"
    ++ "  run       Runs a Lox program, or starts a prompt when no file is given\n"
    ++ "  help      Print this message or the help of the given subcommand(s)\n\nOptions:\n"
    ++ "      --log      Enable logging to app.log\n  -h, --help     Print help\n"
    ++ "  -V, --version  Print version\n"

def usageText : String := "Usage: rox [OPTIONS] <COMMAND>\n\nFor more information, try '--help'.\n"

def failed (message : String) : Response := ⟨Exit.failure, ⟨"", "Error: " ++ message ++ "\n"⟩⟩

def fromText (file : String) (script : Script) (answer : String → Option Response) : Option Response :=
  match script with
  | .refused refusal =>
    some (failed ("Failed to " ++ refusal.step ++ " file " ++ Text.quoted file ++ "\n\nCaused by:\n    "
      ++ refusal.cause))
  | .bytes content =>
    match Utf8.decode content with
    | .ok source => answer source
    | .error fault => some (failed fault.message)

def tokenLines : List Lexed → Written
  | [] => .empty
  | .token token :: rest => Written.append ⟨token.display ++ "\n", ""⟩ (tokenLines rest)
  | .fault line fault :: rest =>
    Written.append ⟨"", (Diagnostic.lexical line fault.message).message ++ "\n"⟩ (tokenLines rest)

def tokens (json : Bool) (source : String) : Response :=
  let lexed := Lexer.scan source
  let plain := tokenLines lexed
  let found := lexed.filterMap Lexed.token?
  let written : Written :=
    if json then { plain with out := (Json.array (found.map Token.toJson)).pretty 0 ++ "\n" } else plain
  ⟨if found.length = lexed.length then 0 else Exit.dataError, written⟩

def program (session : Session) (json : Bool) (source : String) : Response :=
  let (tokens, session) := session.scan source
  let (program, session) := session.parse tokens
  if session.flags.static then ⟨Exit.dataError, .ofLines session.takeLines.1⟩
  else ⟨0, ⟨if json then (programJson program).pretty 0 ++ "\n" else programSource program, ""⟩⟩

def exitOf (flags : Flags) : Nat :=
  if flags.static then Exit.dataError else if flags.runtime then Exit.software else 0

def ofRun (fuel : Nat) (session : Session) (source : String) : Option Response := do
  let session ← session.run fuel source
  return ⟨exitOf session.flags, .ofLines session.takeLines.1⟩

def ofPrompt (fuel : Nat) (session : Session) (input : List UInt8) : Option Response := do
  let (written, readable) ← Prompt.converse fuel session (Prompt.cutLines input)
  return ⟨if readable then 0 else Exit.failure, Written.append ⟨Prompt.greeting, ""⟩ written⟩

end Response

/-- What a command answers in a new session, given the files and the standard input. -/
def Command.respond (fuel : Nat) (session : Session) (files : String → Script) (input : List UInt8) :
    Command → Option Response
  | .tokenize file json => Response.fromText file (files file) fun source => some (.tokens json source)
  | .parse file json =>
    Response.fromText file (files file) fun source => some (.program session json source)
  | .run file => Response.fromText file (files file) (Response.ofRun fuel session)
  | .prompt => Response.ofPrompt fuel session input

def Request.respond (fuel : Nat) (session : Session) (files : String → Script) (input : List UInt8) :
    Request → Option Response
  | .perform command _ => command.respond fuel session files input
  | .version => some ⟨0, ⟨Response.versionText, ""⟩⟩
  | .help => some ⟨0, ⟨Response.helpText, ""⟩⟩
  | .misuse => some ⟨Exit.usage, ⟨"", Response.usageText⟩⟩

def Request.logs : Request → Bool
  | .perform _ log => log
  | _ => false

end Lox

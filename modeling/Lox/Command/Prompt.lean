import Lox.Session
import Lox.Text.Blank
import Lox.Text.Utf8

namespace Lox

structure Written where
  out : String
  error : String
deriving DecidableEq

namespace Written

def empty : Written := ⟨"", ""⟩

def append (a b : Written) : Written := ⟨a.out ++ b.out, a.error ++ b.error⟩

def ofLines : List Line → Written
  | [] => empty
  | .out text :: rest => append ⟨text ++ "\n", ""⟩ (ofLines rest)
  | .error text :: rest => append ⟨"", text ++ "\n"⟩ (ofLines rest)

end Written

namespace Prompt

def greeting : String := "Running Lox in interactive mode.\nType \"quit\" to exit.\n"

def mark : String := "> "

def unreadableMessage : String :=
  "Error: Failed to read from stdin\n\nCaused by:\n    stream did not contain valid UTF-8\n"

inductive Step where
  | next (session : Session) (written : Written)
  | quit
  | unreadable

/-- Runs one line of input, which still has its line end. -/
def step (fuel : Nat) (session : Session) (line : List UInt8) : Option Step :=
  match Utf8.decode line with
  | .error _ => some .unreadable
  | .ok text =>
    let source := Text.trimEnd text
    if source = "quit" then some .quit
    else do
      let (lines, session) := (← session.run fuel source).resetErrors.takeLines
      return .next session (.ofLines lines)

def cutLines : List UInt8 → List (List UInt8)
  | [] => []
  | byte :: rest =>
    if byte = 0x0a then [byte] :: cutLines rest
    else match cutLines rest with
      | [] => [[byte]]
      | line :: lines => (byte :: line) :: lines

def converse (fuel : Nat) (session : Session) : List (List UInt8) → Option (Written × Bool)
  | [] => some (⟨mark ++ "\n", ""⟩, true)
  | line :: lines => do
    match ← step fuel session line with
    | .quit => return (⟨mark, ""⟩, true)
    | .unreadable => return (⟨mark, unreadableMessage⟩, false)
    | .next session written =>
      let (rest, readable) ← converse fuel session lines
      return ((Written.append ⟨mark, ""⟩ written).append rest, readable)

end Prompt
end Lox

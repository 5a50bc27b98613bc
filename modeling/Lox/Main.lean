import Std.Time.DateTime.Timestamp
import Lox.Command.Response

namespace Lox.CommandLine

def readScript (file : String) : IO Script := do
  try
    return .bytes (← IO.FS.readBinFile file).toList
  catch
    | .noFileOrDirectory .. => return .refused .missing
    | .permissionDenied .. => return .refused .denied
    | .inappropriateType _ 21 _ => return .refused .folder
    | .inappropriateType .. => return .refused .notFolder
    | .invalidArgument .. => return .refused .nameTooLong
    | e => return .refused (.other (toString e))

def writeOut (written : Written) : IO Unit := do
  let out ← IO.getStdout
  out.putStr written.out
  out.flush
  (← IO.getStderr).putStr written.error

partial def readLine (input : IO.FS.Stream) (line : ByteArray) : IO ByteArray := do
  let byte ← input.read 1
  if byte.isEmpty then return line
  let line := line ++ byte
  if byte.toList = [0x0a] then return line else readLine input line

partial def promptLoop (session : Session) : IO UInt32 := do
  writeOut ⟨Prompt.mark, ""⟩
  let line ← readLine (← IO.getStdin) ByteArray.empty
  if line.isEmpty then
    writeOut ⟨"\n", ""⟩
    return 0
  match Prompt.step Session.ampleFuel session line.toList with
  | some (.next session written) =>
    writeOut written
    promptLoop session
  | some .unreadable =>
    writeOut ⟨"", Prompt.unreadableMessage⟩
    return Exit.failure.toUInt32
  | _ => return 0

/-- A clock that starts so many microseconds after the Unix epoch, and gains one with every reading. -/
def readings (start : Nat) (taken : Nat) : Number := .ofDecimal (start + taken) (-6)

end Lox.CommandLine

open Lox CommandLine in
def main (arguments : List String) : IO UInt32 := do
  let request := Request.ofArguments arguments
  if request.logs then IO.FS.writeFile "app.log" ""
  let now ← Std.Time.Timestamp.now
  let session := Session.start (readings (now.toNanosecondsSinceUnixEpoch.toInt.toNat / 1000))
  match request with
  | .perform .prompt _ =>
    writeOut ⟨Prompt.greeting, ""⟩
    promptLoop session
  | request =>
    let script ← match request with
      | .perform (.tokenize file _) _ | .perform (.parse file _) _ | .perform (.run file) _ => readScript file
      | _ => pure (.bytes [])
    match request.respond Session.ampleFuel session (fun _ => script) [] with
    | some response =>
      writeOut response.written
      return response.exit.toUInt32
    | none => return Exit.software.toUInt32

import Lox.Text.Extending
import Lox.Text.Unprintable

namespace Lox.Text

def codePoint (c : Char) : List Char := ['\\', 'u', '\x7b'] ++ Nat.toDigits 16 c.toNat ++ ['\x7d']

def escape (c : Char) : List Char :=
  match c with
  | '"' => ['\\', '"']
  | '\\' => ['\\', '\\']
  | '\n' => ['\\', 'n']
  | '\r' => ['\\', 'r']
  | '\t' => ['\\', 't']
  | '\x00' => ['\\', '0']
  | _ => if isExtending c || isUnprintable c then codePoint c else [c]

def quoted (text : String) : String := "\"" ++ String.ofList (text.toList.flatMap escape) ++ "\""

end Lox.Text

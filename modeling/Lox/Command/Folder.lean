import Lox.Command.Script

namespace Lox

inductive Entry where
  | file (content : List UInt8)
  | folder (entries : List (String × Entry))

structure Place where
  entry : Entry
  around : List Entry

namespace Place

def maxName : Nat := 255

def maxPath : Nat := 4095

def outer (p : Place) : Place :=
  match p.around with
  | [] => p
  | entry :: around => ⟨entry, around⟩

def root (p : Place) : Place := ⟨p.around.getLastD p.entry, []⟩

/-- One part of a path. A part without a name, as behind a slash at the end, stays in its folder. -/
def enter (p : Place) (part : String) : Except Refusal Place :=
  match p.entry with
  | .file _ => .error .notFolder
  | .folder entries =>
    if part = "" ∨ part = "." then .ok p
    else if part = ".." then .ok p.outer
    else if maxName < part.utf8ByteSize then .error .nameTooLong
    else match entries.lookup part with
      | some entry => .ok ⟨entry, p.entry :: p.around⟩
      | none => .error .missing

def follow (p : Place) : List String → Except Refusal Place
  | [] => .ok p
  | part :: rest => do (← p.enter part).follow rest

/-- What a path leads to: from the outermost folder if it begins with a slash, else from here. -/
def find (p : Place) (path : String) : Except Refusal Place :=
  if path.isEmpty then .error .missing
  else if maxPath < path.utf8ByteSize then .error .nameTooLong
  else (if path.front = '/' then p.root else p).follow (path.splitOn "/")

def read (p : Place) (path : String) : Script :=
  match p.find path with
  | .ok ⟨.file content, _⟩ => .bytes content
  | .ok ⟨.folder _, _⟩ => .refused .folder
  | .error refusal => .refused refusal

end Place

end Lox

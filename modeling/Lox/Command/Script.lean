namespace Lox

inductive Refusal where
  | missing
  | denied
  | notFolder
  | nameTooLong
  /-- A folder can be opened but has no content to read. -/
  | folder
  | other (cause : String)
deriving DecidableEq

namespace Refusal

def step : Refusal → String
  | folder => "map"
  | _ => "open"

def cause : Refusal → String
  | missing => "No such file or directory (os error 2)"
  | denied => "Permission denied (os error 13)"
  | notFolder => "Not a directory (os error 20)"
  | nameTooLong => "File name too long (os error 36)"
  | folder => "No such device (os error 19)"
  | other cause => cause

end Refusal

inductive Script where
  | bytes (content : List UInt8)
  | refused (refusal : Refusal)

end Lox

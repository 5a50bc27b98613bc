namespace Lox

inductive Command where
  | tokenize (file : String) (json : Bool)
  | parse (file : String) (json : Bool)
  | run (file : String)
  | prompt
deriving DecidableEq

inductive Request where
  | perform (command : Command) (log : Bool)
  | version
  | help
  | misuse
deriving DecidableEq

namespace Arguments

inductive Verb where
  | tokenize | parse | run
deriving DecidableEq

def Verb.ofWord? : String → Option Verb
  | "tokenize" => some .tokenize
  | "parse" => some .parse
  | "run" => some .run
  | _ => none

structure Seen where
  file? : Option String
  json : Bool
  log : Bool

/-- A word taken as the name of a file; there is room for one, and no name is empty. -/
def Seen.addFile? (seen : Seen) (word : String) : Option Seen :=
  if seen.file?.isSome ∨ word.isEmpty then none else some { seen with file? := some word }

def Seen.request (seen : Seen) (verb : Verb) (log : Bool) : Request :=
  let log := log || seen.log
  match verb, seen.file? with
  | .tokenize, some file => .perform (.tokenize file seen.json) log
  | .parse, some file => .perform (.parse file seen.json) log
  | .run, some file => .perform (.run file) log
  | .run, none => .perform .prompt log
  | _, none => .misuse

def files (verb : Verb) (log : Bool) (seen : Seen) : List String → Request
  | [] => seen.request verb log
  | word :: rest =>
    match seen.addFile? word with
    | some seen => files verb log seen rest
    | none => .misuse

def isOption (word : String) : Bool := word.startsWith "-" && word != "-"

/-- A group of one-letter options is settled by its first letter. -/
def asksHelp (word : String) : Bool :=
  word == "--help" || (word.startsWith "-h" && !word.startsWith "--")

def asksVersion (word : String) : Bool :=
  word == "--version" || (word.startsWith "-V" && !word.startsWith "--")

def afterVerb (verb : Verb) (log : Bool) (seen : Seen) : List String → Request
  | [] => seen.request verb log
  | word :: rest =>
    if word = "--" then files verb log seen rest
    else if asksHelp word then .help
    else if word = "--log" ∧ ¬ seen.log then afterVerb verb log { seen with log := true } rest
    else if word = "--json" ∧ ¬ seen.json ∧ verb ≠ .run then
      afterVerb verb log { seen with json := true } rest
    else if isOption word then .misuse
    else match seen.addFile? word with
      | some seen => afterVerb verb log seen rest
      | none => .misuse

def helpOn (rest : List String) : Request :=
  match rest with
  | [] => .help
  | ["help"] => .help
  | [word] => if (Verb.ofWord? word).isSome then .help else .misuse
  | _ => .misuse

def beforeVerb (log : Bool) : List String → Request
  | [] => .misuse
  | word :: rest =>
    if asksHelp word then .help
    else if asksVersion word then .version
    else if word = "--log" ∧ ¬ log then beforeVerb true rest
    else if word = "help" then helpOn rest
    else match Verb.ofWord? word with
      | some verb => afterVerb verb log ⟨none, false, false⟩ rest
      | none => .misuse

end Arguments

def Request.ofArguments (arguments : List String) : Request := Arguments.beforeVerb false arguments

end Lox

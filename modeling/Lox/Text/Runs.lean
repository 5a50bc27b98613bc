namespace Lox.Text

/-- How many code points follow one another out of the set, then in it, then out of it again, and so
    on from zero. What is behind the last run is out of the set. -/
abbrev Runs := List Nat

namespace Runs

def holds : Runs → Nat → Bool
  | out :: inside :: rest, n =>
      if n < out then false
      else if n < out + inside then true
      else holds rest (n - (out + inside))
  | _, _ => false

end Runs

end Lox.Text

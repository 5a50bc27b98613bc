import Std.Data.TreeMap
import Lox.Store

namespace Lox

inductive Line where
  | out (text : String)
  | error (text : String)
deriving DecidableEq

structure Clock where
  reading : Nat → Number
  taken : Nat

structure Machine where
  globals : Environment
  environment : Environment
  /-- How many calls are being run, one inside the other. -/
  depth : Nat
  /-- How far out the local references are bound. -/
  distances : Std.TreeMap NodeId Nat
  store : Store
  lines : Array Line
  clock : Clock

def maxCallDepth : Nat := 1024

namespace Machine

def start (readings : Nat → Number) : Machine :=
  let (globals, store) := Store.empty.root
  { globals := globals
    environment := globals
    depth := 0
    distances := ∅
    store := store.define globals "clock" (.native .clock)
    lines := #[]
    clock := ⟨readings, 0⟩ }

def write (m : Machine) (line : Line) : Machine := { m with lines := m.lines.push line }

def setDistance (m : Machine) (id : NodeId) (distance : Nat) : Machine :=
  { m with distances := m.distances.insert id distance }

end Machine

inductive Outcome (α : Type) where
  | value (result : α) (machine : Machine)
  | fault (fault : Fault) (machine : Machine)
  | outOfFuel

def Run (α : Type) : Type := Machine → Outcome α

namespace Run

variable {α β : Type}

@[always_inline, inline] def pure (result : α) : Run α := fun m => .value result m

@[always_inline, inline] def bind (action : Run α) (next : α → Run β) : Run β := fun m =>
  match action m with
  | .value result m => next result m
  | .fault fault m => .fault fault m
  | .outOfFuel => .outOfFuel

@[always_inline] instance : Monad Run where
  pure := Run.pure
  bind := Run.bind

@[always_inline, inline] def fail (fault : Fault) : Run α := fun m => .fault fault m

def outOfFuel : Run α := fun _ => .outOfFuel

@[always_inline, inline] def read (f : Machine → α) : Run α := fun m => .value (f m) m

@[always_inline, inline] def modify (f : Machine → Machine) : Run Unit := fun m => .value () (f m)

@[always_inline, inline] def tryRead (f : Machine → Except Fault α) : Run α := fun m =>
  match f m with
  | .ok result => .value result m
  | .error fault => .fault fault m

@[always_inline, inline] def onStore (f : Store → α × Store) : Run α := fun m =>
  let (result, store) := f m.store
  .value result { m with store := store }

@[inline] def assignIn (find : Machine → Except Fault ScopeId) (name : String) (value : Value) : Run Unit :=
  bind (tryRead find) fun scope => onStore fun s => ((), s.bind scope name value)

/-- Runs an action in another environment and comes back, however the action ends. -/
@[inline] def within (environment : Environment) (action : Run α) : Run α := fun m =>
  let previous := m.environment
  match action { m with environment := environment } with
  | .value result m => .value result { m with environment := previous }
  | .fault fault m => .fault fault { m with environment := previous }
  | .outOfFuel => .outOfFuel

/-- Runs an action one call deeper and comes back, however the action ends. -/
@[inline] def deeper (action : Run α) : Run α := fun m =>
  match action { m with depth := m.depth + 1 } with
  | .value result m => .value result { m with depth := m.depth - 1 }
  | .fault fault m => .fault fault { m with depth := m.depth - 1 }
  | .outOfFuel => .outOfFuel

def readClock : Run Number := fun m =>
  .value (m.clock.reading m.clock.taken) { m with clock := { m.clock with taken := m.clock.taken + 1 } }

end Run
end Lox

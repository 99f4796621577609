import Scriptlet.Value

namespace Scriptlet

/-- Why a host function gave no value. -/
inductive Refusal where
  | notInteger (got : Value)
  | missingArgument (position : Nat)
  | stated (reason : String)
  deriving DecidableEq, Repr

def Refusal.message : Refusal → String
  | notInteger got => "Expected integer, got '" ++ got.text ++ "'"
  | missingArgument position => "Argument " ++ decimal position ++ " is missing"
  | stated reason => reason

def Value.toInteger : Value → Except Refusal Integer
  | .int i => .ok i
  | v => .error (.notInteger v)

/-- The argument at a position, counted from zero. -/
def argumentAt (arguments : List Value) (position : Nat) : Except Refusal Value :=
  match arguments[position]? with
  | some v => .ok v
  | none => .error (.missingArgument position)

inductive Builtin where
  | eq | lt | gt | not | isZero | print
  deriving DecidableEq, Repr

namespace Builtin

/-- The name under which a builtin function is bound at first. -/
def name : Builtin → String
  | eq => "eq"
  | lt => "lt"
  | gt => "gt"
  | not => "not"
  | isZero => "iszero"
  | print => "print"

def arity : Builtin → Nat
  | eq | lt | gt => 2
  | not | isZero | print => 1

/-- What a builtin function answers. Printing answers null; that its argument is to be
    printed can be seen from the record of the call. -/
def run (arguments : List Value) : Builtin → Except Refusal Value
  | eq => do
    let left ← argumentAt arguments 0
    let right ← argumentAt arguments 1
    return .bool (left = right)
  | lt => do
    let left ← (← argumentAt arguments 0).toInteger
    let right ← (← argumentAt arguments 1).toInteger
    return .bool (left < right)
  | gt => do
    let left ← (← argumentAt arguments 0).toInteger
    let right ← (← argumentAt arguments 1).toInteger
    return .bool (right < left)
  | not => do return .bool !(← argumentAt arguments 0).truthy
  | isZero => do return .bool ((← (← argumentAt arguments 0).toInteger) = 0)
  | print => do
    let _ ← argumentAt arguments 0
    return .null

end Builtin

/-- A host function: a builtin one, or one that a host registered. Each registration
    has its own number. -/
inductive HostFunction where
  | builtin (function : Builtin)
  | registered (number : Nat) (arity : Nat)
  deriving DecidableEq, Repr

/-- How the functions behave that a host registered, by their numbers. They are assumed to
    answer every call, with a value or a refusal, and to answer the same to the same
    arguments: no earlier call and nothing outside the program has an influence on it. -/
abbrev Host := Nat → List Value → Except Refusal Value

def Host.bare : Host := fun _ _ => .error (.stated "Not a registered function")

namespace HostFunction

def arity : HostFunction → Nat
  | builtin function => function.arity
  | registered _ arity => arity

def run (host : Host) (arguments : List Value) : HostFunction → Except Refusal Value
  | builtin function => function.run arguments
  | registered number _ => host number arguments

end HostFunction

structure HostCall where
  function : HostFunction
  arguments : List Value
  deriving DecidableEq, Repr

def HostCall.printed (call : HostCall) : List String :=
  match call with
  | ⟨.builtin .print, argument :: _⟩ => [argument.text]
  | _ => []

end Scriptlet

import Scriptlet.Environment

/-!
Evaluation hands the environment from step to step and keeps a record of the host
functions it calls. An error ends it, and the environment is then the one in force where
the error arose (`bind_error`). A called function works in an environment of its own,
which is gone when it returns. Calls may not nest deeper than a given bound; an evaluation
that would go deeper gives nothing at all, which is neither a value nor an error of the
program.
-/
namespace Scriptlet

/-- What an evaluation that ends leaves behind: its outcome, the environment, and the
    host calls it made, in order. -/
structure Evaluated (α : Type) where
  outcome : Outcome α
  environment : Environment
  calls : List HostCall
  deriving DecidableEq

/-- A step of evaluation; it gives nothing if calls nest too deeply in it. -/
def Evaluation (α : Type) := Environment → Option (Evaluated α)

namespace Evaluation
variable {α β : Type}

protected def pure (result : α) : Evaluation α := fun env => some ⟨.value result, env, []⟩

protected def bind (first : Evaluation α) (next : α → Evaluation β) : Evaluation β := fun env =>
  match first env with
  | none => none
  | some ⟨.error e, env, calls⟩ => some ⟨.error e, env, calls⟩
  | some ⟨.value result, env, calls⟩ =>
    (next result env).map fun later => { later with calls := calls ++ later.calls }

instance : Monad Evaluation where
  pure := Evaluation.pure
  bind := Evaluation.bind

theorem bind_value {first : Evaluation α} {next : α → Evaluation β} {env after : Environment} {result : α}
    {calls : List HostCall} (ended : first env = some ⟨.value result, after, calls⟩) :
    (first >>= next) env = (next result after).map fun later => { later with calls := calls ++ later.calls } := by
  change Evaluation.bind first next env = _
  rw [Evaluation.bind, ended]

theorem bind_error {first : Evaluation α} {next : α → Evaluation β} {env after : Environment} {reason : EvalError}
    {calls : List HostCall} (ended : first env = some ⟨.error reason, after, calls⟩) :
    (first >>= next) env = some ⟨.error reason, after, calls⟩ := by
  change Evaluation.bind first next env = _
  rw [Evaluation.bind, ended]

theorem bind_none {first : Evaluation α} {next : α → Evaluation β} {env : Environment} (deep : first env = none) :
    (first >>= next) env = none := by
  change Evaluation.bind first next env = _
  rw [Evaluation.bind, deep]

def fail (reason : EvalError) : Evaluation α := fun env => some ⟨.error reason, env, []⟩

def orFail (reason : EvalError) : Option α → Evaluation α
  | some result => pure result
  | none => fail reason

/-- The value of a variable, null if it is not bound, or the error it is bound to. -/
def lookup (name : String) : Evaluation Value := fun env =>
  some ⟨env.values[name]?.getD (.value .null), env, []⟩

/-- Binding a variable gives null. -/
def assign (name : String) (value : Value) : Evaluation Value := fun env =>
  some ⟨.value .null, env.withVariable name (.value value), []⟩

def define (name : String) (function : Callable) : Evaluation Value := fun env =>
  some ⟨.value .null, env.withFunction name function, []⟩

/-- The function that a name stands for, if it takes so many arguments. -/
def callee (name : String) (actual : Nat) : Evaluation Callable := fun env =>
  match env.functions[name]? with
  | none => fail (.undefinedFunction name) env
  | some function =>
    if function.arity = actual then Evaluation.pure function env
    else fail (.argumentCount name function.arity actual) env

/-- A call of a host function is recorded, and a refusal becomes an error that names the
    function as the program did. -/
def callHost (host : Host) (name : String) (function : HostFunction) (arguments : List Value) :
    Evaluation Value := fun env =>
  match function.run host arguments with
  | .ok value => some ⟨.value value, env, [⟨function, arguments⟩]⟩
  | .error refusal => some ⟨.error (.rejected name refusal.message), env, [⟨function, arguments⟩]⟩

def operand : Value → Evaluation Integer
  | .int i => pure i
  | v => fail (.operandNotInteger v)

def signed : Value → Evaluation Integer
  | .int i => pure i
  | v => fail (.signedNotInteger v)

end Evaluation

open Evaluation

/-- How a defined function is called: its parameters, its body and its arguments. -/
abbrev Caller := List String → List Node → List Value → Evaluation Value

mutual
def evaluateNode (host : Host) (call : Caller) : Node → Evaluation Value
  | .source statements => evaluateBlock host call .null statements
  | .functionDef name parameters body => define name (.defined parameters body)
  | .assignment name value => do assign name (← evaluateNode host call value)
  | .conditional condition yes no => do
    if (← evaluateNode host call condition).truthy then
      evaluateBlock host call .null yes
    else
      match no with
      | some no => evaluateBlock host call .null no
      | none => return .null
  | .add left right => do
    let left ← operand (← evaluateNode host call left)
    let right ← operand (← evaluateNode host call right)
    return .int (← orFail (.sumOverflow left right) (left.add? right))
  | .subtract left right => do
    let left ← operand (← evaluateNode host call left)
    let right ← operand (← evaluateNode host call right)
    return .int (← orFail (.differenceOverflow left right) (left.sub? right))
  | .plus value => do return .int (← signed (← evaluateNode host call value))
  | .minus value => do
    let value ← signed (← evaluateNode host call value)
    return .int (← orFail (.negationOverflow value) value.neg?)
  | .var name => lookup name
  | .call name arguments => do
    let function ← callee name arguments.length
    let arguments ← evaluateAll host call arguments
    match function with
    | .host function => callHost host name function arguments
    | .defined parameters body => call parameters body arguments
  | .int value => return .int value
  | .bool value => return .bool value
  | .null => return .null
  | .syntaxError message => fail (.cannotEvaluate (.syntaxError message))

/-- Evaluation of statements in order, after one that gave `last`: the value is that of
    the last statement. -/
def evaluateBlock (host : Host) (call : Caller) (last : Value) : List Node → Evaluation Value
  | [] => return last
  | statement :: statements => do
    evaluateBlock host call (← evaluateNode host call statement) statements

def evaluateAll (host : Host) (call : Caller) : List Node → Evaluation (List Value)
  | [] => return []
  | argument :: arguments => do
    let value ← evaluateNode host call argument
    let values ← evaluateAll host call arguments
    return value :: values
end

/-- The call of a defined function, with at most `depth` calls inside one another. Its
    body runs in a fresh frame, and the caller's environment comes back unchanged. -/
def callDefined (host : Host) : (depth : Nat) → Caller
  | 0 => fun _ _ _ _ => none
  | depth + 1 => fun parameters body arguments env =>
    let frame := env.callFrame (parameters.zip (arguments.map .value))
    (evaluateBlock host (callDefined host depth) .null body frame).map fun ended =>
      { ended with environment := env }

/-- Evaluation of a node, with at most `depth` calls inside one another. -/
def evaluate (host : Host) (depth : Nat) (node : Node) : Evaluation Value :=
  evaluateNode host (callDefined host depth) node

def defaultDepth : Nat := 10000

end Scriptlet

import Scriptlet.Node

namespace Scriptlet

/-- The values of the language, which are also what host functions take and give. -/
inductive Value where
  | int (value : Integer)
  | bool (value : Bool)
  | null
  deriving DecidableEq, Repr, Inhabited

namespace Value

def text : Value → String
  | int i => i.text
  | bool true => "true"
  | bool false => "false"
  | null => "null"

def typeName : Value → String
  | int _ => "integer"
  | bool _ => "boolean"
  | null => "null"

/-- A condition holds unless its value is false or null. -/
def truthy : Value → Bool
  | bool false => false
  | null => false
  | _ => true

end Value

/-- Why an evaluation stopped. Reasons are texts, because a host may state its own; the
    reasons that evaluation itself gives are built by the functions below. -/
inductive EvalError where
  | evaluator (reason : String) (node : Option Node)
  | type (reason : String)
  | undefinedFunction (name : String)
  | argumentCount (name : String) (expected actual : Nat)
  | rejected (name : String) (reason : String)
  deriving DecidableEq, Repr

namespace EvalError

def kind : EvalError → String
  | evaluator .. => "EvaluatorError"
  | type _ => "TypeError"
  | undefinedFunction _ => "UndefinedFunctionError"
  | argumentCount .. => "ArgumentsCountError"
  | rejected .. => "FunctionTypeError"

def message : EvalError → String
  | evaluator reason _ => "Evaluator error: " ++ reason
  | type reason => "Type error: " ++ reason
  | undefinedFunction name => "Undefined function '" ++ name ++ "'"
  | argumentCount name expected actual =>
    "Function '" ++ name ++ "' takes " ++ decimal expected ++ " arguments but " ++ decimal actual ++ " were given"
  | rejected name reason => "Function '" ++ name ++ "' rejected its arguments: " ++ reason

def cannotEvaluate (node : Node) : EvalError :=
  evaluator ("Cannot evaluate node '" ++ node.kind ++ "'") (some node)

def sumOverflow (left right : Integer) : EvalError :=
  evaluator ("integer overflow in " ++ left.text ++ " + " ++ right.text) none

def differenceOverflow (left right : Integer) : EvalError :=
  evaluator ("integer overflow in " ++ left.text ++ " - " ++ right.text) none

def negationOverflow (operand : Integer) : EvalError :=
  evaluator ("integer overflow in -(" ++ operand.text ++ ")") none

def operandNotInteger (got : Value) : EvalError :=
  type ("Expected integer, got '" ++ got.typeName ++ "'")

def signedNotInteger (got : Value) : EvalError :=
  evaluator ("Unary operator expects integer, got '" ++ got.typeName ++ "'") none

end EvalError

/-- A result, or the error that prevented it. -/
inductive Outcome (α : Type) where
  | value (result : α)
  | error (reason : EvalError)
  deriving DecidableEq, Repr

namespace Outcome

def text : Outcome Value → String
  | value v => v.text
  | error e => e.message

def typeName : Outcome Value → String
  | value v => v.typeName
  | error e => e.kind

def isError {α : Type} : Outcome α → Bool
  | value _ => false
  | error _ => true

/-- An error counts as true. -/
def truthy : Outcome Value → Bool
  | value v => v.truthy
  | error _ => true

/-- What a host function would see: an error turns into null. -/
def toValue : Outcome Value → Value
  | value v => v
  | error _ => .null

end Outcome
end Scriptlet

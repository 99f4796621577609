import Scriptlet.Parsing
import Scriptlet.Evaluation

/-!
Program texts evaluated one after another in one environment. What a text binds stays
bound for the next one, also if the text ends in an error, except that a text with a
syntax error does nothing.
-/
namespace Scriptlet

/-- The evaluation of a program text on its own. A syntax error is the error of
    evaluating its node. -/
def run (host : Host) (depth : Nat) (source : String) : Evaluation Value :=
  evaluate host depth (parseText source)

inductive Failure where
  | syntaxError (reason : SyntaxError)
  | evaluation (reason : EvalError)
  deriving DecidableEq, Repr

def Failure.message : Failure → String
  | syntaxError reason => "Syntax error: " ++ reason.message
  | evaluation reason => reason.message

inductive Answer where
  | value (result : Value)
  | failure (reason : Failure)
  deriving DecidableEq, Repr

def Answer.ofOutcome : Outcome Value → Answer
  | .value v => value v
  | .error reason => failure (.evaluation reason)

structure Answered where
  answer : Answer
  environment : Environment
  calls : List HostCall
  deriving DecidableEq

namespace Session

def answer (host : Host) (depth : Nat) (env : Environment) (source : String) : Option Answered :=
  match Parsing.program (tokenize source) with
  | .error reason => some ⟨.failure (.syntaxError reason), env, []⟩
  | .ok statements => (evaluate host depth (.source statements) env).map fun ended =>
      ⟨.ofOutcome ended.outcome, ended.environment, ended.calls⟩

/-- The answers to several texts in order. Errors do not end a session. -/
def answers (host : Host) (depth : Nat) (env : Environment) : List String → Option (List Answered)
  | [] => some []
  | source :: sources => do
    let answered ← answer host depth env source
    return answered :: (← answers host depth answered.environment sources)

end Session
end Scriptlet

import Scriptlet.Host
import Scriptlet.Node.Description

namespace Scriptlet

/-- A function of the host, or one that a program defined. Host functions are equal if they
    come from the same registration, defined ones if their parameters and bodies are. -/
inductive Callable where
  | host (function : HostFunction)
  | defined (parameters : List String) (body : List Node)
  deriving DecidableEq, Repr

namespace Callable

def arity : Callable → Nat
  | host function => function.arity
  | defined parameters _ => parameters.length

/-- The description of a function: a host function keeps its behaviour to itself. -/
def describe : Callable → String
  | host function => "Embedded \x7b arity: " ++ decimal function.arity ++ ", .. \x7d"
  | defined parameters body =>
    "Defined \x7b parameters: " ++ Description.bracketed (parameters.map Description.ofName) ++
      ", body: " ++ Description.bracketed (Node.describeList body) ++ " \x7d"

end Callable
end Scriptlet

import Scriptlet.Callable
import Std.Data.ExtTreeMap

/-!
Variables and functions have separate names. An environment is an immutable value, and
two environments are equal exactly if they bind the same names to the same things.
-/
namespace Scriptlet

abbrev FunctionTable := Std.ExtTreeMap String Callable

/-- What the names of a program stand for: its variables have values, and a host may also
    bind one to an error. -/
structure Environment where
  values : Std.ExtTreeMap String (Outcome Value)
  functions : FunctionTable
  deriving DecidableEq

namespace Environment

def empty : Environment := ⟨∅, ∅⟩

def withVariable (env : Environment) (name : String) (value : Outcome Value) : Environment :=
  { env with values := env.values.insert name value }

def withFunction (env : Environment) (name : String) (function : Callable) : Environment :=
  { env with functions := env.functions.insert name function }

/-- The environment in which the body of a called function runs: the same functions,
    and no variables but the bindings. Of two bindings of a name the later one counts. -/
def callFrame (env : Environment) (bindings : List (String × Outcome Value)) : Environment :=
  bindings.foldl (fun frame binding => frame.withVariable binding.1 binding.2) ⟨∅, env.functions⟩

def withBuiltin (env : Environment) (function : Builtin) : Environment :=
  env.withFunction function.name (.host (.builtin function))

def preludeFunctions : List Builtin := [.eq, .lt, .gt, .not, .isZero]

def prelude : Environment := preludeFunctions.foldl withBuiltin empty

@[ext] theorem ext {left right : Environment} (sameValues : ∀ x : String, left.values[x]? = right.values[x]?)
    (sameFunctions : ∀ f : String, left.functions[f]? = right.functions[f]?) : left = right := by
  cases left
  cases right
  congr
  · exact Std.ExtTreeMap.ext_getElem? sameValues
  · exact Std.ExtTreeMap.ext_getElem? sameFunctions

@[simp] theorem values_withVariable (env : Environment) (x y : String) (v : Outcome Value) :
    (env.withVariable x v).values[y]? = if x = y then some v else env.values[y]? := by
  simp [withVariable, Std.ExtTreeMap.getElem?_insert]

@[simp] theorem functions_withVariable (env : Environment) (x : String) (v : Outcome Value) :
    (env.withVariable x v).functions = env.functions := rfl

@[simp] theorem functions_withFunction (env : Environment) (f g : String) (c : Callable) :
    (env.withFunction f c).functions[g]? = if f = g then some c else env.functions[g]? := by
  simp [withFunction, Std.ExtTreeMap.getElem?_insert]

@[simp] theorem values_withFunction (env : Environment) (f : String) (c : Callable) :
    (env.withFunction f c).values = env.values := rfl

@[simp] theorem functions_callFrame (env : Environment) (bindings : List (String × Outcome Value)) :
    (env.callFrame bindings).functions = env.functions := by
  suffices ∀ frame : Environment, (bindings.foldl (fun frame binding =>
      frame.withVariable binding.1 binding.2) frame).functions = frame.functions from this _
  induction bindings with
  | nil => simp
  | cons binding bindings ih => simp [ih]

end Environment
end Scriptlet

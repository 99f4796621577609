import Scriptlet.Session
import Scriptlet.Entry

namespace Scriptlet

structure Output where
  out : String
  err : String
  deriving DecidableEq, Repr

instance : Append Output := ⟨fun first later => ⟨first.out ++ later.out, first.err ++ later.err⟩⟩

namespace Output

def empty : Output := ⟨"", ""⟩

def line (text : String) : Output := ⟨text ++ "\n", ""⟩

def errorLine (text : String) : Output := ⟨"", text ++ "\n"⟩

def join (outputs : List Output) : Output := outputs.foldr (· ++ ·) empty

end Output

namespace Console

/-- The environment that scripts and entries start in: they can print. -/
def environment (prelude : Bool) : Environment :=
  (if prelude then Environment.prelude else Environment.empty).withBuiltin .print

def tooDeep : String := "Calls are nested too deeply"

def printed (calls : List HostCall) : Output :=
  Output.join ((calls.flatMap HostCall.printed).map Output.line)

/-- A value is shown unless it is null. -/
def shown : Value → Output
  | .null => Output.empty
  | v => Output.line v.text

/-- What an entry prints, and the environment that the next one finds. -/
def enter (depth : Nat) (env : Environment) (entry : String) : Output × Environment :=
  match Session.answer Host.bare depth env (Entry.complete entry) with
  | none => (Output.errorLine tooDeep, env)
  | some ⟨.value v, env, calls⟩ => (printed calls ++ shown v, env)
  | some ⟨.failure reason, env, calls⟩ => (printed calls ++ Output.errorLine reason.message, env)

def enterAll (depth : Nat) (env : Environment) : List String → Output
  | [] => Output.empty
  | entry :: entries =>
    let (output, env) := enter depth env entry
    output ++ enterAll depth env entries

/-- What a script prints, and whether it failed. -/
def script (depth : Nat) (env : Environment) (source : String) : Output × Bool :=
  match Session.answer Host.bare depth env source with
  | none => (Output.errorLine ("Error: " ++ tooDeep), true)
  | some ⟨.value v, _, calls⟩ => (printed calls ++ shown v, false)
  | some ⟨.failure reason, _, calls⟩ =>
    (printed calls ++ Output.errorLine ("Error: " ++ reason.message), true)

end Console
end Scriptlet

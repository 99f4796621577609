import Scriptlet.Proofs.Evaluation.Places

namespace Scriptlet
open Evaluation

/-- A tree with a hole. The parts in front of the hole are evaluated before it, those
    behind the hole after it, if at all. -/
inductive Context where
  | hole
  | source (before : List Node) (inner : Context) (after : List Node)
  | assignment (name : String) (inner : Context)
  | condition (inner : Context) (yes : List Node) (no : Option (List Node))
  | firstBranch (condition : Node) (before : List Node) (inner : Context) (after : List Node) (no : Option (List Node))
  | secondBranch (condition : Node) (yes before : List Node) (inner : Context) (after : List Node)
  | leftOperand (op : Node → Node → Node) (binary : op = .add ∨ op = .subtract) (inner : Context) (right : Node)
  | rightOperand (op : Node → Node → Node) (binary : op = .add ∨ op = .subtract) (left : Node) (inner : Context)
  | signedOperand (op : Node → Node) (unary : op = .plus ∨ op = .minus) (inner : Context)
  | argument (function : String) (before : List Node) (inner : Context) (after : List Node)

namespace Context

def fill (node : Node) : Context → Node
  | hole => node
  | source before inner after => .source (before ++ inner.fill node :: after)
  | assignment x inner => .assignment x (inner.fill node)
  | condition inner yes no => .conditional (inner.fill node) yes no
  | firstBranch c before inner after no => .conditional c (before ++ inner.fill node :: after) no
  | secondBranch c yes before inner after => .conditional c yes (some (before ++ inner.fill node :: after))
  | leftOperand op _ inner right => op (inner.fill node) right
  | rightOperand op _ left inner => op left (inner.fill node)
  | signedOperand op _ inner => op (inner.fill node)
  | argument f before inner after => .call f (before ++ inner.fill node :: after)

/-- The evaluation of the tree in an environment comes to the hole, in the second
    environment and after these host calls. It does if all that stands in front of the
    hole is evaluated without an error, conditions select the branch with the hole, left
    operands are integers, and the functions around the hole are bound when their turn
    comes and take as many arguments. -/
inductive Arrives (host : Host) (call : Caller) : Context → Environment → Environment → List HostCall → Prop
  | hole {env} : Arrives host call .hole env env []
  | source {before inner after env v middle there calls later}
    (ran : evaluateBlock host call .null before env = some ⟨.value v, middle, calls⟩)
    (arrives : Arrives host call inner middle there later) :
    Arrives host call (.source before inner after) env there (calls ++ later)
  | assignment {x inner env there calls} (arrives : Arrives host call inner env there calls) :
    Arrives host call (.assignment x inner) env there calls
  | condition {inner yes no env there calls} (arrives : Arrives host call inner env there calls) :
    Arrives host call (.condition inner yes no) env there calls
  | firstBranch {c before inner after no env v w middle near there calls further later}
    (decided : evaluateNode host call c env = some ⟨.value v, middle, calls⟩) (holds : v.truthy = true)
    (ran : evaluateBlock host call .null before middle = some ⟨.value w, near, further⟩)
    (arrives : Arrives host call inner near there later) :
    Arrives host call (.firstBranch c before inner after no) env there (calls ++ further ++ later)
  | secondBranch {c yes before inner after env v w middle near there calls further later}
    (decided : evaluateNode host call c env = some ⟨.value v, middle, calls⟩) (fails : v.truthy = false)
    (ran : evaluateBlock host call .null before middle = some ⟨.value w, near, further⟩)
    (arrives : Arrives host call inner near there later) :
    Arrives host call (.secondBranch c yes before inner after) env there (calls ++ further ++ later)
  | leftOperand {op binary inner right env there calls} (arrives : Arrives host call inner env there calls) :
    Arrives host call (.leftOperand op binary inner right) env there calls
  | rightOperand {op binary left inner env i middle there calls later}
    (integer : evaluateNode host call left env = some ⟨.value (.int i), middle, calls⟩)
    (arrives : Arrives host call inner middle there later) :
    Arrives host call (.rightOperand op binary left inner) env there (calls ++ later)
  | signedOperand {op unary inner env there calls} (arrives : Arrives host call inner env there calls) :
    Arrives host call (.signedOperand op unary inner) env there calls
  | argument {f before inner after env} {function : Callable} {values middle there calls later}
    (bound : env.functions[f]? = some function) (accepted : function.arity = before.length + 1 + after.length)
    (ran : evaluateAll host call before env = some ⟨.value values, middle, calls⟩)
    (arrives : Arrives host call inner middle there later) :
    Arrives host call (.argument f before inner after) env there (calls ++ later)

theorem Arrives.reaches {host : Host} {call : Caller} {context : Context} {env there : Environment}
    {calls : List HostCall} (arrives : context.Arrives host call env there calls) (node : Node) :
    Reaches host call (context.fill node) env node there calls := by
  induction arrives with
  | hole => exact .here
  | source ran _ ih => exact .inside (.statement ran) ih
  | assignment _ ih => exact .inside .assigned ih
  | condition _ ih => exact .inside .condition ih
  | firstBranch decided holds ran _ ih => exact .inside (.branch decided (by rw [holds]; rfl) ran) ih
  | secondBranch decided fails ran _ ih => exact .inside (.branch decided (by rw [fails]; rfl) ran) ih
  | @leftOperand _ binary _ _ _ _ _ _ ih => exact .inside (.left binary) ih
  | @rightOperand _ binary _ _ _ _ _ _ _ _ integer _ ih => exact .inside (.right binary integer) ih
  | @signedOperand _ unary _ _ _ _ _ ih => exact .inside (.operand unary) ih
  | argument bound accepted ran _ ih =>
    refine .inside (.argument bound ?_ ran) ih
    rw [accepted, List.length_append, List.length_cons, Nat.add_assoc, Nat.add_comm 1]

end Context

section Errors
variable {host : Host} {call : Caller} {node part inner : Node} {env there after : Environment}
  {reason : EvalError} {calls later : List HostCall}

/-- An error passes through every sequence of steps, whatever the steps behind it are. -/
theorem error_carried (reason : EvalError) (after : Environment) :
    Carried (fun _ _ => True) (fun _ _ => True) (fun step env calls => step env = some ⟨.error reason, after, calls⟩) where
  front failed _ := bind_error failed
  back began _ failed := by
    rw [bind_value began, failed]
    rfl

theorem Enters.error (enters : Enters host call node env part there calls)
    (failed : evaluateNode host call part there = some ⟨.error reason, after, later⟩) :
    evaluateNode host call node env = some ⟨.error reason, after, calls ++ later⟩ :=
  enters.carried (error_carried reason after) (kept_always host call node.parts) (kept_always host call node.parts)
    (fun _ _ => trivial) (fun _ _ _ => trivial) (fun _ => id) later failed

theorem Reaches.error (reaches : Reaches host call node env inner there calls)
    (failed : evaluateNode host call inner there = some ⟨.error reason, after, later⟩) :
    evaluateNode host call node env = some ⟨.error reason, after, calls ++ later⟩ := by
  induction reaches with
  | here => exact failed
  | inside enters _ ih =>
    rw [List.append_assoc]
    exact enters.error (ih failed)

end Errors

/-- If the evaluation of a tree with a hole comes to the hole, and what stands there ends
    with an error, then the evaluation ends with this error: it is the same error, in the
    environment that the hole left, and the host calls are those made before the hole and
    those made in it. -/
theorem evaluates_fill_error {host : Host} {depth : Nat} {context : Context} {node : Node}
    {env there after : Environment} {reason : EvalError} {calls later : List HostCall}
    (arrives : context.Arrives host (callDefined host depth) env there calls)
    (failed : Evaluates host node there ⟨.error reason, after, later⟩) :
    Evaluates host (context.fill node) env ⟨.error reason, after, calls ++ later⟩ := by
  obtain ⟨further, failed⟩ := failed
  -- the way to the hole and the hole itself may need different bounds on the nesting of calls
  have reaches := (arrives.reaches node).mono (callDefined_mono host (Nat.le_max_left depth further))
  exact ⟨max depth further, reaches.error (evaluate_mono (Nat.le_max_right depth further) failed)⟩

/-- One can print, and there is a function of three arguments that prints. -/
def Environment.printing : Environment :=
  (empty.withBuiltin .print).withFunction "f" (.defined ["a", "b", "c"] [.call "print" [.var "a"]])

def Environment.counting : Environment := printing.withVariable "x" (.value (.int 1))

/-- A hole in the second argument of that function, whose result is to be assigned. Both
    other arguments print something, and statements stand before and behind. -/
def Context.amidPrinting : Context :=
  .source [.assignment "x" (.int 1)]
    (.assignment "z" (.argument "f" [.call "print" [.var "x"]]
      (.rightOperand .add (.inl rfl) (.var "x") .hole) [.call "print" [.null]]))
    [.assignment "y" (.int 2)]

/-- An operand that prints and then fails is the last thing that is evaluated. -/
theorem evaluates_fill_error_amidPrinting :
    Context.amidPrinting.Arrives .bare (callDefined .bare 0) .printing .counting [⟨.builtin .print, [.int 1]⟩] ∧
      Evaluates .bare (.minus (.call "print" [.bool true])) .counting
        ⟨.error (.signedNotInteger .null), .counting, [⟨.builtin .print, [.bool true]⟩]⟩ ∧
      Evaluates .bare (Context.amidPrinting.fill (.minus (.call "print" [.bool true]))) .printing
        ⟨.error (.signedNotInteger .null), .counting,
          [⟨.builtin .print, [.int 1]⟩, ⟨.builtin .print, [.bool true]⟩]⟩ := by
  have counted : evaluateBlock .bare (callDefined .bare 0) .null [.assignment "x" (.int 1)] .printing =
      some ⟨.value .null, .counting, []⟩ := rfl
  have printed : evaluateAll .bare (callDefined .bare 0) [.call "print" [.var "x"]] .counting =
      some ⟨.value [.null], .counting, [⟨.builtin .print, [.int 1]⟩]⟩ := rfl
  have integer : evaluateNode .bare (callDefined .bare 0) (.var "x") .counting =
      some ⟨.value (.int 1), .counting, []⟩ := rfl
  have arrives : Context.amidPrinting.Arrives .bare (callDefined .bare 0) .printing .counting
      [⟨.builtin .print, [.int 1]⟩] :=
    .source counted (.assignment (.argument rfl rfl printed (.rightOperand integer .hole)))
  have failed : Evaluates .bare (.minus (.call "print" [.bool true])) .counting
      ⟨.error (.signedNotInteger .null), .counting, [⟨.builtin .print, [.bool true]⟩]⟩ := ⟨0, rfl⟩
  exact ⟨arrives, failed, evaluates_fill_error arrives failed⟩

end Scriptlet

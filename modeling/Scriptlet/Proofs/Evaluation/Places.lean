import Scriptlet.Proofs.Evaluation.Ending

namespace Scriptlet
open Evaluation

/-- The evaluation of a node in an environment comes to the evaluation of a part right
    below the node, in the second environment and after these host calls. -/
inductive Enters (host : Host) (call : Caller) : Node → Environment → Node → Environment → List HostCall → Prop
  | statement {before part after env v there calls}
    (ran : evaluateBlock host call .null before env = some ⟨.value v, there, calls⟩) :
    Enters host call (.source (before ++ part :: after)) env part there calls
  | assigned {x e env} : Enters host call (.assignment x e) env e env []
  | condition {c yes no env} : Enters host call (.conditional c yes no) env c env []
  | branch {c yes no env v middle calls before part after w there later}
    (decided : evaluateNode host call c env = some ⟨.value v, middle, calls⟩)
    (selected : (if v.truthy then yes else no.getD []) = before ++ part :: after)
    (ran : evaluateBlock host call .null before middle = some ⟨.value w, there, later⟩) :
    Enters host call (.conditional c yes no) env part there (calls ++ later)
  | left {op : Node → Node → Node} {left right env} (binary : op = .add ∨ op = .subtract) :
    Enters host call (op left right) env left env []
  | right {op : Node → Node → Node} {left right env i there calls} (binary : op = .add ∨ op = .subtract)
    (integer : evaluateNode host call left env = some ⟨.value (.int i), there, calls⟩) :
    Enters host call (op left right) env right there calls
  | operand {op : Node → Node} {value env} (unary : op = .plus ∨ op = .minus) :
    Enters host call (op value) env value env []
  | argument {f before part after env} {function : Callable} {values there calls}
    (bound : env.functions[f]? = some function) (accepted : function.arity = (before ++ part :: after).length)
    (ran : evaluateAll host call before env = some ⟨.value values, there, calls⟩) :
    Enters host call (.call f (before ++ part :: after)) env part there calls

/-- The evaluation of a node in an environment comes to the evaluation of a node
    anywhere in it, in the second environment and after these host calls. -/
inductive Reaches (host : Host) (call : Caller) : Node → Environment → Node → Environment → List HostCall → Prop
  | here {node env} : Reaches host call node env node env []
  | inside {node env part middle calls inner there later} (enters : Enters host call node env part middle calls)
    (reaches : Reaches host call part middle inner there later) :
    Reaches host call node env inner there (calls ++ later)

section Deeper
variable {host : Host} {call call' : Caller} {node part inner : Node} {env there : Environment} {calls : List HostCall}

theorem Enters.mono (further : Further call call')
    (enters : Enters host call node env part there calls) : Enters host call' node env part there calls := by
  have kept := fun parts => extends_kept host further parts
  cases enters with
  | statement ran => exact .statement ((kept _).block .null _ (fun _ => id) _ _ ran)
  | assigned => exact .assigned
  | condition => exact .condition
  | branch decided selected ran =>
    exact .branch ((kept _).node _ (fun _ => id) _ _ decided) selected ((kept _).block .null _ (fun _ => id) _ _ ran)
  | left binary => exact .left binary
  | right binary integer => exact .right binary ((kept _).node _ (fun _ => id) _ _ integer)
  | operand unary => exact .operand unary
  | argument bound accepted ran => exact .argument bound accepted ((kept _).all _ (fun _ => id) _ _ ran)

theorem Reaches.mono (further : Further call call')
    (reaches : Reaches host call node env inner there calls) : Reaches host call' node env inner there calls := by
  induction reaches with
  | here => exact .here
  | inside enters _ ih => exact .inside (enters.mono further) ih

end Deeper

theorem Enters.parts {host : Host} {call : Caller} {node part : Node} {env there : Environment} {calls : List HostCall}
    (enters : Enters host call node env part there calls) {parts : List Node} (within : node.parts ⊆ parts) :
    part.parts ⊆ parts := by
  cases enters with
  | statement ran =>
    rw [Node.parts, List.cons_subset, Node.partsOfAll_append, List.append_subset, Node.partsOfAll,
      List.append_subset] at within
    exact within.2.2.1
  | assigned =>
    rw [Node.parts, List.cons_subset] at within
    exact within.2
  | condition =>
    rw [Node.parts_conditional, List.cons_subset, List.append_subset] at within
    exact within.2.1
  | branch decided selected ran =>
    have branch := Node.parts_branch within _ selected
    exact branch.2.1
  | left binary =>
    rw [Node.parts_binary binary, List.cons_subset, List.append_subset] at within
    exact within.2.1
  | right binary integer =>
    rw [Node.parts_binary binary, List.cons_subset, List.append_subset] at within
    exact within.2.2
  | operand unary =>
    rw [Node.parts_unary unary, List.cons_subset] at within
    exact within.2
  | argument bound accepted ran =>
    rw [Node.parts, List.cons_subset, Node.partsOfAll_append, List.append_subset, Node.partsOfAll,
      List.append_subset] at within
    exact within.2.2.1

theorem Enters.smaller {host : Host} {call : Caller} {node part : Node} {env there : Environment}
    {calls : List HostCall} (enters : Enters host call node env part there calls) : sizeOf part < sizeOf node := by
  have within : ∀ before after : List Node, sizeOf part < sizeOf (before ++ part :: after) :=
    fun before after => List.sizeOf_lt_of_mem (by simp)
  cases enters with
  | @statement before _ after =>
    have below := within before after
    simp only [Node.source.sizeOf_spec]
    omega
  | assigned =>
    simp only [Node.assignment.sizeOf_spec]
    omega
  | condition =>
    simp only [Node.conditional.sizeOf_spec]
    omega
  | @branch c yes no _ v _ _ before _ after _ _ _ _ selected _ =>
    have below := within before after
    rw [← selected] at below
    simp only [Node.conditional.sizeOf_spec]
    split at below
    · omega
    · cases no with
      | none =>
        rw [Option.getD_none, List.nil.sizeOf_spec] at below
        omega
      | some no =>
        rw [Option.getD_some] at below
        rw [Option.some.sizeOf_spec]
        omega
  | left binary =>
    rcases binary with rfl | rfl <;> simp +arith
  | right binary =>
    rcases binary with rfl | rfl <;> simp +arith
  | operand unary =>
    rcases unary with rfl | rfl <;> simp
  | @argument f before _ after =>
    have below := within before after
    simp only [Node.call.sizeOf_spec]
    omega

/-- A property of evaluations in an environment, with the host calls before them, goes
    over from a step to any sequence of steps in which that step is taken: from the first
    one of two if the other one is in the relation `After`, and from the second one if
    the first one gives it its value and is in the relation `Before`. -/
structure Carried (Before After : ∀ {α : Type}, Evaluation α → Evaluation α → Prop)
    (P : ∀ {α : Type}, Evaluation α → Environment → List HostCall → Prop) : Prop where
  front : ∀ {α β : Type} {first : Evaluation α} {next : α → Evaluation β} {env calls},
    P first env calls → (∀ a, After (next a) (next a)) → P (first >>= next) env calls
  back : ∀ {α β : Type} {first : Evaluation α} {next : α → Evaluation β} {env middle a calls later},
    first env = some ⟨.value a, middle, calls⟩ → Before first first → P (next a) middle later →
    P (first >>= next) env (calls ++ later)

/-- What goes over from steps to sequences of them goes over from the part that is
    entered to the node. -/
theorem Enters.carried {Before After : ∀ {α : Type}, Evaluation α → Evaluation α → Prop}
    {P : ∀ {α : Type}, Evaluation α → Environment → List HostCall → Prop} {host : Host} {call : Caller}
    {node part : Node} {env there : Environment} {calls : List HostCall} {parts : List Node}
    (carried : Carried Before After P) (before : Kept Before host call call parts)
    (after : Kept After host call call parts) (found : ∀ f actual, Before (callee f actual) (callee f actual))
    (applied : ∀ f function values, After (apply host call f function values) (apply host call f function values))
    (enters : Enters host call node env part there calls) (within : node.parts ⊆ parts) (later : List HostCall)
    (holds : P (evaluateNode host call part) there later) :
    P (evaluateNode host call node) env (calls ++ later) := by
  cases enters with
  | @statement first _ rest _ v _ _ ran =>
    rw [Node.parts, List.cons_subset, Node.partsOfAll_append, List.append_subset, Node.partsOfAll,
      List.append_subset] at within
    obtain ⟨_, firstWithin, _, restWithin⟩ := within
    rw [evaluateNode, evaluateBlock_append]
    refine carried.back ran (before.block .null first firstWithin) ?_
    rw [evaluateBlock]
    exact carried.front holds fun w => after.block w rest restWithin
  | @assigned x =>
    rw [evaluateNode]
    exact carried.front holds fun v => after.assignment x part v (within (Node.self_mem_parts _))
  | @condition c yes no =>
    rw [evaluateNode_conditional]
    exact carried.front holds fun v => after.block .null _ (Node.parts_selected within v.truthy)
  | @branch c yes no _ v _ _ first _ rest _ _ _ decided selected ran =>
    obtain ⟨firstWithin, _, restWithin⟩ := Node.parts_branch within _ selected
    rw [Node.parts_conditional, List.cons_subset, List.append_subset] at within
    rw [evaluateNode_conditional, List.append_assoc]
    refine carried.back decided (before.node c within.2.1) ?_
    rw [selected, evaluateBlock_append]
    refine carried.back ran (before.block .null first firstWithin) ?_
    rw [evaluateBlock]
    exact carried.front holds fun w => after.block w rest restWithin
  | @left op _ r _ binary =>
    rw [Node.parts_binary binary, List.cons_subset, List.append_subset] at within
    obtain ⟨_, _, rightWithin⟩ := within
    obtain ⟨reason, result, plain, evaluated⟩ := evaluateNode_binary binary
    rw [evaluated]
    exact carried.front holds (after.afterLeft (after.node r rightWithin) plain result)
  | @right op l _ _ i _ _ binary integer =>
    rw [Node.parts_binary binary, List.cons_subset, List.append_subset] at within
    obtain ⟨_, leftWithin, _⟩ := within
    obtain ⟨reason, result, plain, evaluated⟩ := evaluateNode_binary binary
    rw [evaluated]
    refine carried.back integer (before.node l leftWithin) ?_
    rw [Evaluation.operand, pure_bind]
    exact carried.front holds fun w => after.sequence (after.operand w) fun j => after.conclude (plain i j) _
  | @operand op _ _ unary =>
    obtain ⟨reason, result, plain, evaluated⟩ := evaluateNode_unary unary
    rw [evaluated]
    exact carried.front holds fun v => after.sequence (after.signed v) fun i => after.conclude (plain i) _
  | @argument f first _ rest _ function values _ _ bound accepted ran =>
    rw [Node.parts, List.cons_subset, Node.partsOfAll_append, List.append_subset, Node.partsOfAll,
      List.append_subset] at within
    obtain ⟨_, firstWithin, _, restWithin⟩ := within
    rw [evaluateNode_call, ← List.nil_append calls, List.append_assoc]
    refine carried.back (callee_bound bound accepted) (found f _) ?_
    rw [evaluateAll_append, evaluateAll]
    simp only [bind_assoc, pure_bind]
    refine carried.back ran (before.all first firstWithin) ?_
    exact carried.front holds fun v => after.sequence (after.all rest restWithin) fun more => applied f function _

end Scriptlet

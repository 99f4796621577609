import Scriptlet.Proofs.Evaluation.Sequences
import Scriptlet.Proofs.Parts

/-!
A relation between evaluations that holds between the single steps, and of a sequence of
steps if it holds of its parts, holds between whole evaluations (`Kept.node`). Everything
that is said here about all runs of a tree is an instance: the induction on the tree is
done once. How functions are called stays open, so the two sides may differ in it.
-/
namespace Scriptlet
open Evaluation

/-- The relation is kept by the steps that evaluate these nodes, where the two sides call
    defined functions in ways of their own. -/
structure Kept (R : ∀ {α : Type}, Evaluation α → Evaluation α → Prop) (host : Host) (call call' : Caller)
    (parts : List Node) : Prop where
  result : ∀ {α : Type} (a : α), R (Evaluation.pure a) (Evaluation.pure a)
  sequence : ∀ {α β : Type} {first first' : Evaluation α} {next next' : α → Evaluation β},
    R first first' → (∀ a, R (next a) (next' a)) → R (first >>= next) (first' >>= next')
  failure : ∀ {α : Type} (reason : EvalError), reason.node? = none → R (fail reason : Evaluation α) (fail reason)
  syntaxError : ∀ {α : Type} message, .syntaxError message ∈ parts →
    R (fail (.cannotEvaluate (.syntaxError message)) : Evaluation α) (fail (.cannotEvaluate (.syntaxError message)))
  lookup : ∀ x, .var x ∈ parts → R (lookup x) (lookup x)
  assignment : ∀ x e v, .assignment x e ∈ parts → R (assign x v) (assign x v)
  definition : ∀ f ps body, .functionDef f ps body ∈ parts →
    R (define f (.defined ps body)) (define f (.defined ps body))
  functionCall : ∀ f arguments, .call f arguments ∈ parts →
    R (evaluateAll host call arguments) (evaluateAll host call' arguments) →
    R (evaluateNode host call (.call f arguments)) (evaluateNode host call' (.call f arguments))

namespace Kept
variable {R : ∀ {α : Type}, Evaluation α → Evaluation α → Prop} {host : Host} {call call' : Caller} {parts : List Node}

theorem operand (kept : Kept R host call call' parts) (v : Value) : R (Evaluation.operand v) (Evaluation.operand v) := by
  cases v with
  | int i => exact kept.result i
  | _ => exact kept.failure _ rfl

theorem signed (kept : Kept R host call call' parts) (v : Value) : R (Evaluation.signed v) (Evaluation.signed v) := by
  cases v with
  | int i => exact kept.result i
  | _ => exact kept.failure _ rfl

theorem conclude (kept : Kept R host call call' parts) {reason : EvalError} (plain : reason.node? = none)
    (result : Option Integer) :
    R (Scriptlet.conclude reason result) (Scriptlet.conclude reason result) := by
  refine kept.sequence ?_ fun i => kept.result (Value.int i)
  cases result with
  | none => exact kept.failure reason plain
  | some i => exact kept.result i

theorem afterLeft (kept : Kept R host call call' parts) {right : Node}
    (second : R (evaluateNode host call right) (evaluateNode host call' right))
    {reason : Integer → Integer → EvalError} (plain : ∀ i j, (reason i j).node? = none)
    (result : Integer → Integer → Option Integer) (v : Value) :
    R (do let i ← Evaluation.operand v
          let j ← Evaluation.operand (← evaluateNode host call right)
          Scriptlet.conclude (reason i j) (result i j))
      (do let i ← Evaluation.operand v
          let j ← Evaluation.operand (← evaluateNode host call' right)
          Scriptlet.conclude (reason i j) (result i j)) :=
  kept.sequence (kept.operand v) fun i => kept.sequence second fun w =>
    kept.sequence (kept.operand w) fun j => kept.conclude (plain i j) (result i j)

theorem binary (kept : Kept R host call call' parts) {op : Node → Node → Node} (binary : op = .add ∨ op = .subtract)
    {left right : Node} (first : R (evaluateNode host call left) (evaluateNode host call' left))
    (second : R (evaluateNode host call right) (evaluateNode host call' right)) :
    R (evaluateNode host call (op left right)) (evaluateNode host call' (op left right)) := by
  obtain ⟨reason, result, plain, evaluated⟩ := evaluateNode_binary binary
  rw [evaluated, evaluated]
  exact kept.sequence first (kept.afterLeft second plain result)

theorem unary (kept : Kept R host call call' parts) {op : Node → Node} (unary : op = .plus ∨ op = .minus)
    {value : Node} (only : R (evaluateNode host call value) (evaluateNode host call' value)) :
    R (evaluateNode host call (op value)) (evaluateNode host call' (op value)) := by
  obtain ⟨reason, result, plain, evaluated⟩ := evaluateNode_unary unary
  rw [evaluated, evaluated]
  exact kept.sequence only fun v => kept.sequence (kept.signed v) fun i => kept.conclude (plain i) (result i)

theorem functionCall_of_steps (call call' : Caller) {f : String} {arguments : List Node}
    (sequence : ∀ {α β : Type} {first first' : Evaluation α} {next next' : α → Evaluation β},
      R first first' → (∀ a, R (next a) (next' a)) → R (first >>= next) (first' >>= next'))
    (found : R (callee f arguments.length) (callee f arguments.length))
    (applied : ∀ function values, R (apply host call f function values) (apply host call' f function values))
    (all : R (evaluateAll host call arguments) (evaluateAll host call' arguments)) :
    R (evaluateNode host call (.call f arguments)) (evaluateNode host call' (.call f arguments)) := by
  rw [evaluateNode_call, evaluateNode_call]
  exact sequence found fun function => sequence all fun values => applied function values

-- the recursion is that of evaluation, so `within` shrinks with the tree; calls do not
-- recur here, what they run is up to `functionCall`
mutual
theorem node (kept : Kept R host call call' parts) (node : Node) (within : node.parts ⊆ parts) :
    R (evaluateNode host call node) (evaluateNode host call' node) := by
  match node with
  | .source statements =>
    rw [Node.parts, List.cons_subset] at within
    rw [evaluateNode, evaluateNode]
    exact kept.block .null statements within.2
  | .functionDef f ps body => exact kept.definition f ps body (within (Node.self_mem_parts _))
  | .assignment x e =>
    rw [Node.parts, List.cons_subset] at within
    obtain ⟨here, below⟩ := within
    rw [evaluateNode, evaluateNode]
    exact kept.sequence (kept.node e below) fun v => kept.assignment x e v here
  | .conditional c yes none =>
    rw [Node.parts, List.cons_subset, List.append_subset] at within
    obtain ⟨_, condition, first⟩ := within
    rw [evaluateNode_conditional, evaluateNode_conditional]
    refine kept.sequence (kept.node c condition) fun v => ?_
    cases v.truthy with
    | true => exact kept.block .null yes first
    | false => exact kept.result Value.null
  | .conditional c yes (some no) =>
    rw [Node.parts, List.cons_subset, List.append_subset, List.append_subset] at within
    obtain ⟨_, condition, first, second⟩ := within
    rw [evaluateNode_conditional, evaluateNode_conditional]
    refine kept.sequence (kept.node c condition) fun v => ?_
    cases v.truthy with
    | true => exact kept.block .null yes first
    | false => exact kept.block .null no second
  | .add l r =>
    rw [Node.parts, List.cons_subset, List.append_subset] at within
    obtain ⟨_, left, right⟩ := within
    exact kept.binary (.inl rfl) (kept.node l left) (kept.node r right)
  | .subtract l r =>
    rw [Node.parts, List.cons_subset, List.append_subset] at within
    obtain ⟨_, left, right⟩ := within
    exact kept.binary (.inr rfl) (kept.node l left) (kept.node r right)
  | .plus e =>
    rw [Node.parts, List.cons_subset] at within
    exact kept.unary (.inl rfl) (kept.node e within.2)
  | .minus e =>
    rw [Node.parts, List.cons_subset] at within
    exact kept.unary (.inr rfl) (kept.node e within.2)
  | .var x => exact kept.lookup x (within (Node.self_mem_parts _))
  | .call f arguments =>
    rw [Node.parts, List.cons_subset] at within
    obtain ⟨here, below⟩ := within
    exact kept.functionCall f arguments here (kept.all arguments below)
  | .int i => exact kept.result (Value.int i)
  | .bool b => exact kept.result (Value.bool b)
  | .null => exact kept.result Value.null
  | .syntaxError message => exact kept.syntaxError message (within (Node.self_mem_parts _))
termination_by structural node

theorem block (kept : Kept R host call call' parts) (last : Value) (nodes : List Node)
    (within : Node.partsOfAll nodes ⊆ parts) :
    R (evaluateBlock host call last nodes) (evaluateBlock host call' last nodes) := by
  match nodes with
  | [] => exact kept.result last
  | node :: nodes =>
    rw [Node.partsOfAll, List.append_subset] at within
    obtain ⟨first, others⟩ := within
    rw [evaluateBlock, evaluateBlock]
    exact kept.sequence (kept.node node first) fun v => kept.block v nodes others
termination_by structural nodes

theorem all (kept : Kept R host call call' parts) (nodes : List Node) (within : Node.partsOfAll nodes ⊆ parts) :
    R (evaluateAll host call nodes) (evaluateAll host call' nodes) := by
  match nodes with
  | [] => exact kept.result []
  | node :: nodes =>
    rw [Node.partsOfAll, List.append_subset] at within
    obtain ⟨first, others⟩ := within
    rw [evaluateAll, evaluateAll]
    exact kept.sequence (kept.node node first) fun v =>
      kept.sequence (kept.all nodes others) fun values => kept.result _
termination_by structural nodes
end

end Kept

theorem kept_always (host : Host) (call : Caller) (parts : List Node) : Kept (fun _ _ => True) host call call parts where
  result _ := trivial
  sequence _ _ := trivial
  failure _ _ := trivial
  syntaxError _ _ := trivial
  lookup _ _ := trivial
  assignment _ _ _ _ := trivial
  definition _ _ _ _ := trivial
  functionCall _ _ _ _ := trivial

end Scriptlet

import Scriptlet.Proofs.Grammar.Soundness

namespace Scriptlet
namespace Node

mutual
/-- The nodes that an evaluation of a tree may come to without calling a function: all of them
    outside the bodies of the functions that the tree defines. -/
def parts : Node → List Node
  | source statements => source statements :: partsOfAll statements
  | functionDef f ps body => [functionDef f ps body]
  | assignment x e => assignment x e :: e.parts
  | conditional c yes none => conditional c yes none :: (c.parts ++ partsOfAll yes)
  | conditional c yes (some no) => conditional c yes (some no) :: (c.parts ++ (partsOfAll yes ++ partsOfAll no))
  | add l r => add l r :: (l.parts ++ r.parts)
  | subtract l r => subtract l r :: (l.parts ++ r.parts)
  | plus e => plus e :: e.parts
  | minus e => minus e :: e.parts
  | var x => [var x]
  | call f arguments => call f arguments :: partsOfAll arguments
  | int i => [int i]
  | bool b => [bool b]
  | null => [null]
  | syntaxError message => [syntaxError message]

def partsOfAll : List Node → List Node
  | [] => []
  | node :: nodes => node.parts ++ partsOfAll nodes
end

def isStatement : Node → Bool
  | source _ | functionDef .. | assignment .. | conditional .. | syntaxError _ => true
  | _ => false

/-- An expression has no statement in it. -/
def IsExpression (node : Node) : Prop := ∀ part ∈ node.parts, ¬ part.isStatement

instance (node : Node) : Decidable node.IsExpression := inferInstanceAs (Decidable (∀ part ∈ node.parts, _))

@[simp] theorem self_mem_parts (node : Node) : node ∈ node.parts := by
  cases node with
  | conditional c yes no => cases no <;> simp [parts]
  | _ => simp [parts]

theorem mem_partsOfAll {part : Node} {nodes : List Node} : part ∈ partsOfAll nodes ↔ ∃ node ∈ nodes, part ∈ node.parts := by
  induction nodes with
  | nil => simp [partsOfAll]
  | cons node nodes ih => simp [partsOfAll, ih]

theorem partsOfAll_append (before after : List Node) :
    partsOfAll (before ++ after) = partsOfAll before ++ partsOfAll after := by
  induction before with
  | nil => rfl
  | cons node before ih => rw [List.cons_append, partsOfAll, partsOfAll, ih, List.append_assoc]

theorem parts_conditional (c : Node) (yes : List Node) (no : Option (List Node)) :
    (conditional c yes no).parts =
      conditional c yes no :: (c.parts ++ (partsOfAll yes ++ partsOfAll (no.getD []))) := by
  cases no with
  | none => rw [parts, Option.getD_none, partsOfAll, List.append_nil]
  | some no => rfl

theorem parts_selected {c : Node} {yes : List Node} {no : Option (List Node)} {parts : List Node}
    (within : (conditional c yes no).parts ⊆ parts) (first : Bool) :
    partsOfAll (if first then yes else no.getD []) ⊆ parts := by
  rw [parts_conditional, List.cons_subset, List.append_subset, List.append_subset] at within
  obtain ⟨_, _, yesWithin, noWithin⟩ := within
  cases first with
  | true => exact yesWithin
  | false => exact noWithin

theorem parts_branch {c : Node} {yes : List Node} {no : Option (List Node)} {parts before after : List Node} {part : Node}
    (within : (conditional c yes no).parts ⊆ parts) (first : Bool)
    (selected : (if first then yes else no.getD []) = before ++ part :: after) :
    partsOfAll before ⊆ parts ∧ part.parts ⊆ parts ∧ partsOfAll after ⊆ parts := by
  have branch := parts_selected within first
  rwa [selected, partsOfAll_append, List.append_subset, partsOfAll, List.append_subset] at branch

theorem parts_binary {op : Node → Node → Node} (binary : op = add ∨ op = subtract) (l r : Node) :
    (op l r).parts = op l r :: (l.parts ++ r.parts) := by
  rcases binary with rfl | rfl <;> rfl

theorem parts_unary {op : Node → Node} (unary : op = plus ∨ op = minus) (e : Node) :
    (op e).parts = op e :: e.parts := by
  rcases unary with rfl | rfl <;> rfl

theorem isExpression_binary {op : Node → Node → Node} (binary : op = add ∨ op = subtract) {l r : Node} :
    (op l r).IsExpression ↔ l.IsExpression ∧ r.IsExpression := by
  have plain : (op l r).isStatement = false := by rcases binary with rfl | rfl <;> rfl
  simp [IsExpression, parts_binary binary, plain, or_imp, forall_and]

theorem isExpression_unary {op : Node → Node} (unary : op = plus ∨ op = minus) {e : Node} :
    (op e).IsExpression ↔ e.IsExpression := by
  have plain : (op e).isStatement = false := by rcases unary with rfl | rfl <;> rfl
  simp [IsExpression, parts_unary unary, plain]

theorem isExpression_call {f : String} {arguments : List Node} :
    (call f arguments).IsExpression ↔ ∀ argument ∈ arguments, argument.IsExpression := by
  simp only [IsExpression, parts, List.mem_cons, mem_partsOfAll]
  constructor
  · intro expression argument member part below
    exact expression part (.inr ⟨argument, member, below⟩)
  · rintro expressions part (rfl | ⟨argument, member, below⟩)
    · simp [isStatement]
    · exact expressions argument member part below

end Node

namespace Grammar

theorem Value.isExpression (v : Value) : v.node.IsExpression := by
  rcases v with x | l
  · simp [Value.node, Node.IsExpression, Node.parts, Node.isStatement]
  · cases l <;> simp [Value.node, Literal.node, Node.IsExpression, Node.parts, Node.isStatement]

mutual
theorem Parenthesized.isExpression (p : Parenthesized) : p.node.IsExpression := by
  cases p with
  | inParens inner => exact inner.isExpression
  | value v => exact v.isExpression

theorem FunctionCall.isExpression (c : FunctionCall) : c.node.IsExpression := by
  cases c with
  | call f arguments => exact Node.isExpression_call.2 arguments.areExpressions
  | parenthesized inner => exact inner.isExpression

theorem Signed.isExpression (s : Signed) : s.node.IsExpression := by
  cases s with
  | plus operand => exact (Node.isExpression_unary (.inl rfl)).2 operand.isExpression
  | minus operand => exact (Node.isExpression_unary (.inr rfl)).2 operand.isExpression
  | unsigned operand => exact operand.isExpression

theorem Expression.isExpression (e : Expression) : e.node.IsExpression := by
  obtain ⟨first, more⟩ := e
  exact more.isExpression first.isExpression

theorem Operands.isExpression (o : Operands) {left : Node} (expression : left.IsExpression) :
    (o.node left).IsExpression := by
  cases o with
  | done => exact expression
  | plus next more => exact more.isExpression ((Node.isExpression_binary (.inl rfl)).2 ⟨expression, next.isExpression⟩)
  | minus next more => exact more.isExpression ((Node.isExpression_binary (.inr rfl)).2 ⟨expression, next.isExpression⟩)

theorem Arguments.areExpressions (a : Arguments) : ∀ node ∈ a.nodes, node.IsExpression := by
  cases a with
  | none => nofun
  | some first more => exact List.forall_mem_cons.2 ⟨first.isExpression, more.areExpressions⟩

theorem MoreArguments.areExpressions (m : MoreArguments) : ∀ node ∈ m.nodes, node.IsExpression := by
  cases m with
  | done => nofun
  | comma next more => exact List.forall_mem_cons.2 ⟨next.isExpression, more.areExpressions⟩
end

end Grammar

/-- What the parser reads as an expression is one. -/
theorem isExpression_of_expression {tokens : List Token} {reading : Parsing.Reading Node tokens}
    (read : Parsing.expression tokens = some reading) : reading.phrase.IsExpression := by
  have plainly : Parsing.plain (Parsing.expression tokens) = some (reading.phrase, reading.rest) := by rw [read]; rfl
  obtain ⟨e, named, _⟩ := Grammar.expression_derived tokens plainly
  rw [← named]
  exact e.isExpression

end Scriptlet

import Scriptlet.Integer

/-!
One type covers programs, statements and expressions, because a host may hand any tree
to the evaluator; the parser builds only trees in which statements and expressions
stand at their own places. Equality of trees is decided structurally.
-/
namespace Scriptlet

/-- A node of a syntax tree. In a conditional, an absent second branch and an empty one
    are told apart. -/
inductive Node where
  | source (statements : List Node)
  | functionDef (name : String) (parameters : List String) (body : List Node)
  | assignment (name : String) (value : Node)
  | conditional (condition : Node) (yes : List Node) (no : Option (List Node))
  | add (left right : Node)
  | subtract (left right : Node)
  | plus (operand : Node)
  | minus (operand : Node)
  | var (name : String)
  | call (name : String) (arguments : List Node)
  | int (value : Integer)
  | bool (value : Bool)
  | null
  | syntaxError (message : String)
  deriving Repr, Inhabited

namespace Node

def kind : Node → String
  | source _ => "Source"
  | functionDef .. => "FuncDef"
  | assignment .. => "Assignment"
  | conditional .. => "If"
  | add .. => "Add"
  | subtract .. => "Sub"
  | plus _ => "UnaryPlus"
  | minus _ => "UnaryMinus"
  | var _ => "Variable"
  | call .. => "FuncCall"
  | int _ => "IntLiteral"
  | bool _ => "BoolLiteral"
  | null => "NullLiteral"
  | syntaxError _ => "SyntaxError"

mutual
def same : Node → Node → Bool
  | source body, source body' => sameList body body'
  | functionDef f ps body, functionDef f' ps' body' => f == f' && ps == ps' && sameList body body'
  | assignment x e, assignment x' e' => x == x' && same e e'
  | conditional c yes none, conditional c' yes' none => same c c' && sameList yes yes'
  | conditional c yes (some no), conditional c' yes' (some no') =>
    same c c' && sameList yes yes' && sameList no no'
  | add l r, add l' r' => same l l' && same r r'
  | subtract l r, subtract l' r' => same l l' && same r r'
  | plus e, plus e' => same e e'
  | minus e, minus e' => same e e'
  | var x, var x' => x == x'
  | call f args, call f' args' => f == f' && sameList args args'
  | int i, int i' => i == i'
  | bool b, bool b' => b == b'
  | null, null => true
  | syntaxError m, syntaxError m' => m == m'
  | _, _ => false
def sameList : List Node → List Node → Bool
  | [], [] => true
  | a :: as, b :: bs => same a b && sameList as bs
  | _, _ => false
end

mutual
theorem same_iff : ∀ a b : Node, same a b = true ↔ a = b
  | source body, b => by cases b <;> simp [same, sameList_iff body]
  | functionDef f ps body, b => by cases b <;> simp [same, sameList_iff body, and_assoc]
  | assignment x e, b => by cases b <;> simp [same, same_iff e]
  | conditional c yes none, b => by
    cases b with
    | conditional c' yes' no' => cases no' <;> simp [same, same_iff c, sameList_iff yes]
    | _ => simp [same]
  | conditional c yes (some no), b => by
    cases b with
    | conditional c' yes' no' =>
      cases no' <;> simp [same, same_iff c, sameList_iff yes, sameList_iff no, and_assoc]
    | _ => simp [same]
  | add l r, b => by cases b <;> simp [same, same_iff l, same_iff r]
  | subtract l r, b => by cases b <;> simp [same, same_iff l, same_iff r]
  | plus e, b => by cases b <;> simp [same, same_iff e]
  | minus e, b => by cases b <;> simp [same, same_iff e]
  | var x, b => by cases b <;> simp [same]
  | call f args, b => by cases b <;> simp [same, sameList_iff args]
  | int i, b => by cases b <;> simp [same]
  | bool v, b => by cases b <;> simp [same]
  | null, b => by cases b <;> simp [same]
  | syntaxError m, b => by cases b <;> simp [same]
theorem sameList_iff : ∀ as bs : List Node, sameList as bs = true ↔ as = bs
  | [], bs => by cases bs <;> simp [sameList]
  | a :: as, bs => by cases bs <;> simp [sameList, same_iff a, sameList_iff as]
end

instance : DecidableEq Node := fun a b => decidable_of_iff _ (same_iff a b)

end Node
end Scriptlet

import Scriptlet.Proofs.Grammar.Composition
import Scriptlet.Proofs.Parts
import Scriptlet.Proofs.Spelling

/-!
The trees that texts can give: names that are spelled as names, numbers without a sign,
and statements and expressions at their own places. Main statement:
`wellFormed_of_program`, every statement of a text is well formed.
-/
namespace Scriptlet
namespace Node

/-- An expression that can be written down. -/
inductive WellFormedExpression : Node → Prop
  | var {x} (name : IsName x) : WellFormedExpression (.var x)
  | call {f arguments} (name : IsName f) (each : ∀ argument ∈ arguments, WellFormedExpression argument) :
    WellFormedExpression (.call f arguments)
  | int {i : Integer} (natural : 0 ≤ i.toInt) : WellFormedExpression (.int i)
  | bool {b} : WellFormedExpression (.bool b)
  | null : WellFormedExpression .null
  | plus {e} (operand : WellFormedExpression e) : WellFormedExpression (.plus e)
  | minus {e} (operand : WellFormedExpression e) : WellFormedExpression (.minus e)
  | add {l r} (left : WellFormedExpression l) (right : WellFormedExpression r) : WellFormedExpression (.add l r)
  | subtract {l r} (left : WellFormedExpression l) (right : WellFormedExpression r) :
    WellFormedExpression (.subtract l r)

/-- A statement that can be written down. A second branch may be absent, or empty. -/
inductive WellFormed : Node → Prop
  | expression {e : Node} (expression : e.WellFormedExpression) : WellFormed e
  | assignment {x} {e : Node} (name : IsName x) (value : e.WellFormedExpression) : WellFormed (.assignment x e)
  | conditional {c : Node} {yes no} (condition : c.WellFormedExpression) (first : ∀ statement ∈ yes, WellFormed statement)
    (second : ∀ statements ∈ no, ∀ statement ∈ statements, WellFormed statement) : WellFormed (.conditional c yes no)
  | definition {f parameters body} (name : IsName f) (names : ∀ x ∈ parameters, IsName x)
    (each : ∀ statement ∈ body, WellFormed statement) : WellFormed (.functionDef f parameters body)

abbrev WellFormedBlock (nodes : List Node) : Prop := ∀ node ∈ nodes, node.WellFormed

theorem WellFormedExpression.parts {node : Node} (wellFormed : node.WellFormedExpression) :
    ∀ part ∈ node.parts, part.WellFormedExpression := by
  induction wellFormed with
  | var name => simpa [Node.parts] using .var name
  | @call f arguments name each ih =>
    rw [Node.parts]
    refine List.forall_mem_cons.2 ⟨.call name each, fun part within => ?_⟩
    obtain ⟨argument, member, below⟩ := mem_partsOfAll.1 within
    exact ih argument member part below
  | int natural => simpa [Node.parts] using .int natural
  | bool => simpa [Node.parts] using .bool
  | null => simpa [Node.parts] using .null
  | plus operand ih => exact List.forall_mem_cons.2 ⟨.plus operand, ih⟩
  | minus operand ih => exact List.forall_mem_cons.2 ⟨.minus operand, ih⟩
  | add left right ih ih' => exact List.forall_mem_cons.2 ⟨.add left right, List.forall_mem_append.2 ⟨ih, ih'⟩⟩
  | subtract left right ih ih' =>
    exact List.forall_mem_cons.2 ⟨.subtract left right, List.forall_mem_append.2 ⟨ih, ih'⟩⟩

theorem WellFormed.parts {node : Node} (wellFormed : node.WellFormed) : ∀ part ∈ node.parts, part.WellFormed := by
  induction wellFormed with
  | expression expression => exact fun part within => .expression (expression.parts part within)
  | assignment name value =>
    exact List.forall_mem_cons.2 ⟨.assignment name value, fun part within => .expression (value.parts part within)⟩
  | @conditional c yes no condition first second ih ih' =>
    rw [parts_conditional]
    refine List.forall_mem_cons.2 ⟨.conditional condition first second, ?_⟩
    refine List.forall_mem_append.2 ⟨fun part within => .expression (condition.parts part within), ?_⟩
    refine List.forall_mem_append.2 ⟨fun part within => ?_, fun part within => ?_⟩
    · obtain ⟨statement, member, below⟩ := mem_partsOfAll.1 within
      exact ih statement member part below
    · obtain ⟨statement, member, below⟩ := mem_partsOfAll.1 within
      cases no with
      | none => cases member
      | some statements => exact ih' statements rfl statement member part below
  | definition name names each => simpa [Node.parts] using .definition name names each

theorem WellFormedBlock.parts {nodes : List Node} (wellFormed : WellFormedBlock nodes) :
    ∀ part ∈ partsOfAll nodes, part.WellFormed := by
  intro part within
  obtain ⟨node, member, below⟩ := mem_partsOfAll.1 within
  exact (wellFormed node member).parts part below

end Node

namespace Grammar

abbrev Printable (tokens : List Token) : Prop := ∀ token ∈ tokens, token.IsPrintable

theorem Printable.append {front back : List Token} (printable : Printable front) (printable' : Printable back) :
    Printable (front ++ back) := List.forall_mem_append.2 ⟨printable, printable'⟩

theorem Printable.cons {token : Token} {tokens : List Token} (rest : Printable tokens)
    (first : token.IsPrintable := by trivial) : Printable (token :: tokens) := List.forall_mem_cons.2 ⟨first, rest⟩

theorem Printable.consName {x : String} {tokens : List Token} (rest : Printable tokens) (name : IsName x) :
    Printable (.name x :: tokens) := rest.cons name

theorem Printable.snoc {token : Token} {tokens : List Token} (front : Printable tokens)
    (last : token.IsPrintable := by trivial) : Printable (tokens ++ [token]) :=
  front.append (Printable.cons nofun last)

theorem Value.wellFormed (v : Value) (printable : Printable v.tokens) : v.node.WellFormedExpression := by
  rcases v with x | l
  · exact .var (printable _ List.mem_cons_self)
  · cases l with
    | int i => exact .int (printable (.int i) List.mem_cons_self)
    | bool b => exact .bool
    | null => exact .null

mutual
theorem Parenthesized.wellFormed (p : Parenthesized) (printable : Printable p.tokens) : p.node.WellFormedExpression := by
  cases p with
  | inParens inner =>
    rw [Parenthesized.tokens, Printable, List.forall_mem_cons, List.forall_mem_append] at printable
    exact inner.wellFormed printable.2.1
  | value v => exact v.wellFormed printable

theorem FunctionCall.wellFormed (c : FunctionCall) (printable : Printable c.tokens) : c.node.WellFormedExpression := by
  cases c with
  | call f arguments =>
    rw [FunctionCall.tokens, Printable, List.forall_mem_cons, List.forall_mem_cons, List.forall_mem_append] at printable
    obtain ⟨name, _, each, _⟩ := printable
    exact .call name (arguments.wellFormed each)
  | parenthesized inner => exact inner.wellFormed printable

theorem Signed.wellFormed (s : Signed) (printable : Printable s.tokens) : s.node.WellFormedExpression := by
  cases s with
  | plus operand => exact .plus (operand.wellFormed (List.forall_mem_cons.1 printable).2)
  | minus operand => exact .minus (operand.wellFormed (List.forall_mem_cons.1 printable).2)
  | unsigned operand => exact operand.wellFormed printable

theorem Expression.wellFormed (e : Expression) (printable : Printable e.tokens) : e.node.WellFormedExpression := by
  obtain ⟨first, more⟩ := e
  obtain ⟨printable, printable'⟩ := List.forall_mem_append.1 printable
  exact more.wellFormed printable' (first.wellFormed printable)

theorem Operands.wellFormed (o : Operands) (printable : Printable o.tokens) {left : Node}
    (wellFormed : left.WellFormedExpression) : (o.node left).WellFormedExpression := by
  cases o with
  | done => exact wellFormed
  | plus next more =>
    obtain ⟨printable, printable'⟩ := List.forall_mem_append.1 (List.forall_mem_cons.1 printable).2
    exact more.wellFormed printable' (.add wellFormed (next.wellFormed printable))
  | minus next more =>
    obtain ⟨printable, printable'⟩ := List.forall_mem_append.1 (List.forall_mem_cons.1 printable).2
    exact more.wellFormed printable' (.subtract wellFormed (next.wellFormed printable))

theorem Arguments.wellFormed (a : Arguments) (printable : Printable a.tokens) :
    ∀ node ∈ a.nodes, node.WellFormedExpression := by
  cases a with
  | none => nofun
  | some first more =>
    obtain ⟨printable, printable'⟩ := List.forall_mem_append.1 printable
    exact List.forall_mem_cons.2 ⟨first.wellFormed printable, more.wellFormed printable'⟩

theorem MoreArguments.wellFormed (m : MoreArguments) (printable : Printable m.tokens) :
    ∀ node ∈ m.nodes, node.WellFormedExpression := by
  cases m with
  | done => nofun
  | comma next more =>
    obtain ⟨printable, printable'⟩ := List.forall_mem_append.1 (List.forall_mem_cons.1 printable).2
    exact List.forall_mem_cons.2 ⟨next.wellFormed printable, more.wellFormed printable'⟩
end

theorem parameters_wellFormed {parameters : List String} (printable : Printable (parameterTokens parameters)) :
    ∀ x ∈ parameters, IsName x := by
  cases parameters with
  | nil => nofun
  | cons x xs =>
    obtain ⟨name, names⟩ := List.forall_mem_cons.1 printable
    refine List.forall_mem_cons.2 ⟨name, fun y within => ?_⟩
    exact names (.name y) (List.mem_flatMap.2 ⟨y, within, by simp⟩)

mutual
theorem Statement.wellFormed (s : Statement) (printable : Printable s.tokens) : s.node.WellFormed := by
  cases s with
  | expression value => exact .expression (value.wellFormed (List.forall_mem_append.1 printable).1)
  | assignment x value =>
    rw [Statement.tokens, Printable, List.forall_mem_cons, List.forall_mem_cons, List.forall_mem_append] at printable
    obtain ⟨name, _, printable, _⟩ := printable
    exact .assignment name (value.wellFormed printable)
  | conditional condition yes no =>
    rw [Statement.tokens, Printable, List.forall_mem_cons, List.forall_mem_cons, List.forall_mem_append,
      List.forall_mem_cons, List.forall_mem_cons, List.forall_mem_append, List.forall_mem_cons] at printable
    obtain ⟨_, _, test, _, _, first, _, second⟩ := printable
    exact .conditional (condition.wellFormed test) (yes.wellFormed first) (no.wellFormed second)
  | definition f parameters body =>
    rw [Statement.tokens, Printable, List.forall_mem_cons, List.forall_mem_cons, List.forall_mem_cons,
      List.forall_mem_append, List.forall_mem_cons, List.forall_mem_cons, List.forall_mem_append] at printable
    obtain ⟨_, name, _, names, _, _, each, _⟩ := printable
    exact .definition name (parameters_wellFormed names) (body.wellFormed each)

theorem Alternative.wellFormed (a : Alternative) (printable : Printable a.tokens) :
    ∀ statements ∈ a.nodes, Node.WellFormedBlock statements := by
  cases a with
  | none => nofun
  | block statements =>
    rw [Alternative.tokens, Printable, List.forall_mem_cons, List.forall_mem_cons, List.forall_mem_append] at printable
    rintro _ ⟨⟩
    exact statements.wellFormed printable.2.2.1

theorem Statements.wellFormed (s : Statements) (printable : Printable s.tokens) : Node.WellFormedBlock s.nodes := by
  cases s with
  | done => nofun
  | more first others =>
    obtain ⟨printable, printable'⟩ := List.forall_mem_append.1 printable
    exact List.forall_mem_cons.2 ⟨first.wellFormed printable, others.wellFormed printable'⟩
end

end Grammar

theorem wellFormed_of_program {source : String} {nodes : List Node}
    (read : Parsing.program (tokenize source) = .ok nodes) : Node.WellFormedBlock nodes := by
  have known := vocabulary_of_program read
  obtain ⟨p, derived, rfl⟩ := (program_eq_ok_iff _ nodes).1 read
  refine p.wellFormed ?_
  rw [derived]
  intro token within
  rcases printable_of_mem_tokenize within with printable | ⟨c, _, rfl⟩
  · exact printable
  · cases known _ within

end Scriptlet

import Scriptlet.Proofs.WellFormed

/-!
A program text for every list of well-formed statements: the tokens of the trees, with
spaces between them. Sums lean to the left, so a sum is put into parentheses where it is
the right operand of another one, or stands behind a sign. Main statement:
`parseText_text_of_wellFormed`, printed texts read back, and well-formed statements are all
that texts can give.
-/
namespace Scriptlet
namespace Printing

def isSum : Node → Bool
  | .add .. | .subtract .. => true
  | _ => false

/-- An expression as a single operand, given its tokens: a sum needs parentheses. -/
def operand (node : Node) (tokens : List Token) : List Token :=
  if isSum node then .leftParen :: (tokens ++ [.rightParen]) else tokens

mutual
/-- The tokens of an expression; statements have none as expressions. -/
def expression : Node → List Token
  | .var x => [.name x]
  | .int i => [.int i]
  | .bool b => [.bool b]
  | .null => [.null]
  | .call f arguments => .name f :: .leftParen :: (expressions arguments ++ [.rightParen])
  | .plus e => .plus :: operand e (expression e)
  | .minus e => .minus :: operand e (expression e)
  | .add l r => expression l ++ .plus :: operand r (expression r)
  | .subtract l r => expression l ++ .minus :: operand r (expression r)
  | .source _ | .functionDef .. | .assignment .. | .conditional .. | .syntaxError _ => []

def expressions : List Node → List Token
  | [] => []
  | node :: nodes => expression node ++ moreExpressions nodes

def moreExpressions : List Node → List Token
  | [] => []
  | node :: nodes => .comma :: (expression node ++ moreExpressions nodes)
end

mutual
def statement : Node → List Token
  | .assignment x e => .name x :: .equals :: (expression e ++ [.semicolon])
  | .conditional c yes none =>
    .ifWord :: .leftParen :: (expression c ++ .rightParen :: .leftBrace :: (statements yes ++ [.rightBrace]))
  | .conditional c yes (some no) =>
    .ifWord :: .leftParen :: (expression c ++ .rightParen :: .leftBrace :: (statements yes ++
      .rightBrace :: .name "else" :: .leftBrace :: (statements no ++ [.rightBrace])))
  | .functionDef f parameters body =>
    .defWord :: .name f :: .leftParen :: (Grammar.parameterTokens parameters ++
      .rightParen :: .leftBrace :: (statements body ++ [.rightBrace]))
  | e => expression e ++ [.semicolon]

def statements : List Node → List Token
  | [] => []
  | node :: nodes => statement node ++ statements nodes
end

def text (nodes : List Node) : String := Token.listText (statements nodes)

end Printing

namespace Grammar

def Operands.append : Operands → Operands → Operands
  | .done, later => later
  | .plus next more, later => .plus next (more.append later)
  | .minus next more, later => .minus next (more.append later)

theorem Operands.tokens_append (o later : Operands) : (o.append later).tokens = o.tokens ++ later.tokens := by
  cases o with
  | done => rfl
  | plus next more => simp [append, tokens, more.tokens_append]
  | minus next more => simp [append, tokens, more.tokens_append]

theorem Operands.node_append (o later : Operands) (left : Node) :
    (o.append later).node left = later.node (o.node left) := by
  cases o with
  | done => rfl
  | plus next more => exact more.node_append later _
  | minus next more => exact more.node_append later _

theorem Expression.exists_append (e : Expression) (o : Operands) :
    ∃ sum : Expression, sum.tokens = e.tokens ++ o.tokens ∧ sum.node = o.node e.node := by
  obtain ⟨first, more⟩ := e
  refine ⟨.chain first (more.append o), ?_, more.node_append o _⟩
  rw [Expression.tokens, more.tokens_append, ← List.append_assoc]
  rfl

end Grammar

namespace Printing
open Grammar (Printable)

/-- The printed expression has a derivation, also as a single operand, and its tokens can
    be written down. -/
structure Derived (node : Node) : Prop where
  chain : ∃ e : Grammar.Expression, e.tokens = expression node ∧ e.node = node
  single : ∃ s : Grammar.Signed, s.tokens = operand node (expression node) ∧ s.node = node
  printable : Printable (expression node)

section Derived
variable {node : Node}

theorem Derived.of_single (noSum : isSum node = false) (printable : Printable (expression node)) (s : Grammar.Signed)
    (derived : s.tokens = expression node) (named : s.node = node) : Derived node where
  chain := ⟨.chain s .done, by rw [Grammar.Expression.tokens, derived]; exact List.append_nil _, named⟩
  single := ⟨s, by rw [derived, operand, noSum]; rfl, named⟩
  printable := printable

theorem Derived.of_value (noSum : isSum node = false) (printable : Printable (expression node)) (v : Grammar.Value)
    (derived : v.tokens = expression node) (named : v.node = node) : Derived node :=
  .of_single noSum printable (.unsigned (.parenthesized (.value v))) derived named

theorem Derived.of_sum (sum : isSum node) (printable : Printable (expression node)) (e : Grammar.Expression)
    (derived : e.tokens = expression node) (named : e.node = node) : Derived node where
  chain := ⟨e, derived, named⟩
  single := by
    refine ⟨.unsigned (.parenthesized (.inParens e)), ?_, named⟩
    rw [operand, if_pos sum, ← derived]
    rfl
  printable := printable

theorem Derived.operand_printable (derived : Derived node) : Printable (operand node (expression node)) := by
  unfold operand
  split
  · exact derived.printable.snoc.cons
  · exact derived.printable

theorem Derived.sum {op : Node → Node → Node} {l r : Node} (left : Derived l) (right : Derived r) (sign : Token)
    (operands : Grammar.Signed → Grammar.Operands) (sum : isSum (op l r)) (printable : sign.IsPrintable)
    (printed : expression (op l r) = expression l ++ sign :: operand r (expression r))
    (tokens : ∀ s, (operands s).tokens = sign :: s.tokens) (named : ∀ s front, (operands s).node front = op front s.node) :
    Derived (op l r) := by
  obtain ⟨e, derived, chain⟩ := left.chain
  obtain ⟨s, derived', single⟩ := right.single
  obtain ⟨whole, appended, node⟩ := e.exists_append (operands s)
  refine .of_sum sum ?_ whole ?_ ?_
  · rw [printed]
    exact left.printable.append (right.operand_printable.cons printable)
  · rw [appended, derived, tokens, derived', printed]
  · rw [node, chain, named, single]

end Derived

theorem moreArguments_derived {arguments : List Node} (each : ∀ argument ∈ arguments, Derived argument) :
    (∃ m : Grammar.MoreArguments, m.tokens = moreExpressions arguments ∧ m.nodes = arguments) ∧
      Printable (moreExpressions arguments) := by
  induction arguments with
  | nil => exact ⟨⟨.done, rfl, rfl⟩, nofun⟩
  | cons argument arguments ih =>
    obtain ⟨first, others⟩ := List.forall_mem_cons.1 each
    obtain ⟨e, tokens, named⟩ := first.chain
    obtain ⟨⟨m, more, listed⟩, printable⟩ := ih others
    rw [moreExpressions]
    refine ⟨⟨.comma e m, by rw [Grammar.MoreArguments.tokens, tokens, more], ?_⟩, (first.printable.append printable).cons⟩
    rw [Grammar.MoreArguments.nodes, named, listed]

theorem arguments_derived {arguments : List Node} (each : ∀ argument ∈ arguments, Derived argument) :
    (∃ a : Grammar.Arguments, a.tokens = expressions arguments ∧ a.nodes = arguments) ∧
      Printable (expressions arguments) := by
  cases arguments with
  | nil => exact ⟨⟨.none, rfl, rfl⟩, nofun⟩
  | cons argument arguments =>
    obtain ⟨first, others⟩ := List.forall_mem_cons.1 each
    obtain ⟨e, tokens, named⟩ := first.chain
    obtain ⟨⟨m, more, listed⟩, printable⟩ := moreArguments_derived others
    rw [expressions]
    refine ⟨⟨.some e m, by rw [Grammar.Arguments.tokens, tokens, more], ?_⟩, first.printable.append printable⟩
    rw [Grammar.Arguments.nodes, named, listed]

theorem expression_derived {node : Node} (wellFormed : node.WellFormedExpression) : Derived node := by
  induction wellFormed with
  | @var x name => exact .of_value rfl (Printable.consName nofun name) (.name x) rfl rfl
  | @int i natural => exact .of_value rfl (Printable.cons nofun natural) (.literal (.int i)) rfl rfl
  | @bool b => exact .of_value rfl (Printable.cons nofun) (.literal (.bool b)) rfl rfl
  | null => exact .of_value rfl (Printable.cons nofun) (.literal .null) rfl rfl
  | @call f arguments name _ ih =>
    obtain ⟨⟨a, tokens, listed⟩, printable⟩ := arguments_derived ih
    refine .of_single rfl (printable.snoc.cons.consName name) (.unsigned (.call f a)) ?_ ?_
    · rw [Grammar.Signed.tokens, Grammar.FunctionCall.tokens, tokens, expression]
    · rw [Grammar.Signed.node, Grammar.FunctionCall.node, listed]
  | plus _ ih =>
    obtain ⟨s, tokens, named⟩ := ih.single
    refine .of_single rfl ih.operand_printable.cons (.plus s) ?_ ?_
    · rw [Grammar.Signed.tokens, tokens, expression]
    · rw [Grammar.Signed.node, named]
  | minus _ ih =>
    obtain ⟨s, tokens, named⟩ := ih.single
    refine .of_single rfl ih.operand_printable.cons (.minus s) ?_ ?_
    · rw [Grammar.Signed.tokens, tokens, expression]
    · rw [Grammar.Signed.node, named]
  | add _ _ ih ih' =>
    refine ih.sum ih' .plus (.plus · .done) rfl trivial (by rw [expression]) (fun s => ?_) fun _ _ => rfl
    rw [Grammar.Operands.tokens, Grammar.Operands.tokens, List.append_nil]
  | subtract _ _ ih ih' =>
    refine ih.sum ih' .minus (.minus · .done) rfl trivial (by rw [expression]) (fun s => ?_) fun _ _ => rfl
    rw [Grammar.Operands.tokens, Grammar.Operands.tokens, List.append_nil]

theorem statement_of_expression {node : Node} (wellFormed : node.WellFormedExpression) :
    statement node = expression node ++ [.semicolon] := by
  cases wellFormed <;> rw [statement] <;> nofun

theorem parameters_printable {parameters : List String} (names : ∀ x ∈ parameters, IsName x) :
    Printable (Grammar.parameterTokens parameters) := by
  cases parameters with
  | nil => nofun
  | cons x xs =>
    obtain ⟨name, names⟩ := List.forall_mem_cons.1 names
    refine Printable.consName ?_ name
    intro token within
    obtain ⟨y, member, within⟩ := List.mem_flatMap.1 within
    have last : Printable [.name y] := Printable.consName nofun (names y member)
    have pair : Printable [.comma, .name y] := last.cons
    exact pair token within

theorem statements_derived {nodes : List Node}
    (each : ∀ node ∈ nodes, (∃ s : Grammar.Statement, s.tokens = statement node ∧ s.node = node) ∧
      Printable (statement node)) :
    (∃ s : Grammar.Statements, s.tokens = statements nodes ∧ s.nodes = nodes) ∧ Printable (statements nodes) := by
  induction nodes with
  | nil => exact ⟨⟨.done, rfl, rfl⟩, nofun⟩
  | cons node nodes ih =>
    obtain ⟨⟨⟨s, tokens, named⟩, printable⟩, others⟩ := List.forall_mem_cons.1 each
    obtain ⟨⟨later, tokens', listed⟩, printable'⟩ := ih others
    rw [statements]
    refine ⟨⟨.more s later, by rw [Grammar.Statements.tokens, tokens, tokens'], ?_⟩, printable.append printable'⟩
    rw [Grammar.Statements.nodes, named, listed]

theorem statement_derived {node : Node} (wellFormed : node.WellFormed) :
    (∃ s : Grammar.Statement, s.tokens = statement node ∧ s.node = node) ∧ Printable (statement node) := by
  induction wellFormed with
  | expression expression =>
    have derived := expression_derived expression
    obtain ⟨e, tokens, named⟩ := derived.chain
    rw [statement_of_expression expression]
    exact ⟨⟨.expression e, by rw [Grammar.Statement.tokens, tokens], named⟩, derived.printable.snoc⟩
  | @assignment x e name value =>
    have derived := expression_derived value
    obtain ⟨e, tokens, named⟩ := derived.chain
    rw [statement]
    refine ⟨⟨.assignment x e, by rw [Grammar.Statement.tokens, tokens], ?_⟩, derived.printable.snoc.cons.consName name⟩
    rw [Grammar.Statement.node, named]
  | @conditional c yes no condition first second ih ih' =>
    have derived := expression_derived condition
    obtain ⟨e, tokens, named⟩ := derived.chain
    obtain ⟨⟨body, tokens', listed⟩, printable⟩ := statements_derived ih
    cases no with
    | none =>
      rw [statement]
      refine ⟨⟨.conditional e body .none, ?_, ?_⟩, (derived.printable.append printable.snoc.cons.cons).cons.cons⟩
      · rw [Grammar.Statement.tokens, tokens, tokens', Grammar.Alternative.tokens]
      · rw [Grammar.Statement.node, named, listed, Grammar.Alternative.nodes]
    | some no =>
      obtain ⟨⟨other, tokens'', listed'⟩, printable'⟩ := statements_derived (ih' no rfl)
      have word : IsName "else" := by decide
      have block : Printable (.leftBrace :: (statements no ++ [.rightBrace])) := printable'.snoc.cons
      have back : Printable (.rightBrace :: .name "else" :: .leftBrace :: (statements no ++ [.rightBrace])) :=
        (block.consName word).cons
      rw [statement]
      refine ⟨⟨.conditional e body (.block other), ?_, ?_⟩, ?_⟩
      · rw [Grammar.Statement.tokens, tokens, tokens', Grammar.Alternative.tokens, tokens'']
      · rw [Grammar.Statement.node, named, listed, Grammar.Alternative.nodes, listed']
      · exact (derived.printable.append (printable.append back).cons.cons).cons.cons
  | @definition f parameters body name names each ih =>
    obtain ⟨⟨inner, tokens, listed⟩, printable⟩ := statements_derived ih
    rw [statement]
    refine ⟨⟨.definition f parameters inner, by rw [Grammar.Statement.tokens, tokens], ?_⟩, ?_⟩
    · rw [Grammar.Statement.node, listed]
    · exact (((parameters_printable names).append printable.snoc.cons.cons).cons.consName name).cons

end Printing

/-- Well-formed statements, printed, are read back as they were, and the statements of
    every text that parses are well formed. -/
theorem parseText_text_of_wellFormed :
    (∀ nodes, Node.WellFormedBlock nodes → parseText (Printing.text nodes) = .source nodes) ∧
      ∀ source nodes, parseText source = .source nodes → Node.WellFormedBlock nodes := by
  constructor
  · intro nodes wellFormed
    obtain ⟨⟨p, tokens, listed⟩, printable⟩ :=
      Printing.statements_derived fun node within => Printing.statement_derived (wellFormed node within)
    rw [parseText, Printing.text, tokenize_listText printable, parse_eq_source_iff, program_eq_ok_iff]
    exact ⟨p, tokens, listed⟩
  · intro source nodes parses
    rw [parseText, parse_eq_source_iff] at parses
    exact wellFormed_of_program parses

def Printing.dangling : List Node :=
  [.conditional .null [] none, .assignment "else" (.subtract (.minus (.add (.var "a") .null)) (.subtract .null (.int 7)))]

/-- The two statements stay apart, and sums keep their places. -/
theorem parseText_text_dangling :
    Printing.text Printing.dangling = "if ( null ) \x7b \x7d else = - ( a + null ) - ( null - 7 ) ;" ∧
      parseText (Printing.text Printing.dangling) = .source Printing.dangling ∧
      Node.WellFormedBlock Printing.dangling := by
  have wellFormed : Node.WellFormedBlock Printing.dangling := by
    refine List.forall_mem_cons.2 ⟨.conditional .null nofun nofun, List.forall_mem_cons.2 ⟨?_, nofun⟩⟩
    have named : IsName "else" := by decide
    exact .assignment named
      (.subtract (.minus (.add (.var (by decide)) .null)) (.subtract .null (.int (by decide))))
  have parses := parseText_text_of_wellFormed.1 Printing.dangling wellFormed
  exact ⟨by decide +kernel, parses, parseText_text_of_wellFormed.2 _ _ parses⟩

end Scriptlet

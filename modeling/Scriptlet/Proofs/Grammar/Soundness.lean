import Scriptlet.Proofs.Grammar
import Scriptlet.Proofs.Rules

/-!
Every phrase that a rule reads has a derivation, and its tokens are those in front of
the tokens that the rule leaves. The recursion is that of the rules.
-/
namespace Scriptlet.Grammar
open Parsing

theorem value_derived {tokens rest : List Token} {node : Node} (read : plain (value tokens) = some (node, rest)) :
    ∃ v : Value, v.node = node ∧ tokens = v.tokens ++ rest := by
  revert read
  unfold value
  split
  · rintro ⟨⟩
    exact ⟨.name _, rfl, rfl⟩
  · rintro ⟨⟩
    exact ⟨.literal (.int _), rfl, rfl⟩
  · rintro ⟨⟩
    exact ⟨.literal (.bool _), rfl, rfl⟩
  · rintro ⟨⟩
    exact ⟨.literal .null, rfl, rfl⟩
  · nofun

mutual
theorem expression_derived (tokens : List Token) {node : Node} {rest : List Token}
    (read : plain (expression tokens) = some (node, rest)) :
    ∃ e : Expression, e.node = node ∧ tokens = e.tokens ++ rest := by
  rw [plain_expression] at read
  obtain ⟨⟨left, after⟩, first, sum⟩ := Option.map_eq_some_iff.1 read
  have shorter := plain_shorter first
  obtain ⟨s, rfl, front⟩ := signed_derived tokens first
  obtain ⟨o, summed, more⟩ := operands_derived s.node after
  rw [sum] at summed more
  refine ⟨.chain s o, summed, ?_⟩
  rw [front, more]
  simp [Expression.tokens]
termination_by (tokens.length, 3)

theorem operands_derived (left : Node) (tokens : List Token) :
    ∃ o : Operands, o.node left = (operands left tokens).plain.1 ∧
      tokens = o.tokens ++ (operands left tokens).plain.2 := by
  by_cases plus : tokens.head? = some .plus
  · obtain ⟨rest, rfl⟩ := List.head?_eq_some_iff.1 plus
    rw [plain_operands_plus]
    cases next : plain (signed rest) with
    | none => exact ⟨.done, rfl, rfl⟩
    | some read =>
      have shorter := plain_shorter next
      obtain ⟨s, named, front⟩ := signed_derived rest next
      obtain ⟨o, summed, more⟩ := operands_derived (.add left read.1) read.2
      refine ⟨.plus s o, by rw [Operands.node, named, summed], ?_⟩
      rw [front, more]
      simp [Operands.tokens]
  by_cases minus : tokens.head? = some .minus
  · obtain ⟨rest, rfl⟩ := List.head?_eq_some_iff.1 minus
    rw [plain_operands_minus]
    cases next : plain (signed rest) with
    | none => exact ⟨.done, rfl, rfl⟩
    | some read =>
      have shorter := plain_shorter next
      obtain ⟨s, named, front⟩ := signed_derived rest next
      obtain ⟨o, summed, more⟩ := operands_derived (.subtract left read.1) read.2
      refine ⟨.minus s o, by rw [Operands.node, named, summed], ?_⟩
      rw [front, more]
      simp [Operands.tokens]
  · rw [plain_operands_other left plus minus]
    exact ⟨.done, rfl, rfl⟩
termination_by (tokens.length, 0)

theorem signed_derived (tokens : List Token) {node : Node} {rest : List Token}
    (read : plain (signed tokens) = some (node, rest)) :
    ∃ s : Signed, s.node = node ∧ tokens = s.tokens ++ rest := by
  by_cases plus : tokens.head? = some .plus
  · obtain ⟨later, rfl⟩ := List.head?_eq_some_iff.1 plus
    rw [plain_signed_plus] at read
    obtain ⟨after, operand, same⟩ := Option.map_eq_some_iff.1 read
    cases same
    obtain ⟨s, named, front⟩ := signed_derived later operand
    exact ⟨.plus s, by rw [Signed.node, named], by rw [front]; rfl⟩
  by_cases minus : tokens.head? = some .minus
  · obtain ⟨later, rfl⟩ := List.head?_eq_some_iff.1 minus
    rw [plain_signed_minus] at read
    obtain ⟨after, operand, same⟩ := Option.map_eq_some_iff.1 read
    cases same
    obtain ⟨s, named, front⟩ := signed_derived later operand
    exact ⟨.minus s, by rw [Signed.node, named], by rw [front]; rfl⟩
  · rw [plain_signed_other plus minus] at read
    obtain ⟨c, named, front⟩ := functionCall_derived tokens read
    exact ⟨.unsigned c, named, front⟩
termination_by (tokens.length, 2)

theorem functionCall_derived (tokens : List Token) {node : Node} {rest : List Token}
    (read : plain (functionCall tokens) = some (node, rest)) :
    ∃ c : FunctionCall, c.node = node ∧ tokens = c.tokens ++ rest := by
  by_cases call : ∃ f after, tokens = .name f :: .leftParen :: after
  · obtain ⟨f, after, begins⟩ := call
    rw [begins, plain_functionCall_call, ← begins] at read
    rcases Option.or_eq_some_iff.1 read with called | ⟨_, inner⟩
    · obtain ⟨closed, closing, same⟩ := Option.map_eq_some_iff.1 called
      cases same
      have shorter : after.length < tokens.length := by grind
      obtain ⟨a, named, front⟩ := arguments_derived after
      rw [closes_eq_some_iff.1 closing] at named front
      refine ⟨.call f a, by rw [FunctionCall.node, named], ?_⟩
      rw [begins, front]
      simp [FunctionCall.tokens]
    · obtain ⟨p, named, front⟩ := parenthesized_derived tokens inner
      exact ⟨.parenthesized p, named, front⟩
  · rw [plain_functionCall_other (fun f after same => call ⟨f, after, same⟩)] at read
    obtain ⟨p, named, front⟩ := parenthesized_derived tokens read
    exact ⟨.parenthesized p, named, front⟩
termination_by (tokens.length, 1)

theorem parenthesized_derived (tokens : List Token) {node : Node} {rest : List Token}
    (read : plain (parenthesized tokens) = some (node, rest)) :
    ∃ p : Parenthesized, p.node = node ∧ tokens = p.tokens ++ rest := by
  by_cases paren : tokens.head? = some .leftParen
  · obtain ⟨later, rfl⟩ := List.head?_eq_some_iff.1 paren
    rw [plain_parenthesized_paren] at read
    obtain ⟨inner, within, closing⟩ := Option.bind_eq_some_iff.1 read
    rw [closes_eq_some_iff.1 closing] at within
    obtain ⟨e, named, front⟩ := expression_derived later within
    refine ⟨.inParens e, named, ?_⟩
    rw [front]
    simp [Parenthesized.tokens]
  · rw [plain_parenthesized_other paren] at read
    obtain ⟨v, named, front⟩ := value_derived read
    exact ⟨.value v, named, front⟩
termination_by (tokens.length, 0)

theorem arguments_derived (tokens : List Token) :
    ∃ a : Arguments, a.nodes = (arguments tokens).plain.1 ∧ tokens = a.tokens ++ (arguments tokens).plain.2 := by
  rw [plain_arguments]
  cases first : plain (expression tokens) with
  | none => exact ⟨.none, rfl, rfl⟩
  | some read =>
    have shorter := plain_shorter first
    obtain ⟨e, named, front⟩ := expression_derived tokens first
    obtain ⟨m, listed, more⟩ := moreArguments_derived read.2
    refine ⟨.some e m, by rw [Arguments.nodes, named, listed], ?_⟩
    rw [front]
    simp [Arguments.tokens, ← more]
termination_by (tokens.length, 4)

theorem moreArguments_derived (tokens : List Token) :
    ∃ m : MoreArguments, m.nodes = (moreArguments tokens).plain.1 ∧
      tokens = m.tokens ++ (moreArguments tokens).plain.2 := by
  by_cases comma : tokens.head? = some .comma
  · obtain ⟨rest, rfl⟩ := List.head?_eq_some_iff.1 comma
    rw [plain_moreArguments_comma]
    cases next : plain (expression rest) with
    | none => exact ⟨.done, rfl, rfl⟩
    | some read =>
      have shorter := plain_shorter next
      obtain ⟨e, named, front⟩ := expression_derived rest next
      obtain ⟨m, listed, more⟩ := moreArguments_derived read.2
      refine ⟨.comma e m, by rw [MoreArguments.nodes, named, listed], ?_⟩
      rw [front]
      simp [MoreArguments.tokens, ← more]
  · rw [plain_moreArguments_other comma]
    exact ⟨.done, rfl, rfl⟩
termination_by (tokens.length, 0)
end

theorem moreNames_derived (tokens : List Token) :
    tokens = ((moreNames tokens).plain.1.flatMap fun y => [.comma, .name y]) ++ (moreNames tokens).plain.2 := by
  fun_induction moreNames tokens with
  | case1 x rest ih =>
    rw [Extent.plain_map, List.flatMap_cons, List.append_assoc, ← ih]
    rfl
  | case2 tokens => rfl

theorem names_derived (tokens : List Token) :
    tokens = parameterTokens (names tokens).plain.1 ++ (names tokens).plain.2 := by
  unfold names
  split
  · rename_i x rest
    rw [Extent.plain_map, parameterTokens, List.cons_append, ← moreNames_derived rest]
  · rfl

theorem assignment_derived {tokens : List Token} {node : Node} {rest : List Token}
    (read : plain (assignment tokens) = some (node, rest)) :
    ∃ x e, node = .assignment x (Expression.node e) ∧ tokens = .name x :: .equals :: (e.tokens ++ rest) := by
  by_cases assigns : ∃ x after, tokens = .name x :: .equals :: after
  · obtain ⟨x, after, rfl⟩ := assigns
    rw [plain_assignment] at read
    obtain ⟨value, evaluated, same⟩ := Option.map_eq_some_iff.1 read
    cases same
    obtain ⟨e, named, front⟩ := expression_derived after evaluated
    exact ⟨x, e, by rw [named], by rw [front]⟩
  · rw [plain_assignment_other (fun x after same => assigns ⟨x, after, same⟩)] at read
    cases read

mutual
theorem statement_derived (tokens : List Token) {node : Node} {rest : List Token}
    (read : plain (statement tokens) = some (node, rest)) :
    ∃ s : Statement, s.node = node ∧ tokens = s.tokens ++ rest := by
  rw [plain_statement] at read
  rcases Option.or_eq_some_iff.1 read with ended | ⟨_, read⟩
  · obtain ⟨value, evaluated, closing⟩ := Option.bind_eq_some_iff.1 ended
    rw [closes_eq_some_iff.1 closing] at evaluated
    obtain ⟨e, named, front⟩ := expression_derived tokens evaluated
    refine ⟨.expression e, named, ?_⟩
    rw [front]
    simp [Statement.tokens]
  rcases Option.or_eq_some_iff.1 read with ended | ⟨_, read⟩
  · obtain ⟨value, assigned, closing⟩ := Option.bind_eq_some_iff.1 ended
    rw [closes_eq_some_iff.1 closing] at assigned
    obtain ⟨x, e, rfl, front⟩ := assignment_derived assigned
    refine ⟨.assignment x e, rfl, ?_⟩
    rw [front]
    simp [Statement.tokens]
  rcases Option.or_eq_some_iff.1 read with read | ⟨_, read⟩
  · exact conditional_derived tokens read
  · exact definition_derived tokens read
termination_by (tokens.length, 1)

theorem conditional_derived (tokens : List Token) {node : Node} {rest : List Token}
    (read : plain (conditional tokens) = some (node, rest)) :
    ∃ s : Statement, s.node = node ∧ tokens = s.tokens ++ rest := by
  by_cases condition : ∃ after, tokens = .ifWord :: .leftParen :: after
  · obtain ⟨after, begins⟩ := condition
    rw [begins, plain_conditional] at read
    obtain ⟨condition, held, read⟩ := Option.bind_eq_some_iff.1 read
    obtain ⟨value, evaluated, closing⟩ := Option.bind_eq_some_iff.1 held
    obtain ⟨yes, chosen, same⟩ := Option.map_eq_some_iff.1 read
    cases same
    rw [closes_eq_some_iff.1 closing] at evaluated
    have shorter := plain_shorter evaluated
    have shorterYes := plain_shorter chosen
    have shorterAll : after.length < tokens.length := by grind
    have shorterRest : condition.2.length < tokens.length := by grind
    have shorterNo : yes.2.length < tokens.length := by grind
    obtain ⟨e, named, front⟩ := expression_derived after evaluated
    obtain ⟨body, listed, middle⟩ := block_derived condition.2 chosen
    obtain ⟨a, other, back⟩ := alternative_derived yes.2
    refine ⟨.conditional e body a, by rw [Statement.node, named, listed, other], ?_⟩
    rw [begins, front, middle]
    simp [Statement.tokens, ← back]
  · rw [plain_conditional_other (fun after same => condition ⟨after, same⟩)] at read
    cases read
termination_by (tokens.length, 0)

theorem alternative_derived (tokens : List Token) :
    ∃ a : Alternative, a.nodes = (alternative tokens).plain.1 ∧ tokens = a.tokens ++ (alternative tokens).plain.2 := by
  by_cases other : tokens.head? = some (.name "else")
  · obtain ⟨rest, rfl⟩ := List.head?_eq_some_iff.1 other
    rw [plain_alternative_else]
    cases no : plain (block rest) with
    | none => exact ⟨.none, rfl, rfl⟩
    | some read =>
      obtain ⟨body, listed, front⟩ := block_derived rest no
      refine ⟨.block body, by rw [Alternative.nodes, listed], ?_⟩
      rw [front]
      simp [Alternative.tokens]
  · rw [plain_alternative_other other]
    exact ⟨.none, rfl, rfl⟩
termination_by (tokens.length, 0)

theorem definition_derived (tokens : List Token) {node : Node} {rest : List Token}
    (read : plain (definition tokens) = some (node, rest)) :
    ∃ s : Statement, s.node = node ∧ tokens = s.tokens ++ rest := by
  by_cases defines : ∃ f after, tokens = .defWord :: .name f :: .leftParen :: after
  · obtain ⟨f, after, begins⟩ := defines
    rw [begins, plain_definition] at read
    obtain ⟨parameters, closing, read⟩ := Option.bind_eq_some_iff.1 read
    obtain ⟨nodes, bodyRead, same⟩ := Option.map_eq_some_iff.1 read
    cases same
    have front := names_derived after
    rw [closes_eq_some_iff.1 closing] at front
    have shorter : parameters.2.length < tokens.length := by grind
    obtain ⟨body, listed, back⟩ := block_derived parameters.2 bodyRead
    refine ⟨.definition f parameters.1 body, by rw [Statement.node, listed], ?_⟩
    rw [begins, front, back]
    simp [Statement.tokens]
  · rw [plain_definition_other (fun f after same => defines ⟨f, after, same⟩)] at read
    cases read
termination_by (tokens.length, 0)

theorem block_derived (tokens : List Token) {nodes : List Node} {rest : List Token}
    (read : plain (block tokens) = some (nodes, rest)) :
    ∃ body : Statements, body.nodes = nodes ∧ tokens = .leftBrace :: (body.tokens ++ .rightBrace :: rest) := by
  by_cases opens : tokens.head? = some .leftBrace
  · obtain ⟨later, rfl⟩ := List.head?_eq_some_iff.1 opens
    rw [plain_block] at read
    obtain ⟨body, listed, front⟩ := statements_derived later
    rw [closes_eq_some_iff.1 read] at listed front
    exact ⟨body, listed, by rw [front]⟩
  · rw [plain_block_other opens] at read
    cases read
termination_by (tokens.length, 0)

theorem statements_derived (tokens : List Token) :
    ∃ body : Statements, body.nodes = (statements tokens).plain.1 ∧
      tokens = body.tokens ++ (statements tokens).plain.2 := by
  rw [plain_statements]
  cases first : plain (statement tokens) with
  | none => exact ⟨.done, rfl, rfl⟩
  | some read =>
    have shorter := plain_shorter first
    obtain ⟨s, named, front⟩ := statement_derived tokens first
    obtain ⟨others, listed, more⟩ := statements_derived read.2
    refine ⟨.more s others, by rw [Statements.nodes, named, listed], ?_⟩
    rw [front]
    simp [Statements.tokens, ← more]
termination_by (tokens.length, 2)
end

/-- What is a program has a derivation of exactly its tokens. -/
theorem program_derived (tokens : List Token) {nodes : List Node} (read : program tokens = .ok nodes) :
    ∃ p : Program, p.nodes = nodes ∧ p.tokens = tokens := by
  match tokens with
  | [] =>
    rw [program] at read
    cases read
    exact ⟨.done, rfl, rfl⟩
  | token :: rest =>
    cases first : plain (statement (token :: rest)) with
    | none =>
      rw [program_of_none first] at read
      cases read
    | some one =>
      have shorter := plain_shorter first
      rw [program_of_statement first] at read
      cases later : program one.2 with
      | error reason =>
        rw [later] at read
        cases read
      | ok nodes =>
        rw [later] at read
        cases read
        obtain ⟨s, named, front⟩ := statement_derived _ first
        obtain ⟨p, listed, more⟩ := program_derived one.2 later
        refine ⟨.more s p, by rw [Statements.nodes, named, listed], ?_⟩
        rw [Statements.tokens, more, front]
termination_by tokens.length
decreasing_by exact shorter

end Scriptlet.Grammar

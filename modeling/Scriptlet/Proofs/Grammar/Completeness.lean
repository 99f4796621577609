import Scriptlet.Proofs.Grammar.Soundness

/-!
The rules find every derivation: in front of tokens that cannot go on with a phrase, a
rule reads exactly the phrase and stops behind it. Behind an expression nothing but an
opening parenthesis or a sign goes on with it (`Ends`), behind a statement nothing but
an alternative (`NoAlternative`).
-/
namespace Scriptlet.Grammar
open Parsing

def beginsOperand : Token → Bool
  | .name _ | .int _ | .bool _ | .null | .leftParen => true
  | _ => false

def beginsExpression (token : Token) : Bool := beginsOperand token || token = .plus || token = .minus

theorem Value.begins (v : Value) : ∃ token rest, v.tokens = token :: rest ∧ beginsOperand token := by
  rcases v with x | l
  · exact ⟨_, _, rfl, rfl⟩
  · cases l <;> exact ⟨_, _, rfl, rfl⟩

theorem Parenthesized.begins (p : Parenthesized) : ∃ token rest, p.tokens = token :: rest ∧ beginsOperand token := by
  cases p with
  | inParens inner => exact ⟨.leftParen, _, by rw [Parenthesized.tokens], rfl⟩
  | value v => exact v.begins

theorem FunctionCall.begins (c : FunctionCall) : ∃ token rest, c.tokens = token :: rest ∧ beginsOperand token := by
  cases c with
  | call f arguments => exact ⟨.name f, _, by rw [FunctionCall.tokens], rfl⟩
  | parenthesized inner => exact inner.begins

theorem Signed.begins (s : Signed) : ∃ token rest, s.tokens = token :: rest ∧ beginsExpression token := by
  cases s with
  | plus operand => exact ⟨.plus, _, by rw [Signed.tokens], rfl⟩
  | minus operand => exact ⟨.minus, _, by rw [Signed.tokens], rfl⟩
  | unsigned operand =>
    obtain ⟨token, rest, front, begins⟩ := operand.begins
    exact ⟨token, rest, front, by simp [beginsExpression, begins]⟩

theorem Expression.begins (e : Expression) : ∃ token rest, e.tokens = token :: rest ∧ beginsExpression token := by
  obtain ⟨first, more⟩ := e
  obtain ⟨token, rest, front, begins⟩ := first.begins
  exact ⟨token, rest ++ more.tokens, by simp [Expression.tokens, front], begins⟩

theorem Statement.begins (s : Statement) :
    ∃ token rest, s.tokens = token :: rest ∧ (beginsExpression token ∨ token = .ifWord ∨ token = .defWord) := by
  cases s with
  | expression value =>
    obtain ⟨token, rest, front, begins⟩ := value.begins
    exact ⟨token, rest ++ [.semicolon], by simp [Statement.tokens, front], .inl begins⟩
  | assignment x value => exact ⟨.name x, _, by rw [Statement.tokens], .inl rfl⟩
  | conditional condition yes no => exact ⟨.ifWord, _, by rw [Statement.tokens], .inr (.inl rfl)⟩
  | definition f parameters body => exact ⟨.defWord, _, by rw [Statement.tokens], .inr (.inr rfl)⟩

theorem FunctionCall.ne_cons (c : FunctionCall) {token : Token} (other : ¬ beginsOperand token) (later rest : List Token) :
    c.tokens ++ later ≠ token :: rest := by
  obtain ⟨first, more, front, begins⟩ := c.begins
  rw [front]
  rintro ⟨⟩
  exact other begins

theorem Expression.ne_cons (e : Expression) {token : Token} (other : ¬ beginsExpression token)
    (later rest : List Token) : e.tokens ++ later ≠ token :: rest := by
  obtain ⟨first, more, front, begins⟩ := e.begins
  rw [front]
  rintro ⟨⟩
  exact other begins

theorem plain_expression_eq_none {token : Token} (other : ¬ beginsExpression token) (rest : List Token) :
    plain (expression (token :: rest)) = none := by
  cases read : plain (expression (token :: rest)) with
  | none => rfl
  | some read =>
    obtain ⟨e, _, front⟩ := expression_derived _ read
    exact absurd front.symm (e.ne_cons other _ _)

theorem plain_statement_eq_none {token : Token} (begins : ¬ beginsExpression token) (noIf : token ≠ .ifWord)
    (noDef : token ≠ .defWord) (rest : List Token) : plain (statement (token :: rest)) = none := by
  cases read : plain (statement (token :: rest)) with
  | none => rfl
  | some read =>
    obtain ⟨s, _, front⟩ := statement_derived _ read
    obtain ⟨first, later, tokens, other⟩ := s.begins
    rw [tokens] at front
    cases front
    rcases other with other | other | other
    · exact absurd other begins
    · exact absurd other noIf
    · exact absurd other noDef

/-- These tokens do not go on with an expression in front of them. -/
structure Ends (rest : List Token) : Prop where
  noParen : rest.head? ≠ some .leftParen := by simp
  noPlus : rest.head? ≠ some .plus := by simp
  noMinus : rest.head? ≠ some .minus := by simp

theorem Operands.noParen (o : Operands) {rest : List Token} (noParen : rest.head? ≠ some .leftParen) :
    (o.tokens ++ rest).head? ≠ some .leftParen := by
  cases o with
  | done => exact noParen
  | plus next more => simp [Operands.tokens]
  | minus next more => simp [Operands.tokens]

theorem MoreArguments.ends (m : MoreArguments) {rest : List Token} (ends : Ends rest) : Ends (m.tokens ++ rest) := by
  cases m with
  | done => exact ends
  | comma next more =>
    rw [MoreArguments.tokens]
    exact {}

theorem Value.read (v : Value) (rest : List Token) : plain (value (v.tokens ++ rest)) = some (v.node, rest) := by
  rcases v with x | l
  · rfl
  · cases l <;> rfl

theorem Value.no_call (v : Value) {rest : List Token} (noParen : rest.head? ≠ some .leftParen) (f : String)
    (after : List Token) : v.tokens ++ rest ≠ .name f :: .leftParen :: after := by
  intro same
  rcases v with x | l
  · cases same
    exact noParen rfl
  · cases l <;> cases same

theorem Value.no_paren (v : Value) (rest : List Token) : (v.tokens ++ rest).head? ≠ some .leftParen := by
  rcases v with x | l
  · nofun
  · cases l <;> nofun

mutual
theorem Parenthesized.read (p : Parenthesized) {rest : List Token} (noParen : rest.head? ≠ some .leftParen) :
    plain (functionCall (p.tokens ++ rest)) = some (p.node, rest) := by
  cases p with
  | inParens inner =>
    have ends : Ends (.rightParen :: rest) := {}
    rw [Parenthesized.tokens, List.cons_append, List.append_assoc, List.singleton_append,
      plain_functionCall_other (by simp), plain_parenthesized_paren, inner.read ends, Option.bind_some,
      closes_same, Parenthesized.node]
  | value v =>
    rw [Parenthesized.tokens, plain_functionCall_other (v.no_call noParen), plain_parenthesized_other (v.no_paren rest),
      v.read]
    rfl

theorem FunctionCall.read (c : FunctionCall) {rest : List Token} (noParen : rest.head? ≠ some .leftParen) :
    plain (functionCall (c.tokens ++ rest)) = some (c.node, rest) := by
  cases c with
  | call f arguments =>
    rw [FunctionCall.tokens, List.cons_append, List.cons_append, List.append_assoc, plain_functionCall_call,
      List.singleton_append, arguments.read, closes_same]
    rfl
  | parenthesized inner =>
    rw [FunctionCall.tokens, inner.read noParen]
    rfl

theorem Signed.read (s : Signed) {rest : List Token} (noParen : rest.head? ≠ some .leftParen) :
    plain (signed (s.tokens ++ rest)) = some (s.node, rest) := by
  cases s with
  | plus operand =>
    rw [Signed.tokens, List.cons_append, plain_signed_plus, operand.read noParen]
    rfl
  | minus operand =>
    rw [Signed.tokens, List.cons_append, plain_signed_minus, operand.read noParen]
    rfl
  | unsigned operand =>
    have noSign : ∀ token, ¬ beginsOperand token → (operand.tokens ++ rest).head? ≠ some token := by
      intro token other sign
      obtain ⟨later, front⟩ := List.head?_eq_some_iff.1 sign
      exact operand.ne_cons other _ _ front
    have noPlus := noSign .plus nofun
    have noMinus := noSign .minus nofun
    rw [Signed.tokens, plain_signed_other noPlus noMinus, operand.read noParen]
    rfl

theorem Expression.read (e : Expression) {rest : List Token} (ends : Ends rest) :
    plain (expression (e.tokens ++ rest)) = some (e.node, rest) := by
  obtain ⟨first, more⟩ := e
  rw [Expression.tokens, List.append_assoc, plain_expression, first.read (more.noParen ends.noParen),
    Option.map_some, more.read _ ends]
  rfl

theorem Operands.read (o : Operands) (left : Node) {rest : List Token} (ends : Ends rest) :
    (operands left (o.tokens ++ rest)).plain = (o.node left, rest) := by
  cases o with
  | done => exact plain_operands_other left ends.noPlus ends.noMinus
  | plus next more =>
    rw [Operands.tokens, List.cons_append, List.append_assoc, plain_operands_plus,
      next.read (more.noParen ends.noParen)]
    exact more.read _ ends
  | minus next more =>
    rw [Operands.tokens, List.cons_append, List.append_assoc, plain_operands_minus,
      next.read (more.noParen ends.noParen)]
    exact more.read _ ends

theorem Arguments.read (a : Arguments) (rest : List Token) :
    (arguments (a.tokens ++ .rightParen :: rest)).plain = (a.nodes, .rightParen :: rest) := by
  cases a with
  | none =>
    rw [plain_arguments, Arguments.tokens, List.nil_append, plain_expression_eq_none (by decide)]
    rfl
  | some first more =>
    rw [plain_arguments, Arguments.tokens, List.append_assoc, first.read (more.ends {})]
    simp only [more.read]
    rfl

theorem MoreArguments.read (m : MoreArguments) (rest : List Token) :
    (moreArguments (m.tokens ++ .rightParen :: rest)).plain = (m.nodes, .rightParen :: rest) := by
  cases m with
  | done =>
    rw [MoreArguments.tokens, List.nil_append, plain_moreArguments_other (by simp)]
    rfl
  | comma next more =>
    rw [MoreArguments.tokens, List.cons_append, List.append_assoc, plain_moreArguments_comma,
      next.read (more.ends {})]
    simp only [more.read]
    rfl
end

/-- These tokens do not go on with a conditional in front of them: they do not begin with
    an alternative. -/
def NoAlternative (rest : List Token) : Prop := ∀ after, rest ≠ .name "else" :: .leftBrace :: after

theorem noAlternative_nil : NoAlternative [] := by
  intro after same
  cases same

theorem noAlternative_closed (rest : List Token) : NoAlternative (.rightBrace :: rest) := by
  intro after same
  cases same

theorem plain_moreNames (xs : List String) (rest : List Token) :
    (moreNames ((xs.flatMap fun y => [.comma, .name y]) ++ .rightParen :: rest)).plain = (xs, .rightParen :: rest) := by
  induction xs with
  | nil => rfl
  | cons x xs ih =>
    rw [List.flatMap_cons, List.append_assoc, List.cons_append, List.singleton_append, plain_moreNames_comma, ih]

theorem plain_names (xs : List String) (rest : List Token) :
    (names (parameterTokens xs ++ .rightParen :: rest)).plain = (xs, .rightParen :: rest) := by
  cases xs with
  | nil => rfl
  | cons x xs =>
    rw [parameterTokens, List.cons_append, plain_names_name, plain_moreNames]

def Expression.ofName (x : String) : Expression := .chain (.unsigned (.parenthesized (.value (.name x)))) .done

theorem plain_expression_name (x : String) {rest : List Token} (ends : Ends rest) :
    plain (expression (.name x :: rest)) = some (.var x, rest) :=
  (Expression.ofName x).read ends

/-- No statement begins as an alternative does: whatever reads the name has to stop in
    front of the brace, where no statement ends. -/
theorem Statement.noAlternative (s : Statement) (rest : List Token) : NoAlternative (s.tokens ++ rest) := by
  intro after same
  cases s with
  | expression value =>
    have ends : Ends (.semicolon :: rest) := {}
    have stops : Ends (.leftBrace :: after) := {}
    have read := value.read ends
    rw [Statement.tokens, List.append_assoc, List.singleton_append] at same
    rw [same, plain_expression_name _ stops] at read
    simp at read
  | assignment x value => simp [Statement.tokens] at same
  | conditional condition yes no => simp [Statement.tokens] at same
  | definition f parameters body => simp [Statement.tokens] at same

theorem Statements.noAlternative (body : Statements) {rest : List Token} (noAlternative : NoAlternative rest) :
    NoAlternative (body.tokens ++ rest) := by
  cases body with
  | done => exact noAlternative
  | more first others =>
    rw [Statements.tokens, List.append_assoc]
    exact first.noAlternative _

theorem plain_alternative_none {rest : List Token} (noAlternative : NoAlternative rest) :
    (alternative rest).plain = (none, rest) := by
  by_cases word : rest.head? = some (.name "else")
  · obtain ⟨later, rfl⟩ := List.head?_eq_some_iff.1 word
    have noBrace : later.head? ≠ some .leftBrace := by
      intro brace
      obtain ⟨after, rfl⟩ := List.head?_eq_some_iff.1 brace
      exact noAlternative after rfl
    rw [plain_alternative_else, plain_block_other noBrace]
  · exact plain_alternative_other word

/-- What is read where the statement stands in front of these tokens, and the tokens that
    are left: a conditional without an alternative goes on with one that follows. -/
def Statement.readBefore (s : Statement) (rest : List Token) : Node × List Token :=
  match s with
  | .conditional condition yes .none =>
    (.conditional condition.node yes.nodes (alternative rest).plain.1, (alternative rest).plain.2)
  | s => (s.node, rest)

theorem Statement.readBefore_eq (s : Statement) {rest : List Token} (noAlternative : NoAlternative rest) :
    s.readBefore rest = (s.node, rest) := by
  unfold readBefore
  split
  · rw [plain_alternative_none noAlternative]
    rfl
  · rfl

theorem Statement.readBefore_noLonger (s : Statement) (rest : List Token) :
    (s.readBefore rest).2.length ≤ rest.length := by
  unfold readBefore
  split
  · exact (alternative rest).noLonger
  · exact Nat.le_refl _

mutual
theorem Statement.read_before (s : Statement) (rest : List Token) :
    plain (statement (s.tokens ++ rest)) = some (s.readBefore rest) := by
  rw [plain_statement]
  cases s with
  | expression value =>
    have ends : Ends (.semicolon :: rest) := {}
    rw [Statement.tokens, List.append_assoc, List.singleton_append, value.read ends, Option.bind_some, closes_same,
      Option.some_or, Statement.readBefore, Statement.node]
    nofun
  | assignment x value =>
    have ends : Ends (.semicolon :: rest) := {}
    have stops : Ends (.equals :: (value.tokens ++ .semicolon :: rest)) := {}
    rw [Statement.tokens, List.cons_append, List.cons_append, List.append_assoc, List.singleton_append,
      plain_expression_name x stops, Option.bind_some, closes_eq_none (by simp), Option.none_or, plain_assignment,
      value.read ends, Option.map_some, Option.bind_some, closes_same, Option.some_or, Statement.readBefore, Statement.node]
    nofun
  | conditional condition yes no =>
    have ends : Ends (.rightParen :: .leftBrace :: (yes.tokens ++ .rightBrace :: (no.tokens ++ rest))) := {}
    rw [Statement.tokens, List.cons_append, List.cons_append, List.append_assoc, List.cons_append, List.cons_append,
      List.append_assoc, List.cons_append, plain_expression_eq_none (by decide), Option.bind_none, Option.none_or,
      plain_assignment_other (by simp), Option.bind_none, Option.none_or, plain_conditional, condition.read ends,
      Option.bind_some, closes_same, Option.bind_some, plain_block, yes.read, closes_same, Option.map_some,
      Option.some_or]
    cases no with
    | none => rfl
    | block body =>
      rw [Alternative.tokens, List.cons_append, List.cons_append, List.append_assoc, List.singleton_append,
        plain_alternative_else, plain_block, body.read, closes_same]
      rfl
  | definition f parameters body =>
    rw [Statement.tokens, List.cons_append, List.cons_append, List.cons_append, List.append_assoc, List.cons_append,
      List.cons_append, List.append_assoc, List.singleton_append, plain_expression_eq_none (by decide),
      Option.bind_none, Option.none_or, plain_assignment_other (by simp), Option.bind_none, Option.none_or,
      plain_conditional_other (by simp), Option.none_or, plain_definition, plain_names, closes_same, Option.bind_some,
      plain_block, body.read, closes_same, Option.map_some, Statement.readBefore, Statement.node]
    nofun

theorem Statements.read (body : Statements) (rest : List Token) :
    (statements (body.tokens ++ .rightBrace :: rest)).plain = (body.nodes, .rightBrace :: rest) := by
  rw [plain_statements]
  cases body with
  | done =>
    rw [Statements.tokens, List.nil_append, plain_statement_eq_none (by decide) (by decide) (by decide)]
    rfl
  | more first others =>
    have next : NoAlternative (others.tokens ++ .rightBrace :: rest) := others.noAlternative (noAlternative_closed rest)
    rw [Statements.tokens, List.append_assoc, first.read_before, first.readBefore_eq next]
    simp only [others.read]
    rfl
end

/-- A statement in front of tokens that are no alternative is read to its end exactly. -/
theorem Statement.read (s : Statement) {rest : List Token} (noAlternative : NoAlternative rest) :
    plain (statement (s.tokens ++ rest)) = some (s.node, rest) := by
  rw [s.read_before, s.readBefore_eq noAlternative]

/-- What has a derivation is a program, and its statements are those of the derivation. -/
theorem Program.read (p : Program) : program p.tokens = .ok p.nodes := by
  cases p with
  | done => rw [Statements.tokens, program, Statements.nodes]
  | more first others =>
    have next : NoAlternative (others.tokens ++ []) := others.noAlternative noAlternative_nil
    rw [List.append_nil] at next
    rw [Statements.tokens, program_of_statement (first.read next), Program.read others]
    rfl

end Scriptlet.Grammar

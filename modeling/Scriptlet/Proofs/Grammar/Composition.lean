import Scriptlet.Proofs.Parsing
import Scriptlet.Proofs.Lexemes

/-!
The tokens of a program are put together from single tokens and from blocks between
braces (`Composed`). So braces are nested in a program (`nested_of_program`), and
multiplication and division signs, string literals and unknown characters, which no rule
mentions, are not in it (`vocabulary_of_program`). The last token of a program is a closing
brace, or a semicolon behind an expression (`endsStatement_of_program`).
-/
namespace Scriptlet

def Token.inVocabulary : Token → Bool
  | times | divide | string _ | unknown _ => false
  | _ => true

def Token.isBrace : Token → Bool
  | leftBrace | rightBrace => true
  | _ => false

namespace Grammar

/-- A property of lists of tokens that goes over from parts to the whole, where a part is
    a single token that is no brace, or a block. -/
structure Composed (P : List Token → Prop) : Prop where
  nil : P []
  append : ∀ {front back}, P front → P back → P (front ++ back)
  token : ∀ {token : Token}, token.inVocabulary → token.isBrace = false → P [token]
  block : ∀ {inner}, P inner → P (.leftBrace :: (inner ++ [.rightBrace]))

section Composed
variable {P : List Token → Prop}

theorem Composed.cons (composed : Composed P) {token : Token} {tokens : List Token} (rest : P tokens)
    (known : token.inVocabulary := by rfl) (noBrace : token.isBrace = false := by rfl) : P (token :: tokens) :=
  composed.append (composed.token known noBrace) rest

theorem Composed.snoc (composed : Composed P) {token : Token} {tokens : List Token} (front : P tokens)
    (known : token.inVocabulary := by rfl) (noBrace : token.isBrace = false := by rfl) : P (tokens ++ [token]) :=
  composed.append front (composed.token known noBrace)

theorem Composed.block_append (composed : Composed P) {inner tokens : List Token} (within : P inner) (rest : P tokens) :
    P (.leftBrace :: (inner ++ .rightBrace :: tokens)) := by
  have parts := composed.append (composed.block within) rest
  rwa [List.cons_append, List.append_assoc, List.singleton_append] at parts

theorem Value.composed (composed : Composed P) (v : Value) : P v.tokens := by
  rcases v with x | l
  · exact composed.token rfl rfl
  · cases l <;> exact composed.token rfl rfl

theorem parameters_composed (composed : Composed P) (parameters : List String) : P (parameterTokens parameters) := by
  cases parameters with
  | nil => exact composed.nil
  | cons x xs =>
    refine composed.cons ?_
    induction xs with
    | nil => exact composed.nil
    | cons y ys ih => exact composed.cons (composed.cons ih)

mutual
theorem Parenthesized.composed (composed : Composed P) (p : Parenthesized) : P p.tokens := by
  cases p with
  | inParens inner => exact composed.cons (composed.snoc (inner.composed composed))
  | value v => exact v.composed composed

theorem FunctionCall.composed (composed : Composed P) (c : FunctionCall) : P c.tokens := by
  cases c with
  | call f arguments => exact composed.cons (composed.cons (composed.snoc (arguments.composed composed)))
  | parenthesized inner => exact inner.composed composed

theorem Signed.composed (composed : Composed P) (s : Signed) : P s.tokens := by
  cases s with
  | plus operand => exact composed.cons (operand.composed composed)
  | minus operand => exact composed.cons (operand.composed composed)
  | unsigned operand => exact operand.composed composed

theorem Expression.composed (composed : Composed P) (e : Expression) : P e.tokens := by
  obtain ⟨first, more⟩ := e
  exact composed.append (first.composed composed) (more.composed composed)

theorem Operands.composed (composed : Composed P) (o : Operands) : P o.tokens := by
  cases o with
  | done => exact composed.nil
  | plus next more => exact composed.cons (composed.append (next.composed composed) (more.composed composed))
  | minus next more => exact composed.cons (composed.append (next.composed composed) (more.composed composed))

theorem Arguments.composed (composed : Composed P) (a : Arguments) : P a.tokens := by
  cases a with
  | none => exact composed.nil
  | some first more => exact composed.append (first.composed composed) (more.composed composed)

theorem MoreArguments.composed (composed : Composed P) (m : MoreArguments) : P m.tokens := by
  cases m with
  | done => exact composed.nil
  | comma next more => exact composed.cons (composed.append (next.composed composed) (more.composed composed))
end

mutual
theorem Statement.composed (composed : Composed P) (s : Statement) : P s.tokens := by
  cases s with
  | expression value => exact composed.snoc (value.composed composed)
  | assignment x value => exact composed.cons (composed.cons (composed.snoc (value.composed composed)))
  | conditional condition yes no =>
    have blocks := composed.block_append (yes.composed composed) (no.composed composed)
    exact composed.cons (composed.cons (composed.append (condition.composed composed) (composed.cons blocks)))
  | definition f parameters body =>
    have block := composed.block (body.composed composed)
    have front := parameters_composed composed parameters
    exact composed.cons (composed.cons (composed.cons (composed.append front (composed.cons block))))

theorem Alternative.composed (composed : Composed P) (a : Alternative) : P a.tokens := by
  cases a with
  | none => exact composed.nil
  | block statements => exact composed.cons (composed.block (statements.composed composed))

theorem Statements.composed (composed : Composed P) (s : Statements) : P s.tokens := by
  cases s with
  | done => exact composed.nil
  | more first others => exact composed.append (first.composed composed) (others.composed composed)
end

end Composed

end Grammar

open Parsing Grammar

theorem composed_of_program {P : List Token → Prop} (composed : Composed P) {tokens : List Token} {nodes : List Node}
    (read : program tokens = .ok nodes) : P tokens := by
  obtain ⟨p, rfl, rfl⟩ := (program_eq_ok_iff tokens nodes).1 read
  exact p.composed composed

theorem vocabulary_of_program {tokens : List Token} {nodes : List Node} (read : program tokens = .ok nodes) :
    ∀ token ∈ tokens, token.inVocabulary := by
  refine composed_of_program (P := fun tokens => ∀ token ∈ tokens, token.inVocabulary) ⟨nofun, ?_, ?_, ?_⟩ read
  · intro front back known known' token within
    exact (List.mem_append.1 within).elim (known token) (known' token)
  · intro token known _ other within
    rwa [List.mem_singleton.1 within]
  · intro inner known token within
    simp only [List.mem_cons, List.mem_append, List.not_mem_nil, or_false] at within
    rcases within with rfl | within | rfl
    · rfl
    · exact known token within
    · rfl

/-- Read from the left, the tokens never close more braces than they have opened, and at
    their end all braces are closed. -/
structure Nested (tokens : List Token) : Prop where
  balanced : tokens.count .leftBrace = tokens.count .rightBrace
  beginnings : ∀ front, front <+: tokens → front.count .rightBrace ≤ front.count .leftBrace

theorem nested_token {token : Token} (noBrace : token.isBrace = false) : Nested [token] := by
  have noLeft : token ≠ .leftBrace := by rintro rfl; cases noBrace
  have noRight : token ≠ .rightBrace := by rintro rfl; cases noBrace
  refine ⟨by simp [noLeft, noRight], fun front begins => ?_⟩
  have none : [token].count .rightBrace = 0 := by simp [noRight]
  have atMost := begins.count_le .rightBrace
  omega

theorem Nested.append {first later : List Token} (nested : Nested first) (nested' : Nested later) :
    Nested (first ++ later) where
  balanced := by rw [List.count_append, List.count_append, nested.balanced, nested'.balanced]
  beginnings front begins := by
    rcases List.prefix_or_prefix_of_prefix begins (List.prefix_append first later) with inside | ⟨rest, rfl⟩
    · exact nested.beginnings front inside
    · have within := nested'.beginnings rest ((List.prefix_append_right_inj first).1 begins)
      rw [List.count_append, List.count_append, nested.balanced]
      exact Nat.add_le_add_left within _

theorem Nested.block {inner : List Token} (nested : Nested inner) : Nested (.leftBrace :: (inner ++ [.rightBrace])) := by
  have balanced : List.count Token.leftBrace (.leftBrace :: (inner ++ [.rightBrace])) =
      List.count .rightBrace (.leftBrace :: (inner ++ [.rightBrace])) := by
    simp [List.count_append, nested.balanced]
  refine ⟨balanced, fun front begins => ?_⟩
  rcases List.prefix_cons_iff.1 begins with rfl | ⟨rest, rfl, further⟩
  · exact Nat.le_refl 0
  rcases List.prefix_concat_iff.1 further with rfl | inside
  · exact Nat.le_of_eq balanced.symm
  · -- the brace of the block is still open
    have within := nested.beginnings rest inside
    rw [List.count_cons_self, List.count_cons_of_ne (by decide)]
    exact Nat.le_succ_of_le within

theorem nested_of_program {tokens : List Token} {nodes : List Node} (read : program tokens = .ok nodes) : Nested tokens := by
  have empty : Nested [] := ⟨rfl, fun front begins => by rw [List.prefix_nil.1 begins]; exact Nat.le_refl 0⟩
  exact composed_of_program ⟨empty, Nested.append, fun _ noBrace => nested_token noBrace, Nested.block⟩ read

/-- A text ends inside a string literal only if there is one among its tokens, whatever
    stands behind it. -/
theorem endsQuoted_of_vocabulary {source : String} (more : String)
    (known : ∀ token ∈ tokenize (source ++ more), token.inVocabulary) : Lexeme.endsQuoted source.toList = false := by
  refine Lexeme.endsQuoted_eq_false more.toList ?_
  rw [← String.toList_append]
  rintro token within content rfl
  cases known _ within

theorem endsQuoted_of_program {source : String} {nodes : List Node} (read : program (tokenize source) = .ok nodes) :
    Lexeme.endsQuoted source.toList = false :=
  endsQuoted_of_vocabulary "" (by rw [String.append_empty]; exact vocabulary_of_program read)

namespace Grammar

def EndsIn (p : Token → Prop) (tokens : List Token) : Prop := ∃ last ∈ tokens.getLast?, p last

section EndsIn
variable {p : Token → Prop} {token : Token} {tokens : List Token}

theorem endsIn_singleton (holds : p token) : EndsIn p [token] := ⟨token, rfl, holds⟩

theorem EndsIn.append (ends : EndsIn p tokens) (front : List Token) : EndsIn p (front ++ tokens) := by
  obtain ⟨last, within, holds⟩ := ends
  refine ⟨last, ?_, holds⟩
  rw [List.getLast?_append, Option.mem_def.1 within]
  rfl

theorem EndsIn.cons (ends : EndsIn p tokens) (token : Token) : EndsIn p (token :: tokens) := ends.append [token]

end EndsIn

def endsExpression : Token → Bool
  | .name _ | .int _ | .bool _ | .null | .rightParen => true
  | _ => false

abbrev EndsExpression (tokens : List Token) : Prop := EndsIn (endsExpression ·) tokens

theorem Value.ends (v : Value) : EndsExpression v.tokens := by
  rcases v with x | l
  · exact endsIn_singleton rfl
  · cases l <;> exact endsIn_singleton rfl

mutual
theorem Parenthesized.ends (p : Parenthesized) : EndsExpression p.tokens := by
  cases p with
  | inParens inner =>
    have closed : EndsExpression [.rightParen] := endsIn_singleton rfl
    exact (closed.append inner.tokens).cons .leftParen
  | value v => exact v.ends

theorem FunctionCall.ends (c : FunctionCall) : EndsExpression c.tokens := by
  cases c with
  | call f arguments =>
    have closed : EndsExpression [.rightParen] := endsIn_singleton rfl
    exact ((closed.append arguments.tokens).cons .leftParen).cons (.name f)
  | parenthesized inner => exact inner.ends

theorem Signed.ends (s : Signed) : EndsExpression s.tokens := by
  cases s with
  | plus operand => exact operand.ends.cons .plus
  | minus operand => exact operand.ends.cons .minus
  | unsigned operand => exact operand.ends

theorem Expression.ends (e : Expression) : EndsExpression e.tokens := by
  obtain ⟨first, more⟩ := e
  exact more.ends first.ends

theorem Operands.ends (o : Operands) {front : List Token} (ends : EndsExpression front) :
    EndsExpression (front ++ o.tokens) := by
  cases o with
  | done =>
    rw [Operands.tokens, List.append_nil]
    exact ends
  | plus next more =>
    rw [Operands.tokens, ← List.cons_append, ← List.append_assoc]
    exact more.ends ((next.ends.cons .plus).append front)
  | minus next more =>
    rw [Operands.tokens, ← List.cons_append, ← List.append_assoc]
    exact more.ends ((next.ends.cons .minus).append front)
end

/-- The tokens end as a statement does: with a closing brace, or with an expression and a
    semicolon. -/
def EndsStatement (tokens : List Token) : Prop :=
  EndsIn (· = .rightBrace) tokens ∨ ∃ front, tokens = front ++ [.semicolon] ∧ EndsExpression front

theorem EndsStatement.append {back : List Token} (ends : EndsStatement back) (front : List Token) :
    EndsStatement (front ++ back) := by
  rcases ends with brace | ⟨inner, rfl, ends⟩
  · exact .inl (brace.append front)
  · exact .inr ⟨front ++ inner, (List.append_assoc ..).symm, ends.append front⟩

theorem Statement.ends (s : Statement) : EndsStatement s.tokens := by
  have closed : EndsIn (· = .rightBrace) [.rightBrace] := endsIn_singleton rfl
  cases s with
  | expression value => exact .inr ⟨value.tokens, rfl, value.ends⟩
  | assignment x value => exact .inr ⟨_, rfl, (value.ends.cons .equals).cons (.name x)⟩
  | conditional condition yes no =>
    have tail : EndsIn (· = .rightBrace) (.rightBrace :: no.tokens) := by
      cases no with
      | none => exact closed
      | block statements => exact (((closed.append statements.tokens).cons _).cons _).cons _
    exact .inl ((((((tail.append yes.tokens).cons _).cons _).append condition.tokens).cons _).cons _)
  | definition f parameters body =>
    have tail := (closed.append body.tokens).cons .leftBrace
    exact .inl (((((tail.cons _).append (parameterTokens parameters)).cons _).cons _).cons _)

theorem Statements.ends (s : Statements) : s = .done ∨ EndsStatement s.tokens := by
  cases s with
  | done => exact .inl rfl
  | more first others =>
    rw [Statements.tokens]
    rcases others.ends with rfl | ends
    · rw [Statements.tokens, List.append_nil]
      exact .inr first.ends
    · exact .inr (ends.append first.tokens)

end Grammar

theorem endsStatement_of_program {tokens : List Token} {nodes : List Node} (read : program tokens = .ok nodes) :
    tokens = [] ∨ EndsStatement tokens := by
  obtain ⟨p, rfl, rfl⟩ := (program_eq_ok_iff tokens nodes).1 read
  rcases p.ends with rfl | ends
  · exact .inl rfl
  · exact .inr ends

end Scriptlet

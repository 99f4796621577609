import Scriptlet.Proofs.Reachable
import Scriptlet.Proofs.Evaluation.Calls

namespace Scriptlet
open Parsing Evaluation

theorem tokenize_punctuation {a b : String} {c : Char} {token : Token} (characters : a.toList = c :: b.toList)
    (mark : Token.ofPunctuation? c = some token) : tokenize a = token :: tokenize b := by
  obtain ⟨alone, noBlank⟩ := Lexeme.alone_of_punctuation mark
  have read : Lexeme.token? [c] = some token := by
    rw [Lexeme.token?_alone alone, noBlank, mark]
    rfl
  unfold tokenize
  rw [characters, Lexeme.split, Lexeme.extent_alone alone, List.take_zero, List.drop_zero, List.filterMap_cons_some read]

theorem tokenize_statement {token : Token} (printable : token.IsPrintable) :
    tokenize (token.text ++ ";") = [token, .semicolon] := by
  have semicolon : tokenize ";" = [.semicolon] := by decide +kernel
  rw [(Lexeme.spells_text printable).tokenize_append (by rintro c ⟨⟩; exact ⟨by decide, by decide⟩), semicolon]

theorem text_of_negative {i j : Integer} (negative : i.toInt < 0) (opposite : i.neg? = some j) :
    (Value.int i).text = "-" ++ (Value.int j).text := by
  have same : j.toInt = -i.toInt := Integer.ofInt?_eq_some_iff.1 opposite
  have natural : ¬ j.toInt < 0 := by omega
  rw [Value.text, Value.text, Integer.text, Integer.text, if_pos negative, if_neg natural, same, Int.natAbs_neg]

theorem program_of_sign (c : Char) (rest : List Token) :
    program (.minus :: .unknown c :: rest) = .error ⟨.minus, some (.unknown c)⟩ := by
  have unread : plain (signed (.unknown c :: rest)) = none := by
    rw [plain_signed_other (by simp) (by simp), plain_functionCall_other (by simp), plain_parenthesized_other (by simp)]
    rfl
  refine program_of_none ?_
  rw [plain_statement, plain_expression, plain_signed_minus, unread, plain_assignment_other (by simp),
    plain_conditional_other (by simp), plain_definition_other (by simp)]
  rfl

/-- The literal that a value is written as, if it is no negative integer. -/
def Value.written : Value → Grammar.Literal
  | int i => .int i
  | bool b => .bool b
  | null => .null

theorem Value.node_written (v : Value) : v.written.node = v.literal := by cases v <;> rfl

def Value.token : Value → Token
  | int i => .int i
  | bool b => .bool b
  | null => .null

theorem Value.tokens_written (v : Value) : v.written.tokens = [v.token] := by cases v <;> rfl

theorem Value.text_token (v : Value) : v.token.text = v.text := by
  cases v with
  | int i => rfl
  | bool b => cases b <;> rfl
  | null => rfl

theorem Value.printable_token {v : Value} (natural : ∀ i, v = .int i → 0 ≤ i.toInt) : v.token.IsPrintable := by
  cases v with
  | int i => exact natural i rfl
  | bool b => trivial
  | null => trivial

theorem tokenize_text {v : Value} (natural : ∀ i, v = .int i → 0 ≤ i.toInt) :
    tokenize (v.text ++ ";") = v.written.tokens ++ [.semicolon] := by
  rw [← v.text_token, tokenize_statement (Value.printable_token natural), v.tokens_written, List.singleton_append]

theorem program_of_signed (s : Grammar.Signed) : program (s.tokens ++ [.semicolon]) = .ok [s.node] := by
  have tokens : Grammar.Statements.tokens (.more (.expression (.chain s .done)) .done) = s.tokens ++ [.semicolon] := by
    simp [Grammar.Statements.tokens, Grammar.Statement.tokens, Grammar.Expression.tokens, Grammar.Operands.tokens]
  rw [← tokens]
  exact Grammar.Program.read _

theorem program_text {v : Value} (natural : ∀ i, v = .int i → 0 ≤ i.toInt) :
    program (tokenize (v.text ++ ";")) = .ok [v.literal] := by
  rw [tokenize_text natural, ← v.node_written]
  exact program_of_signed (.unsigned (.parenthesized (.value (.literal v.written))))

theorem program_text_negative {i j : Integer} (negative : i.toInt < 0) (opposite : i.neg? = some j) :
    program (tokenize ((Value.int i).text ++ ";")) = .ok [.minus (.int j)] := by
  have same : j.toInt = -i.toInt := Integer.ofInt?_eq_some_iff.1 opposite
  have natural : ∀ k, Value.int j = .int k → 0 ≤ k.toInt := by
    rintro _ ⟨⟩
    omega
  have behind : ("-" ++ (Value.int j).text ++ ";").toList = '-' :: ((Value.int j).text ++ ";").toList := by simp
  rw [text_of_negative negative opposite, tokenize_punctuation behind rfl, tokenize_text natural]
  exact program_of_signed (.minus (.unsigned (.parenthesized (.value (.literal (.int j))))))

theorem program_text_least :
    program (tokenize ((Value.int Int64.minValue).text ++ ";")) = .error ⟨.minus, some (.unknown '9')⟩ := by
  have tokens : tokenize ((Value.int Int64.minValue).text ++ ";") = [.minus, .unknown '9', .semicolon] := by
    decide +kernel
  rw [tokens]
  exact program_of_sign '9' [.semicolon]

/-- A value is written without a sign, or is the opposite of an integer, or is the least
    integer. -/
theorem Value.sign_cases (v : Value) :
    (∀ i, v = .int i → 0 ≤ i.toInt) ∨ (∃ i j, v = .int i ∧ i.toInt < 0 ∧ i.neg? = some j) ∨ v = .int Int64.minValue := by
  by_cases natural : ∀ i, v = .int i → 0 ≤ i.toInt
  · exact .inl natural
  · simp only [not_forall] at natural
    obtain ⟨i, rfl, negative⟩ := natural
    cases opposite : i.neg? with
    | some j => exact .inr (.inl ⟨i, j, rfl, Int.not_le.1 negative, opposite⟩)
    | none =>
      have beyond : ¬ Integer.InRange (-i.toInt) := Integer.ofInt?_eq_none_iff.1 opposite
      have least : Int64.minValue.toInt = -2 ^ 63 := by decide
      have greatest : Int64.maxValue.toInt = 2 ^ 63 - 1 := by decide
      have low := i.minValue_le_toInt
      unfold Integer.InRange at beyond
      have same : i.toInt = Int64.minValue.toInt := by omega
      exact .inr (.inr (by rw [Int64.toInt_inj.1 same]))

theorem evaluate_literal (host : Host) (depth : Nat) (env : Environment) (v : Value) :
    evaluate host depth (.source [v.literal]) env = some ⟨.value v, env, []⟩ := by
  rw [evaluate, evaluateNode, evaluateBlock, evaluateNode_literal, value_bind]
  rfl

theorem evaluate_opposite (host : Host) (depth : Nat) (env : Environment) {i j : Integer} (opposite : i.neg? = some j) :
    evaluate host depth (.source [.minus (.int j)]) env = some ⟨.value (.int i), env, []⟩ := by
  have back : j.neg? = some i := by
    have same : j.toInt = -i.toInt := Integer.ofInt?_eq_some_iff.1 opposite
    exact Integer.ofInt?_eq_some_iff.2 (by omega)
  simp only [evaluate, evaluateNode, evaluateBlock, Evaluation.signed, pure_bind, back, orFail, bind_pure]
  rfl

/-- The text of a value with a semicolon is a program that comes to this value and leaves
    the environment as it is, exactly if the value is not the least integer. The text of
    the least integer has a syntax error, and nothing happens to the environment. -/
theorem run_text_eq_iff (host : Host) (depth : Nat) (env : Environment) :
    (∀ v : Value, run host depth (v.text ++ ";") env = some ⟨.value v, env, []⟩ ↔ v ≠ .int Int64.minValue) ∧
      run host depth ((Value.int Int64.minValue).text ++ ";") env =
        some ⟨.error (.cannotEvaluate (.syntaxError "Unexpected tokens `Minus`, `UnknownCharacter`")), env, []⟩ := by
  have least := @Session.run_of_error host depth env _ _ program_text_least
  refine ⟨fun v => ⟨?_, fun other => ?_⟩, least⟩
  · rintro value rfl
    rw [least] at value
    cases value
  · obtain natural | ⟨i, j, rfl, negative, opposite⟩ | same := v.sign_cases
    · rw [Session.run_of_program (program_text natural), evaluate_literal]
    · rw [Session.run_of_program (program_text_negative negative opposite), evaluate_opposite host depth env opposite]
    · exact absurd same other

end Scriptlet

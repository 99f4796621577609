import Scriptlet.Proofs.Parsing

namespace Scriptlet
open Parsing Grammar

/-- A program is read as far as statements go, and there has to be nothing behind them. -/
theorem program_eq (tokens : List Token) :
    program tokens =
      match (statements tokens).plain with
      | (nodes, []) => .ok nodes
      | (_, token :: rest) => .error ⟨token, rest.head?⟩ := by
  rw [plain_statements]
  rcases first : plain (statement tokens) with _ | ⟨node, later⟩
  · cases tokens with
    | nil => rw [program]
    | cons token rest => exact program_of_none first
  · have shorter := plain_shorter first
    rw [program_of_statement first, program_eq later]
    dsimp only
    rcases (statements later).plain with ⟨nodes, _ | ⟨token, rest⟩⟩ <;> rfl
termination_by tokens.length

theorem program_of_statements {tokens rest : List Token} {nodes : List Node}
    (read : (statements tokens).plain = (nodes, rest)) :
    ∃ before, tokens = before ++ rest ∧ program before = .ok nodes := by
  obtain ⟨p, listed, front⟩ := statements_derived tokens
  rw [read] at listed front
  exact ⟨p.tokens, front, (program_eq_ok_iff _ _).2 ⟨p, rfl, listed⟩⟩

/-- Of a program that other tokens follow everything is read, and maybe more. -/
theorem Grammar.Statements.read_before (p : Program) (rest : List Token) :
    (statements (p.tokens ++ rest)).plain.2.length ≤ rest.length := by
  cases p with
  | done => exact (statements rest).noLonger
  | more first others =>
    rw [Statements.tokens, List.append_assoc, plain_statements, first.read_before]
    cases others with
    | done =>
      -- the last statement may go on with an alternative, and other statements may follow it
      rw [Statements.tokens, List.nil_append]
      exact Nat.le_trans (statements _).noLonger (first.readBefore_noLonger rest)
    | more second others =>
      have next : NoAlternative ((Statements.more second others).tokens ++ rest) := by
        rw [Statements.tokens, List.append_assoc]
        exact second.noAlternative _
      rw [first.readBefore_eq next]
      exact Grammar.Statements.read_before (.more second others) rest

theorem statements_of_program {before : List Token} {nodes : List Node} (read : program before = .ok nodes)
    (rest : List Token) : (statements (before ++ rest)).plain.2.length ≤ rest.length := by
  obtain ⟨p, rfl, _⟩ := (program_eq_ok_iff _ _).1 read
  exact p.read_before rest

/-- A list of tokens is a program, or it is a syntax error: then some beginning of it is a
    program, no longer one is, and the message names the kinds of the token behind it and
    of the one behind that, or the end of the input. -/
theorem parse_longest (tokens : List Token) :
    (∃ nodes, parse tokens = .source nodes) ∨
    ∃ before unexpected after nodes, tokens = before ++ unexpected :: after ∧ parse before = .source nodes ∧
      (∀ longer, longer <+: tokens → before.length < longer.length → ∀ nodes, parse longer ≠ .source nodes) ∧
      parse tokens = .syntaxError ("Unexpected tokens `" ++ unexpected.kind ++ "`, `" ++
        (after.head?.map Token.kind).getD "end of input" ++ "`") := by
  rcases read : (statements tokens).plain with ⟨nodes, _ | ⟨unexpected, after⟩⟩
  · have complete : program tokens = .ok nodes := by rw [program_eq, read]
    exact .inl ⟨nodes, (parse_eq_source_iff _ _).2 complete⟩
  · have stopped : program tokens = .error ⟨unexpected, after.head?⟩ := by rw [program_eq, read]
    obtain ⟨before, same, front⟩ := program_of_statements read
    refine .inr ⟨before, unexpected, after, nodes, same, (parse_eq_source_iff _ _).2 front, ?_, ?_⟩
    · rintro longer ⟨rest, split⟩ further nodes' valid
      have reach := statements_of_program ((parse_eq_source_iff _ _).1 valid) rest
      have length : before.length + (after.length + 1) = longer.length + rest.length := by
        rw [← List.length_append, split, same, List.length_append, List.length_cons]
      rw [split, read] at reach
      simp only [List.length_cons] at reach
      omega
    · rw [parse, stopped]
      rfl

end Scriptlet

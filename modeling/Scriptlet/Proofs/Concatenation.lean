import Scriptlet.Proofs.Grammar.Composition

namespace Scriptlet
open Parsing Grammar

theorem parseText_eq_source_iff (source : String) (nodes : List Node) :
    parseText source = .source nodes ↔ program (tokenize source) = .ok nodes :=
  parse_eq_source_iff _ _

theorem program_newline {a b : String} {nodes more : List Node} (first : program (tokenize a) = .ok nodes)
    (second : program (tokenize b) = .ok more) : program (tokenize (a ++ "\n" ++ b)) = .ok (nodes ++ more) := by
  rw [tokenize_newline (endsQuoted_of_program first)]
  exact program_append first second

/-- Two programs one after the other are the program of the statements of the first one
    and then those of the second one. The first one may end in a comment or in a
    conditional without a second branch, and the second one may begin with the name
    "else". -/
theorem parse_programs :
    (∀ {s t : String} {nodes more : List Node}, parseText s = .source nodes → parseText t = .source more →
      parseText (s ++ "\n" ++ t) = .source (nodes ++ more)) ∧
    ∀ {before after : List Token} {nodes more : List Node}, parse before = .source nodes →
      parse after = .source more → parse (before ++ after) = .source (nodes ++ more) := by
  constructor
  · intro s t nodes more first second
    rw [parseText_eq_source_iff] at first second ⊢
    exact program_newline first second
  · intro before after nodes more first second
    rw [parse_eq_source_iff] at first second ⊢
    exact program_append first second

/-- A conditional without a second branch and a comment, and then an assignment to the
    variable "else": the name does not make it the second branch. -/
theorem parse_programs_else :
    parseText "if (null) \x7b\x7d # no" = .source [.conditional .null [] none] ∧
      parseText "else = else(else);" = .source [.assignment "else" (.call "else" [.var "else"])] ∧
      parseText ("if (null) \x7b\x7d # no" ++ "\n" ++ "else = else(else);") =
        .source [.conditional .null [] none, .assignment "else" (.call "else" [.var "else"])] ∧
      parse (tokenize "if (null) \x7b\x7d # no" ++ tokenize "else = else(else);") =
        .source [.conditional .null [] none, .assignment "else" (.call "else" [.var "else"])] := by
  have test : parseText "if (null) \x7b\x7d # no" = .source [.conditional .null [] none] :=
    (parseText_eq_source_iff _ _).2 ((program_eq_ok_iff _ _).2
      ⟨.more (.conditional (.chain (.unsigned (.parenthesized (.value (.literal .null)))) .done) .done .none) .done,
        by decide +kernel, rfl⟩)
  have assign : parseText "else = else(else);" = .source [.assignment "else" (.call "else" [.var "else"])] :=
    (parseText_eq_source_iff _ _).2 ((program_eq_ok_iff _ _).2
      ⟨.more (.assignment "else" (.chain (.unsigned (.call "else" (.some (.ofName "else") .done))) .done)) .done,
        by decide +kernel, rfl⟩)
  obtain ⟨texts, tokens⟩ := parse_programs
  exact ⟨test, assign, texts test assign, tokens test assign⟩

def statementsOf (source : String) : List Node :=
  match program (tokenize source) with
  | .ok statements => statements
  | .error _ => []

theorem program_statementsOf {source : String} (parses : ∃ nodes, parseText source = .source nodes) :
    program (tokenize source) = .ok (statementsOf source) := by
  obtain ⟨nodes, parses⟩ := parses
  have read := (parseText_eq_source_iff source nodes).1 parses
  unfold statementsOf
  rw [read]

theorem statementsOf_eq_nil_iff {source : String} (parses : ∃ nodes, parseText source = .source nodes) :
    statementsOf source = [] ↔ parseText source = .source [] := by
  rw [parseText_eq_source_iff, program_statementsOf parses, Except.ok.injEq]

theorem program_lines {lines : List String} (parses : ∀ line ∈ lines, ∃ nodes, parseText line = .source nodes) :
    program (tokenize ("\n".intercalate lines)) = .ok (lines.flatMap statementsOf) := by
  induction lines with
  | nil =>
    have none : tokenize ("\n".intercalate []) = [] := by simp [tokenize, Lexeme.split]
    rw [none, program, List.flatMap_nil]
  | cons line lines ih =>
    obtain ⟨first, others⟩ := List.forall_mem_cons.1 parses
    rcases lines with _ | ⟨next, lines⟩
    · rw [String.intercalate_singleton, List.flatMap_cons, List.flatMap_nil, List.append_nil]
      exact program_statementsOf first
    · rw [String.intercalate_cons_cons, List.flatMap_cons]
      exact program_newline (program_statementsOf first) (ih others)

end Scriptlet

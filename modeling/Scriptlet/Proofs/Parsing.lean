import Scriptlet.Proofs.Grammar.Unambiguous

namespace Scriptlet
open Parsing Grammar

theorem parse_eq_source_iff (tokens : List Token) (nodes : List Node) :
    parse tokens = .source nodes ↔ program tokens = .ok nodes := by
  unfold parse
  cases program tokens <;> simp

theorem program_eq_ok_iff (tokens : List Token) (nodes : List Node) :
    program tokens = .ok nodes ↔ ∃ p : Program, p.tokens = tokens ∧ p.nodes = nodes := by
  constructor
  · intro read
    obtain ⟨p, listed, derived⟩ := program_derived tokens read
    exact ⟨p, derived, listed⟩
  · rintro ⟨p, rfl, rfl⟩
    exact Program.read p

/-- A list of tokens is the program of these statements exactly if the grammar derives
    it as these statements, and it has no other derivation. The tokens are arbitrary:
    those that no text gives, such as negative numbers, count as well. -/
theorem parse_eq_source_iff_derivation (tokens : List Token) :
    (∀ nodes, parse tokens = .source nodes ↔ ∃ p : Program, p.tokens = tokens ∧ p.nodes = nodes) ∧
      ∀ p q : Program, p.tokens = tokens → q.tokens = tokens → p = q := by
  constructor
  · intro nodes
    rw [parse_eq_source_iff, program_eq_ok_iff]
  · rintro p q rfl same
    exact Statements.unique same.symm

def Grammar.Statements.append : Statements → Statements → Statements
  | .done, later => later
  | .more first others, later => .more first (others.append later)

theorem Grammar.Statements.tokens_append (p q : Statements) : (p.append q).tokens = p.tokens ++ q.tokens := by
  cases p with
  | done => rfl
  | more first others => rw [append, tokens, tokens, others.tokens_append, List.append_assoc]

theorem Grammar.Statements.nodes_append (p q : Statements) : (p.append q).nodes = p.nodes ++ q.nodes := by
  cases p with
  | done => rfl
  | more first others => rw [append, nodes, nodes, others.nodes_append, List.cons_append]

/-- Programs one after another are a program: nothing at the end of the one can go on
    into the other, not even a conditional in front of the name "else". -/
theorem program_append {before after : List Token} {nodes later : List Node} (first : program before = .ok nodes)
    (second : program after = .ok later) : program (before ++ after) = .ok (nodes ++ later) := by
  obtain ⟨p, rfl, rfl⟩ := (program_eq_ok_iff _ _).1 first
  obtain ⟨q, rfl, rfl⟩ := (program_eq_ok_iff _ _).1 second
  rw [← p.tokens_append, ← p.nodes_append]
  exact Program.read _

end Scriptlet

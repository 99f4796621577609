import Scriptlet.Entry
import Scriptlet.Proofs.Grammar.Composition

namespace Scriptlet
open Parsing Grammar

theorem endsExpression_of_program {tokens : List Token} {nodes : List Node}
    (read : program (tokens ++ [.semicolon]) = .ok nodes) : EndsExpression tokens := by
  rcases endsStatement_of_program read with empty | ⟨last, within, rfl⟩ | ⟨front, same, ends⟩
  · exact absurd empty (List.concat_ne_nil _ _)
  · rw [List.getLast?_concat] at within
    cases within
  · rwa [List.append_cancel_right same]

theorem last_of_program {tokens : List Token} {nodes : List Node} (read : program tokens = .ok nodes) {last : Token}
    (ends : tokens.getLast? = some last) : last = .semicolon ∨ last = .rightBrace := by
  rcases endsStatement_of_program read with rfl | ⟨brace, within, rfl⟩ | ⟨front, rfl, _⟩
  · cases ends
  · rw [ends] at within
    cases within
    exact .inr rfl
  · rw [List.getLast?_concat] at ends
    cases ends
    exact .inl rfl

namespace Entry

def joined (entry : String) : String := String.ofList (joinLines entry.toList)

/-- The semicolon at the end of a text, on a line of its own if there may be a comment. -/
def mark (source : String) : String := if '#' ∈ source.toList then "\n;" else ";"

/-- The semicolon is left out exactly if the last token, if there is one, may end a
    program. -/
theorem complete_cases (entry : String) :
    (complete entry = joined entry ∧
      ∀ last ∈ (tokenize (joined entry)).getLast?, last = .semicolon ∨ last = .rightBrace) ∨
    (complete entry = joined entry ++ mark (joined entry) ∧
      ∃ last ∈ (tokenize (joined entry)).getLast?, last ≠ .semicolon ∧ last ≠ .rightBrace) := by
  have marked : joined entry ++ mark (joined entry) =
      if '#' ∈ (joined entry).toList then joined entry ++ "\n;" else joined entry ++ ";" := by
    unfold mark
    split <;> rfl
  unfold complete
  rw [← joined, marked]
  dsimp only
  generalize (tokenize (joined entry)).getLast? = ends
  split
  · exact .inl ⟨rfl, nofun⟩
  · exact .inl ⟨rfl, by rintro _ ⟨⟩; exact .inl rfl⟩
  · exact .inl ⟨rfl, by rintro _ ⟨⟩; exact .inr rfl⟩
  · rename_i last noSemicolon noBrace
    exact .inr ⟨rfl, last, rfl, noSemicolon, noBrace⟩

/-- The semicolon is a token of its own, unless it gets into a string literal. -/
theorem tokenize_mark {source : String} (closed : Lexeme.endsQuoted source.toList = false) :
    tokenize (source ++ mark source) = tokenize source ++ [.semicolon] := by
  have semicolon : tokenize ";" = [.semicolon] := by decide +kernel
  unfold mark
  split
  · have lines : source ++ "\n;" = source ++ "\n" ++ ";" := by rw [String.append_assoc]; rfl
    rw [lines, tokenize_newline closed, semicolon]
  · rename_i noComment
    have uncommented : Lexeme.Uncommented source.toList := by
      intro lexeme within comment
      obtain ⟨rest, rfl⟩ := List.head?_eq_some_iff.1 comment
      refine noComment ?_
      rw [← Lexeme.flatten_split source.toList]
      exact List.mem_flatten_of_mem within List.mem_cons_self
    have stops : Lexeme.Stops source.toList ';' := ⟨by decide, by decide, .inr uncommented⟩
    rw [tokenize_append closed (by rintro c ⟨⟩; exact stops), semicolon]

end Entry

/-- Completing an entry gives a program of certain statements exactly if the entry, with
    its lines joined, is the program of these statements as it is or with a semicolon
    behind its tokens. -/
theorem parseText_complete_iff (entry : String) (nodes : List Node) :
    parseText (Entry.complete entry) = .source nodes ↔
      parse (tokenize (Entry.joined entry)) = .source nodes ∨
        parse (tokenize (Entry.joined entry) ++ [.semicolon]) = .source nodes := by
  rw [parseText, parse_eq_source_iff, parse_eq_source_iff, parse_eq_source_iff]
  rcases Entry.complete_cases entry with ⟨same, ends⟩ | ⟨same, last, ends, noSemicolon, noBrace⟩
  · rw [same]
    refine ⟨.inl, fun read => read.resolve_right fun marked => ?_⟩
    obtain ⟨last, within, expression⟩ := endsExpression_of_program marked
    rcases ends last within with rfl | rfl <;> cases expression
  · rw [same]
    -- whichever of the two parses, no string literal is open where the semicolon goes
    constructor
    · intro read
      have closed := endsQuoted_of_vocabulary _ (vocabulary_of_program read)
      rw [Entry.tokenize_mark closed] at read
      exact .inr read
    · rintro (read | read)
      · rcases last_of_program read ends with rfl | rfl <;> contradiction
      · have known := (List.forall_mem_append.1 (vocabulary_of_program read)).1
        have closed := endsQuoted_of_vocabulary "" (by rwa [String.append_empty])
        rwa [Entry.tokenize_mark closed]

end Scriptlet

import Scriptlet.Proofs.Lexemes.Split

namespace Scriptlet
namespace Lexeme

/-- Where one stands in a text, and whether a backslash hides the next character. -/
inductive Place where
  | code
  | comment
  | literal
  | escape
  deriving DecidableEq, Repr

namespace Place

def next : Place → Char → Place
  | code, '#' => comment
  | code, '"' => literal
  | code, _ => code
  | comment, '\n' => code
  | comment, _ => comment
  | literal, '"' => code
  | literal, '\\' => escape
  | literal, _ => literal
  | escape, _ => literal

def behind (text : List Char) : Place := text.foldl next code

/-- A string literal has been opened here and not been closed. -/
def inLiteral : Place → Bool
  | literal | escape => true
  | code | comment => false

section Next
variable {c : Char}

theorem next_code (noComment : c ≠ '#') (noQuote : c ≠ '"') : code.next c = code := by
  unfold next
  split <;> simp_all

theorem next_comment (sameLine : c ≠ '\n') : comment.next c = comment := by
  unfold next
  split <;> simp_all

theorem next_literal (noBackslash : c ≠ '\\') (noQuote : c ≠ '"') : literal.next c = literal := by
  unfold next
  split <;> simp_all

end Next

theorem foldl_stays {place : Place} {text : List Char} (stays : ∀ c ∈ text, place.next c = place) :
    text.foldl next place = place := by
  induction text with
  | nil => rfl
  | cons c text ih =>
    obtain ⟨here, later⟩ := List.forall_mem_cons.1 stays
    rw [List.foldl_cons, here, ih later]

theorem foldl_literal {text : List Char} (closed : Quoted.closes text) :
    text.foldl next literal = (text.drop (Quoted.extent text)).foldl next code := by
  fun_induction Quoted.closes text with
  | case1 => cases closed
  | case2 rest => rfl
  | case3 => cases closed
  | case4 c rest ih => exact ih closed
  | case5 c rest noQuote noEnd noEscape ih =>
    have noBackslash := Quoted.ne_backslash noEnd noEscape
    rw [List.foldl_cons, next_literal noBackslash noQuote, ih closed, Quoted.extent_plain noBackslash noQuote,
      List.drop_succ_cons]

theorem inLiteral_foldl {text : List Char} (isOpen : Quoted.closes text = false) :
    (text.foldl next literal).inLiteral = true := by
  fun_induction Quoted.closes text with
  | case1 => rfl
  | case2 => cases isOpen
  | case3 => rfl
  | case4 c rest ih => exact ih isOpen
  | case5 c rest noQuote noEnd noEscape ih =>
    rw [List.foldl_cons, next_literal (Quoted.ne_backslash noEnd noEscape) noQuote, ih isOpen]

/-- Character by character and lexeme by lexeme, the same texts end inside a literal. -/
theorem inLiteral_behind (text : List Char) : (behind text).inLiteral = endsQuoted text := by
  induction text using split.induct with
  | case1 =>
    rw [endsQuoted]
    rfl
  | case2 first after ih =>
    rw [endsQuoted]
    by_cases quote : first = '"'
    · subst quote
      rw [extent_quote] at ih ⊢
      change (after.foldl next literal).inLiteral = _
      cases closed : Quoted.closes after with
      | true =>
        rw [foldl_literal closed, ← ih]
        rfl
      | false =>
        rw [inLiteral_foldl closed]
        rfl
    obtain ⟨others, rest, rfl, all, stops⟩ := exists_run first after
    rw [extent_run quote all stops, List.drop_left] at ih ⊢
    rw [decide_eq_false quote, Bool.false_and, Bool.false_or, ← ih, behind, ← List.cons_append, List.foldl_append]
    by_cases comment : first = '#'
    · subst comment
      have line : ('#' :: others).foldl next code = .comment :=
        foldl_stays fun c within => next_comment (by simpa [goesOn] using all c within)
      rw [line]
      -- behind the comment there is nothing, or the newline that ends it
      cases rest with
      | nil => rfl
      | cons c rest =>
        have newline : c = '\n' := by simpa [goesOn] using stops c rfl
        rw [newline]
        rfl
    · have noComment : '#' ∉ others := not_mem_run all (goesOn_eq_false comment (by decide) (by decide))
      have noQuote : '"' ∉ others := not_mem_run all (goesOn_eq_false comment (by decide) (by decide))
      have stays : (first :: others).foldl next code = code := by
        refine foldl_stays (List.forall_mem_cons.2 ⟨next_code comment quote, fun c within => next_code ?_ ?_⟩)
        · exact fun same => noComment (same ▸ within)
        · exact fun same => noQuote (same ▸ within)
      rw [stays]
      rfl

/-- A quote in a comment opens no literal, and one behind a backslash closes none. -/
example : (behind "x # \"".toList).inLiteral = false ∧ (behind "\"# \\\"".toList).inLiteral := by decide

end Place
end Lexeme

/-- An open literal takes in what has no quote, so no token is added. -/
theorem length_tokenize_append {a more : String} (isOpen : Lexeme.endsQuoted a.toList = true) (noQuote : '"' ∉ more.toList) :
    (tokenize (a ++ more)).length = (tokenize a).length := by
  obtain ⟨before, literal, lexemes, longer⟩ := Lexeme.split_append_open isOpen noQuote
  rw [tokenize, tokenize, String.toList_append, lexemes, longer, List.filterMap_append, List.filterMap_append,
    List.length_append, List.length_append]
  rfl

/-- A newline separates the tokens of a text from those of every other text behind it
    exactly if the first text does not end inside a string literal. It may end in a
    comment, in a word or in a number, also one that is out of range, or with any other
    character. -/
theorem tokenize_newline_iff (a : String) :
    (∀ b, tokenize (a ++ "\n" ++ b) = tokenize a ++ tokenize b) ↔ (Lexeme.Place.behind a.toList).inLiteral = false := by
  rw [Lexeme.Place.inLiteral_behind]
  refine ⟨fun separates => ?_, fun closed => tokenize_newline closed⟩
  by_contra isOpen
  have semicolon : tokenize ";" = [.semicolon] := by decide +kernel
  have noQuote : '"' ∉ ("\n" ++ ";").toList := by decide
  have taken := length_tokenize_append (by simpa using isOpen) noQuote
  rw [← String.append_assoc, separates, semicolon, List.length_append] at taken
  exact absurd taken (Nat.succ_ne_self _)

end Scriptlet

import Scriptlet.Proofs.Lexemes.Split

namespace Scriptlet.Lexeme

/-- A rule is tried where a character stands in front of others. If it applies, it gives
    the token of the lexeme there, if the lexeme has one, and how many of the other
    characters belong to it. -/
abbrev Rule := Char → List Char → Option (Option Token × Nat)

namespace Rule

def punctuation : Rule := fun first _ => (Token.ofPunctuation? first).map fun token => (some token, 0)

/-- The end of the line is left for `blank`. -/
def comment : Rule := fun first after =>
  if first = '#' then some (none, (after.takeWhile (· ≠ '\n')).length) else none

def literal : Rule := fun first after =>
  if first = '"' then some (some (.string (String.ofList (Quoted.content after))), Quoted.extent after) else none

def blank : Rule := fun first _ => if isBlank first then some (none, 0) else none

/-- One character of a class or more. -/
def run (p : Char → Bool) (token : Char → List Char → Token) : Rule := fun first after =>
  if p first then some (some (token first (after.takeWhile p)), (after.takeWhile p).length) else none

def number : Rule := run Char.isDigit fun first others =>
  ((Integer.ofDigits? (first :: others)).map .int).getD (.unknown first)

def word : Rule := run Char.isLower fun first others => .ofWord (String.ofList (first :: others))

def any : Rule := fun first _ => some (some (.unknown first), 0)

def inOrder : List Rule := [punctuation, comment, literal, blank, number, word, any]

end Rule

/-- The tokens of a text by the first rule that applies at each place, or nothing if there
    is a place where none does. -/
def scan : List Char → Option (List Token)
  | [] => some []
  | first :: after =>
    match Rule.inOrder.findSome? fun rule => rule first after with
    | some (token, reach) => (scan (after.drop reach)).map (token.toList ++ ·)
    | none => none
termination_by text => text.length

theorem take_takeWhile (p : Char → Bool) (text : List Char) :
    text.take (text.takeWhile p).length = text.takeWhile p :=
  (List.prefix_iff_eq_take.1 (List.takeWhile_prefix p)).symm

theorem ofPunctuation_eq_none {c : Char} (other : ¬ (Alone c ∧ isBlank c = false)) : Token.ofPunctuation? c = none := by
  cases mark : Token.ofPunctuation? c with
  | none => rfl
  | some token => exact absurd (alone_of_punctuation mark) other

theorem content_take_extent (after : List Char) :
    Quoted.content (after.take (Quoted.extent after)) = Quoted.content after := by
  fun_induction Quoted.extent after with
  | case1 => rfl
  | case2 rest => rfl
  | case3 => rfl
  | case4 c rest ih =>
    rw [List.take_succ_cons, List.take_succ_cons, Quoted.content, Quoted.content, ih]
  | case5 c rest noQuote noEnd noEscape ih =>
    have noBackslash := Quoted.ne_backslash noEnd noEscape
    rw [List.take_succ_cons, Quoted.content_plain noBackslash noQuote, Quoted.content_plain noBackslash noQuote, ih]

/-- The first rule that applies reads the first lexeme. -/
theorem findSome_inOrder (first : Char) (after : List Char) :
    (Rule.inOrder.findSome? fun rule => rule first after) =
      some (token? (first :: after.take (extent first after)), extent first after) := by
  rw [Rule.inOrder]
  by_cases comment : first = '#'
  · subst comment
    rfl
  by_cases quote : first = '"'
  · subst quote
    have read : token? ('"' :: after.take (Quoted.extent after)) = some (.string (String.ofList (Quoted.content after))) := by
      rw [← content_take_extent after]
      rfl
    rw [extent_quote, read]
    rfl
  by_cases digit : first.isDigit
  · have unmarked : Token.ofPunctuation? first = none :=
      ofPunctuation_eq_none fun ⟨alone, _⟩ => by simp [alone.noDigit] at digit
    have noBlank := (ne_special (.inl digit)).2.2
    rw [extent_of_ne_quote quote, goesOn_digit digit, take_takeWhile, token?_number digit]
    simp [Rule.punctuation, Rule.comment, Rule.literal, Rule.blank, Rule.number, Rule.run, unmarked, comment, quote,
      noBlank, digit]
  by_cases letter : first.isLower
  · have unmarked : Token.ofPunctuation? first = none :=
      ofPunctuation_eq_none fun ⟨alone, _⟩ => by simp [alone.noLetter] at letter
    have noBlank := (ne_special (.inr letter)).2.2
    rw [extent_of_ne_quote quote, goesOn_letter letter, take_takeWhile, token?_word letter]
    simp [Rule.punctuation, Rule.comment, Rule.literal, Rule.blank, Rule.number, Rule.word, Rule.run, unmarked, comment,
      quote, noBlank, digit, letter]
  · have alone : Alone first := ⟨comment, quote, by simpa using digit, by simpa using letter⟩
    rw [extent_alone alone, List.take_zero, token?_alone alone]
    by_cases blank : isBlank first
    · have unmarked : Token.ofPunctuation? first = none :=
        ofPunctuation_eq_none fun ⟨_, noBlank⟩ => by simp [noBlank] at blank
      simp [Rule.punctuation, Rule.comment, Rule.literal, Rule.blank, unmarked, comment, quote, blank]
    · cases mark : Token.ofPunctuation? first with
      | some token => simp [Rule.punctuation, mark, blank]
      | none =>
        simp [Rule.punctuation, Rule.comment, Rule.literal, Rule.blank, Rule.number, Rule.word, Rule.run, Rule.any, mark,
          comment, quote, blank, digit, letter]

theorem scan_eq (text : List Char) : scan text = some ((split text).filterMap token?) := by
  induction text using split.induct with
  | case1 => rw [scan, split, List.filterMap_nil]
  | case2 first after ih =>
    rw [scan, findSome_inOrder, split]
    change Option.map _ (scan (after.drop (extent first after))) = _
    rw [ih, List.filterMap_cons]
    cases token? (first :: after.take (extent first after)) <;> rfl

/-- Every text is split into lexemes in exactly one way. They are not empty, put together
    they are the text, and their tokens in order are the tokens of the text. Rules tried in
    order give these tokens too, for each place of a text has a rule that applies. -/
theorem tokenize_splits (source : String) :
    (∃! lexemes, ∃ tokens, Splits source.toList lexemes tokens) ∧
    (∀ lexemes tokens, Splits source.toList lexemes tokens →
      lexemes.flatten = source.toList ∧ (∀ lexeme ∈ lexemes, lexeme ≠ []) ∧ tokenize source = tokens) ∧
    scan source.toList = some (tokenize source) := by
  refine ⟨⟨split source.toList, ⟨tokenize source, splits_iff.2 ⟨rfl, rfl⟩⟩, ?_⟩, ?_, scan_eq source.toList⟩
  · rintro lexemes ⟨tokens, splits⟩
    exact (splits_iff.1 splits).1
  · intro lexemes tokens splits
    obtain ⟨rfl, rfl⟩ := splits_iff.1 splits
    refine ⟨flatten_split source.toList, ?_, rfl⟩
    intro lexeme within
    obtain ⟨first, after, rfl⟩ := exists_of_mem_split within
    exact List.cons_ne_nil _ _

end Scriptlet.Lexeme

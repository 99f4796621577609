import Mathlib.Algebra.Group.Nat.Defs
import Mathlib.Data.List.TakeWhile
import Scriptlet.Proofs.Lexemes

namespace Scriptlet

/-- A character that begins no lexeme but its own, and has no token but itself. -/
def isOther (c : Char) : Bool :=
  c ≠ '#' && c ≠ '"' && !Lexeme.isBlank c && !c.isDigit && !c.isLower && (Token.ofPunctuation? c).isNone

namespace Lexeme

/-- What a string literal is made of between its quotes: characters that stand for
    themselves, and characters behind a backslash. -/
inductive Piece where
  | plain (c : Char) (noBackslash : c ≠ '\\') (noQuote : c ≠ '"')
  | escape (c : Char)

namespace Piece

def written : Piece → List Char
  | plain c .. => [c]
  | escape c => ['\\', c]

/-- The character that a piece stands for; after a backslash there may be none. -/
def meaning? : Piece → Option Char
  | plain c .. => some c
  | escape c => Quoted.escaped? c

def characters (pieces : List Piece) : List Char := pieces.flatMap written

def content (pieces : List Piece) : String := String.ofList (pieces.filterMap meaning?)

end Piece

/-- A text begins with these characters as its first lexeme, if the others follow, and the
    lexeme has this token or none. Comments, numbers and words go on as long as they can,
    and only at the end of a text may a string literal lack its closing quote. -/
inductive Leads : List Char → List Char → Option Token → Prop
  | punctuation {c rest token} (mark : Token.ofPunctuation? c = some token) : Leads [c] rest (some token)
  | comment {line rest} (sameLine : '\n' ∉ line) (ends : ∀ c ∈ rest.head?, c = '\n') : Leads ('#' :: line) rest none
  | closed {pieces rest} :
    Leads ('"' :: (Piece.characters pieces ++ ['"'])) rest (some (.string (Piece.content pieces)))
  | unclosed {pieces} : Leads ('"' :: Piece.characters pieces) [] (some (.string (Piece.content pieces)))
  | dangling {pieces} :
    Leads ('"' :: (Piece.characters pieces ++ ['\\'])) [] (some (.string (Piece.content pieces)))
  | blank {c rest} (blank : c = ' ' ∨ c = '\t' ∨ c = '\n') : Leads [c] rest none
  | number {first others rest} (digits : ∀ c ∈ first :: others, c.isDigit) (ends : ∀ c ∈ rest.head?, c.isDigit = false)
    (inRange : Nat.ofDigitChars 10 (first :: others) 0 < 2 ^ 63) :
    Leads (first :: others) rest (some (.int (.ofNat (Nat.ofDigitChars 10 (first :: others) 0))))
  | outOfRange {first others rest} (digits : ∀ c ∈ first :: others, c.isDigit)
    (ends : ∀ c ∈ rest.head?, c.isDigit = false) (tooLarge : 2 ^ 63 ≤ Nat.ofDigitChars 10 (first :: others) 0) :
    Leads (first :: others) rest (some (.unknown first))
  | word {first others rest} (letters : ∀ c ∈ first :: others, c.isLower)
    (ends : ∀ c ∈ rest.head?, c.isLower = false) :
    Leads (first :: others) rest (some (.ofWord (String.ofList (first :: others))))
  | other {c rest} (other : isOther c) : Leads [c] rest (some (.unknown c))

/-- The text is split into these lexemes, which have these tokens. -/
inductive Splits : List Char → List (List Char) → List Token → Prop
  | nil : Splits [] [] []
  | cons {lexeme rest token lexemes tokens} (leads : Leads lexeme rest token) (later : Splits rest lexemes tokens) :
    Splits (lexeme ++ rest) (lexeme :: lexemes) (token.toList ++ tokens)

theorem ne_special {c : Char} (wordlike : c.isDigit ∨ c.isLower) : c ≠ '#' ∧ c ≠ '"' ∧ isBlank c = false := by
  have other : ∀ d : Char, d.isDigit = false → d.isLower = false → c ≠ d := by
    rintro d noDigit noLetter rfl
    rw [noDigit, noLetter] at wordlike
    simp at wordlike
  refine ⟨other _ (by decide) (by decide), other _ (by decide) (by decide), ?_⟩
  simp [isBlank, other ' ' (by decide) (by decide), other '\t' (by decide) (by decide),
    other '\n' (by decide) (by decide)]

theorem not_isDigit_of_isLower {c : Char} (letter : c.isLower) : c.isDigit = false := by
  rw [Bool.eq_false_iff]
  intro digit
  have low : 'a'.val ≤ c.val := of_decide_eq_true (Bool.and_eq_true_iff.1 letter).1
  have high : c.val ≤ '9'.val := of_decide_eq_true (Bool.and_eq_true_iff.1 digit).2
  exact absurd (UInt32.le_trans low high) (by decide)

/-- The character is a lexeme on its own, whatever follows it. -/
structure Alone (c : Char) : Prop where
  noComment : c ≠ '#'
  noQuote : c ≠ '"'
  noDigit : c.isDigit = false
  noLetter : c.isLower = false

theorem alone_of_punctuation {c : Char} {token : Token} (mark : Token.ofPunctuation? c = some token) :
    Alone c ∧ isBlank c = false := by
  unfold Token.ofPunctuation? at mark
  split at mark
  case h_12 => cases mark
  all_goals exact ⟨⟨by decide, by decide, by decide, by decide⟩, by decide⟩

theorem alone_of_blank {c : Char} (blank : isBlank c) : Alone c := by
  simp only [isBlank, Bool.or_eq_true, decide_eq_true_eq] at blank
  rcases blank with (rfl | rfl) | rfl <;> exact ⟨by decide, by decide, by decide, by decide⟩

theorem isOther_iff {c : Char} : isOther c ↔ Alone c ∧ isBlank c = false ∧ Token.ofPunctuation? c = none := by
  simp only [isOther, Bool.and_eq_true, Bool.not_eq_true', decide_eq_true_eq, Option.isNone_iff_eq_none]
  constructor
  · rintro ⟨⟨⟨⟨⟨noComment, noQuote⟩, noBlank⟩, noDigit⟩, noLetter⟩, noToken⟩
    exact ⟨⟨noComment, noQuote, noDigit, noLetter⟩, noBlank, noToken⟩
  · rintro ⟨⟨noComment, noQuote, noDigit, noLetter⟩, noBlank, noToken⟩
    exact ⟨⟨⟨⟨⟨noComment, noQuote⟩, noBlank⟩, noDigit⟩, noLetter⟩, noToken⟩

theorem goesOn_digit {c : Char} (digit : c.isDigit) : goesOn c = Char.isDigit := by
  rw [goesOn, if_neg (ne_special (.inl digit)).1, if_pos digit]

theorem goesOn_letter {c : Char} (letter : c.isLower) : goesOn c = Char.isLower := by
  rw [goesOn, if_neg (ne_special (.inr letter)).1, if_neg (by simp [not_isDigit_of_isLower letter]), if_pos letter]

theorem goesOn_alone {c : Char} (alone : Alone c) : goesOn c = fun _ => false := by
  rw [goesOn, if_neg alone.noComment, if_neg (by simp [alone.noDigit]), if_neg (by simp [alone.noLetter])]

theorem extent_run {first : Char} {others rest : List Char} (noQuote : first ≠ '"')
    (all : ∀ c ∈ others, goesOn first c) (ends : ∀ c ∈ rest.head?, goesOn first c = false) :
    extent first (others ++ rest) = others.length := by
  have stops : rest.takeWhile (goesOn first) = [] := by
    cases rest with
    | nil => rfl
    | cons c rest => rw [List.takeWhile_cons, ends c rfl, if_neg (by decide)]
  rw [extent_of_ne_quote noQuote, List.takeWhile_append_of_pos all, stops, List.append_nil]

theorem exists_run (first : Char) (after : List Char) :
    ∃ others rest, after = others ++ rest ∧ (∀ c ∈ others, goesOn first c) ∧ ∀ c ∈ rest.head?, goesOn first c = false := by
  refine ⟨_, _, (List.takeWhile_append_dropWhile (p := goesOn first)).symm, fun c => List.mem_takeWhile_imp, ?_⟩
  intro c next
  have failing := List.head?_dropWhile_not (goesOn first) after
  rw [Option.mem_def.1 next] at failing
  simpa using failing

theorem goesOn_eq_false {first c : Char} (noComment : first ≠ '#') (noDigit : c.isDigit = false)
    (noLetter : c.isLower = false) : goesOn first c = false := by
  unfold goesOn
  rw [if_neg noComment]
  split_ifs
  · exact noDigit
  · exact noLetter
  · rfl

theorem goesOn_newline (first : Char) : goesOn first '\n' = false := by
  by_cases comment : first = '#'
  · rw [comment]
    rfl
  · exact goesOn_eq_false comment (by decide) (by decide)

theorem not_mem_run {first c : Char} {others : List Char} (all : ∀ c ∈ others, goesOn first c)
    (stops : goesOn first c = false) : c ∉ others := by
  intro within
  rw [all c within] at stops
  cases stops

section Classes
variable {first : Char} {others rest : List Char}

theorem extent_number (digits : ∀ c ∈ first :: others, c.isDigit) (ends : ∀ c ∈ rest.head?, c.isDigit = false) :
    extent first (others ++ rest) = others.length := by
  obtain ⟨digit, digits⟩ := List.forall_mem_cons.1 digits
  rw [← goesOn_digit digit] at digits ends
  exact extent_run (ne_special (.inl digit)).2.1 digits ends

theorem token?_number (digit : first.isDigit) (others : List Char) :
    token? (first :: others) = some (((Integer.ofDigits? (first :: others)).map .int).getD (.unknown first)) := by
  obtain ⟨noComment, noQuote, noBlank⟩ := ne_special (.inl digit)
  simp [token?, noComment, noQuote, noBlank, digit]

theorem extent_word (letters : ∀ c ∈ first :: others, c.isLower) (ends : ∀ c ∈ rest.head?, c.isLower = false) :
    extent first (others ++ rest) = others.length := by
  obtain ⟨letter, letters⟩ := List.forall_mem_cons.1 letters
  rw [← goesOn_letter letter] at letters ends
  exact extent_run (ne_special (.inr letter)).2.1 letters ends

theorem token?_word (letter : first.isLower) (others : List Char) :
    token? (first :: others) = some (.ofWord (String.ofList (first :: others))) := by
  obtain ⟨noComment, noQuote, noBlank⟩ := ne_special (.inr letter)
  simp [token?, noComment, noQuote, noBlank, not_isDigit_of_isLower letter, letter]

theorem extent_alone (alone : Alone first) (rest : List Char) : extent first rest = 0 := by
  rw [extent_of_ne_quote alone.noQuote, goesOn_alone alone]
  cases rest <;> rfl

theorem token?_alone (alone : Alone first) :
    token? [first] = if isBlank first then none else some ((Token.ofPunctuation? first).getD (.unknown first)) := by
  by_cases blank : isBlank first
  · simp [token?, blank]
  · simp [token?, alone.noComment, alone.noQuote, alone.noDigit, alone.noLetter, blank]

end Classes

theorem extent_characters (pieces : List Piece) (rest : List Char) :
    Quoted.extent (Piece.characters pieces ++ rest) = (Piece.characters pieces).length + Quoted.extent rest := by
  induction pieces with
  | nil => rw [Piece.characters, List.flatMap_nil, List.nil_append, List.length_nil, Nat.zero_add]
  | cons piece pieces ih =>
    rw [Piece.characters, List.flatMap_cons, ← Piece.characters, List.append_assoc, List.length_append]
    cases piece with
    | plain c noBackslash noQuote =>
      rw [Piece.written, List.singleton_append, Quoted.extent_plain noBackslash noQuote, ih, List.length_singleton]
      omega
    | escape c =>
      rw [Piece.written, List.cons_append, List.singleton_append, Quoted.extent, ih, List.length_cons,
        List.length_singleton]
      omega

theorem content_characters (pieces : List Piece) (rest : List Char) :
    Quoted.content (Piece.characters pieces ++ rest) = pieces.filterMap Piece.meaning? ++ Quoted.content rest := by
  induction pieces with
  | nil => rfl
  | cons piece pieces ih =>
    rw [Piece.characters, List.flatMap_cons, ← Piece.characters, List.append_assoc]
    cases piece with
    | plain c noBackslash noQuote =>
      rw [Piece.written, List.singleton_append, Quoted.content_plain noBackslash noQuote, ih]
      rfl
    | escape c =>
      rw [Piece.written, List.cons_append, List.singleton_append, Quoted.content, ih, List.filterMap_cons,
        Piece.meaning?]
      cases Quoted.escaped? c <;> rfl

/-- A literal is read up to its end, if its pieces are followed by an ending that goes as
    far as the literal and stands for nothing. -/
theorem read_literal (pieces : List Piece) {ending rest : List Char}
    (reach : Quoted.extent (ending ++ rest) = ending.length) (silent : Quoted.content ending = []) :
    extent '"' (Piece.characters pieces ++ ending ++ rest) = (Piece.characters pieces ++ ending).length ∧
      token? ('"' :: (Piece.characters pieces ++ ending)) = some (.string (Piece.content pieces)) := by
  constructor
  · rw [extent_quote, List.append_assoc, extent_characters, reach, List.length_append]
  · have content : Quoted.content (Piece.characters pieces ++ ending) = pieces.filterMap Piece.meaning? := by
      rw [content_characters, silent, List.append_nil]
    rw [Piece.content, ← content]
    rfl

/-- Whatever follows an opening quote leads with pieces of a literal, and they end with a
    quote or with the text. -/
theorem exists_pieces (after : List Char) :
    ∃ pieces : List Piece, (∃ rest, after = Piece.characters pieces ++ '"' :: rest) ∨
      after = Piece.characters pieces ∨ after = Piece.characters pieces ++ ['\\'] := by
  fun_induction Quoted.extent after with
  | case1 => exact ⟨[], .inr (.inl rfl)⟩
  | case2 rest => exact ⟨[], .inl ⟨rest, rfl⟩⟩
  | case3 => exact ⟨[], .inr (.inr rfl)⟩
  | case4 c rest ih =>
    obtain ⟨pieces, ⟨more, same⟩ | same | same⟩ := ih
    · exact ⟨.escape c :: pieces, .inl ⟨more, by rw [same]; rfl⟩⟩
    · exact ⟨.escape c :: pieces, .inr (.inl (by rw [same]; rfl))⟩
    · exact ⟨.escape c :: pieces, .inr (.inr (by rw [same]; rfl))⟩
  | case5 c rest noQuote noEnd noEscape ih =>
    have noBackslash := Quoted.ne_backslash noEnd noEscape
    obtain ⟨pieces, ⟨more, same⟩ | same | same⟩ := ih
    · exact ⟨.plain c noBackslash noQuote :: pieces, .inl ⟨more, by rw [same]; rfl⟩⟩
    · exact ⟨.plain c noBackslash noQuote :: pieces, .inr (.inl (by rw [same]; rfl))⟩
    · exact ⟨.plain c noBackslash noQuote :: pieces, .inr (.inr (by rw [same]; rfl))⟩

theorem ofDigits?_of_lt {run : List Char} (inRange : Nat.ofDigitChars 10 run 0 < 2 ^ 63) :
    Integer.ofDigits? run = some (.ofNat (Nat.ofDigitChars 10 run 0)) := by
  rw [Integer.ofDigits?, Integer.ofInt?_eq_some_iff]
  exact Int64.toInt_ofNat_of_lt inRange

theorem ofDigits?_of_le {run : List Char} (tooLarge : 2 ^ 63 ≤ Nat.ofDigitChars 10 run 0) :
    Integer.ofDigits? run = none := by
  rw [Integer.ofDigits?, Integer.ofInt?_eq_none_iff]
  rintro ⟨_, high⟩
  have greatest : Int64.maxValue.toInt = 2 ^ 63 - 1 := by decide
  omega

/-- What leads a text is read from it as its first lexeme. -/
theorem Leads.read {lexeme rest : List Char} {token : Option Token} (leads : Leads lexeme rest token) :
    ∃ first others, lexeme = first :: others ∧ extent first (others ++ rest) = others.length ∧
      token? lexeme = token := by
  cases leads with
  | @punctuation c _ token mark =>
    obtain ⟨alone, noBlank⟩ := alone_of_punctuation mark
    refine ⟨c, [], rfl, extent_alone alone rest, ?_⟩
    rw [token?_alone alone, noBlank, mark]
    rfl
  | @comment line _ sameLine ends =>
    refine ⟨'#', line, rfl, extent_run (by decide) ?_ ?_, rfl⟩
    · intro c within
      have other : c ≠ '\n' := by
        rintro rfl
        exact sameLine within
      simpa [goesOn] using other
    · intro c next
      simp [goesOn, ends c next]
  | @closed pieces => exact ⟨'"', _, rfl, read_literal pieces rfl rfl⟩
  | @unclosed pieces =>
    rw [← List.append_nil (Piece.characters pieces)]
    exact ⟨'"', _, rfl, read_literal pieces rfl rfl⟩
  | @dangling pieces => exact ⟨'"', _, rfl, read_literal pieces rfl rfl⟩
  | @blank c _ blank =>
    have blank : isBlank c := by simpa [isBlank, or_assoc] using blank
    have alone := alone_of_blank blank
    refine ⟨c, [], rfl, extent_alone alone rest, ?_⟩
    rw [token?_alone alone, if_pos blank]
  | @number first others _ digits ends inRange =>
    refine ⟨first, others, rfl, extent_number digits ends, ?_⟩
    rw [token?_number (digits first List.mem_cons_self), ofDigits?_of_lt inRange]
    rfl
  | @outOfRange first others _ digits ends tooLarge =>
    refine ⟨first, others, rfl, extent_number digits ends, ?_⟩
    rw [token?_number (digits first List.mem_cons_self), ofDigits?_of_le tooLarge]
    rfl
  | @word first others _ letters ends =>
    exact ⟨first, others, rfl, extent_word letters ends, token?_word (letters first List.mem_cons_self) others⟩
  | @other c _ other =>
    obtain ⟨alone, noBlank, noToken⟩ := isOther_iff.1 other
    refine ⟨c, [], rfl, extent_alone alone rest, ?_⟩
    rw [token?_alone alone, noBlank, noToken]
    rfl

theorem Leads.split {lexeme rest : List Char} {token : Option Token} (leads : Leads lexeme rest token) :
    split (lexeme ++ rest) = lexeme :: split rest := by
  obtain ⟨first, others, rfl, reach, _⟩ := leads.read
  rw [List.cons_append, Lexeme.split, reach, List.take_left, List.drop_left]

theorem exists_leads (first : Char) (after : List Char) :
    ∃ others rest token, after = others ++ rest ∧ Leads (first :: others) rest token := by
  by_cases quote : first = '"'
  · subst quote
    obtain ⟨pieces, ⟨rest, rfl⟩ | rfl | rfl⟩ := exists_pieces after
    · exact ⟨Piece.characters pieces ++ ['"'], rest, _, by simp, .closed⟩
    · exact ⟨_, [], _, (List.append_nil _).symm, .unclosed⟩
    · exact ⟨_, [], _, (List.append_nil _).symm, .dangling⟩
  obtain ⟨others, rest, rfl, all, stops⟩ := exists_run first after
  by_cases comment : first = '#'
  · subst comment
    refine ⟨others, rest, none, rfl, .comment ?_ ?_⟩
    · intro within
      simpa [goesOn] using all _ within
    · intro c next
      simpa [goesOn] using stops c next
  by_cases digit : first.isDigit
  · rw [goesOn_digit digit] at all stops
    have digits : ∀ c ∈ first :: others, c.isDigit := List.forall_mem_cons.2 ⟨digit, all⟩
    rcases Nat.lt_or_ge (Nat.ofDigitChars 10 (first :: others) 0) (2 ^ 63) with inRange | tooLarge
    · exact ⟨others, rest, _, rfl, .number digits stops inRange⟩
    · exact ⟨others, rest, _, rfl, .outOfRange digits stops tooLarge⟩
  by_cases letter : first.isLower
  · rw [goesOn_letter letter] at all stops
    exact ⟨others, rest, _, rfl, .word (List.forall_mem_cons.2 ⟨letter, all⟩) stops⟩
  by_cases blank : isBlank first
  · exact ⟨[], others ++ rest, none, rfl, .blank (by simpa [isBlank, or_assoc] using blank)⟩
  · cases mark : Token.ofPunctuation? first with
    | some token => exact ⟨[], others ++ rest, _, rfl, .punctuation mark⟩
    | none =>
      have alone : Alone first := ⟨comment, quote, by simpa using digit, by simpa using letter⟩
      exact ⟨[], others ++ rest, _, rfl, .other (isOther_iff.2 ⟨alone, by simpa using blank, mark⟩)⟩

theorem exists_splits (text : List Char) : ∃ lexemes tokens, Splits text lexemes tokens := by
  match text with
  | [] => exact ⟨[], [], .nil⟩
  | first :: after =>
    obtain ⟨others, rest, token, rfl, leads⟩ := exists_leads first after
    have shorter : rest.length < (first :: (others ++ rest)).length := by
      rw [List.length_cons, List.length_append]
      omega
    obtain ⟨lexemes, tokens, later⟩ := exists_splits rest
    exact ⟨_, _, .cons leads later⟩
termination_by text.length

/-- There is no other way to split a text than the one in which it is read. -/
theorem Splits.eq {text : List Char} {lexemes : List (List Char)} {tokens : List Token}
    (splits : Splits text lexemes tokens) : lexemes = Lexeme.split text ∧ tokens = lexemes.filterMap token? := by
  induction splits with
  | nil => exact ⟨by rw [Lexeme.split], rfl⟩
  | @cons lexeme rest token lexemes tokens leads later ih =>
    obtain ⟨others, tokensRead⟩ := ih
    obtain ⟨_, _, _, _, tokenRead⟩ := leads.read
    refine ⟨by rw [leads.split, others], ?_⟩
    rw [List.filterMap_cons, tokenRead, tokensRead]
    cases token <;> rfl

theorem splits_iff {source : String} {lexemes : List (List Char)} {tokens : List Token} :
    Splits source.toList lexemes tokens ↔ lexemes = Lexeme.split source.toList ∧ tokens = tokenize source := by
  constructor
  · intro splits
    obtain ⟨rfl, read⟩ := splits.eq
    exact ⟨rfl, read⟩
  · rintro ⟨rfl, rfl⟩
    obtain ⟨lexemes, tokens, splits⟩ := exists_splits source.toList
    obtain ⟨rfl, rfl⟩ := splits.eq
    exact splits

theorem Splits.leads {text : List Char} {lexemes : List (List Char)} {tokens : List Token}
    (splits : Splits text lexemes tokens) {token : Token} (within : token ∈ tokens) :
    ∃ lexeme ∈ lexemes, ∃ rest, Leads lexeme rest (some token) := by
  induction splits with
  | nil => cases within
  | @cons lexeme rest first lexemes tokens leads later ih =>
    rcases List.mem_append.1 within with here | there
    · rw [Option.mem_toList.1 here] at leads
      exact ⟨lexeme, List.mem_cons_self, rest, leads⟩
    · obtain ⟨other, below, rest, leads⟩ := ih there
      exact ⟨other, List.mem_cons_of_mem _ below, rest, leads⟩

end Lexeme
end Scriptlet

import Scriptlet.Token.Lexeme

/-!
A text may be followed by another one without any change to its own lexemes, if it does
not end inside a string literal and the other text begins with a character that goes on
with no lexeme (`tokenize_append`). A newline is such a character behind every text
(`tokenize_newline`); punctuation and spaces are, unless a comment swallows them. If the
text does end inside a string literal, this literal is its last lexeme and takes in all
that has no quote (`split_append_open`).
-/
namespace Scriptlet

namespace Quoted

/-- The characters after an opening quote include the closing one. -/
def closes : List Char → Bool
  | [] => false
  | '"' :: _ => true
  | ['\\'] => false
  | '\\' :: _ :: rest => closes rest
  | _ :: rest => closes rest

theorem extent_le_length (text : List Char) : extent text ≤ text.length := by
  fun_induction extent text with
  | case1 => exact Nat.le_refl 0
  | case2 rest => exact Nat.succ_le_succ (Nat.zero_le _)
  | case3 => exact Nat.le_refl 1
  | case4 c rest ih => exact Nat.succ_le_succ (Nat.succ_le_succ ih)
  | case5 c rest _ _ _ ih => exact Nat.succ_le_succ ih

theorem extent_plain {c : Char} (noBackslash : c ≠ '\\') (noQuote : c ≠ '"') (rest : List Char) :
    extent (c :: rest) = extent rest + 1 := by
  rw [extent] <;> simp_all

theorem closes_plain {c : Char} (noBackslash : c ≠ '\\') (noQuote : c ≠ '"') (rest : List Char) :
    closes (c :: rest) = closes rest := by
  rw [closes] <;> simp_all

theorem content_plain {c : Char} (noBackslash : c ≠ '\\') (noQuote : c ≠ '"') (rest : List Char) :
    content (c :: rest) = c :: content rest := by
  rw [content] <;> simp_all

/-- A backslash is never passed over, neither at the end nor in front of a character. -/
theorem ne_backslash {c : Char} {rest : List Char} (noEnd : c = '\\' → rest = [] → False)
    (noEscape : ∀ d more, c = '\\' → rest = d :: more → False) : c ≠ '\\' := by
  intro backslash
  cases rest with
  | nil => exact noEnd backslash rfl
  | cons d more => exact noEscape d more backslash rfl

theorem extent_append {text : List Char} (closed : closes text) (more : List Char) :
    extent (text ++ more) = extent text := by
  fun_induction closes text with
  | case1 => cases closed
  | case2 rest => rfl
  | case3 => cases closed
  | case4 c rest ih => simp only [List.cons_append, extent, ih closed]
  | case5 c rest noQuote noEnd noEscape ih =>
    have plain := ne_backslash noEnd noEscape
    rw [List.cons_append, extent_plain plain noQuote, extent_plain plain noQuote, ih closed]

/-- A literal that is left open goes on to the end. -/
theorem extent_of_open {text : List Char} (isOpen : closes text = false) : extent text = text.length := by
  fun_induction closes text with
  | case1 => rfl
  | case2 => cases isOpen
  | case3 => rfl
  | case4 c rest ih =>
    rw [extent, ih isOpen]
    rfl
  | case5 c rest noQuote noEnd noEscape ih =>
    rw [extent_plain (ne_backslash noEnd noEscape) noQuote, ih isOpen]
    rfl

theorem closes_of_not_mem {text : List Char} (noQuote : '"' ∉ text) : closes text = false := by
  fun_induction closes text with
  | case1 => rfl
  | case2 rest => exact absurd List.mem_cons_self noQuote
  | case3 => rfl
  | case4 c rest ih => exact ih fun within => noQuote (List.mem_cons_of_mem _ (List.mem_cons_of_mem _ within))
  | case5 c rest _ _ _ ih => exact ih fun within => noQuote (List.mem_cons_of_mem _ within)

theorem closes_append {text more : List Char} (isOpen : closes text = false) (noQuote : '"' ∉ more) :
    closes (text ++ more) = false := by
  fun_induction closes text with
  | case1 => exact closes_of_not_mem noQuote
  | case2 => cases isOpen
  | case3 =>
    -- the backslash at the end hides the next character
    cases more with
    | nil => rfl
    | cons c more =>
      have later : closes more = false := closes_of_not_mem fun within => noQuote (List.mem_cons_of_mem _ within)
      exact later
  | case4 c rest ih => exact ih isOpen
  | case5 c rest noPlainQuote noEnd noEscape ih =>
    rw [List.cons_append, closes_plain (ne_backslash noEnd noEscape) noPlainQuote, ih isOpen]

end Quoted

namespace Lexeme

/-- The text ends inside a string literal. -/
def endsQuoted : List Char → Bool
  | [] => false
  | first :: after => (first = '"' && !Quoted.closes after) || endsQuoted (after.drop (extent first after))
termination_by text => text.length

def Uncommented (text : List Char) : Prop := ∀ lexeme ∈ split text, lexeme.head? ≠ some '#'

/-- Put behind the text, the character goes on with no lexeme of it but a string literal
    that is still open. -/
structure Stops (text : List Char) (c : Char) : Prop where
  noDigit : c.isDigit = false
  noLetter : c.isLower = false
  noComment : c = '\n' ∨ Uncommented text

/-- The characters that go on with a lexeme after its first one, but for string
    literals. -/
def goesOn (first : Char) : Char → Bool :=
  if first = '#' then (· ≠ '\n') else if first.isDigit then Char.isDigit else if first.isLower then Char.isLower
  else fun _ => false

theorem extent_quote (after : List Char) : extent '"' after = Quoted.extent after := by rw [extent]; rfl

theorem extent_of_ne_quote {first : Char} (noQuote : first ≠ '"') (after : List Char) :
    extent first after = (after.takeWhile (goesOn first)).length := by
  unfold extent goesOn
  rw [if_neg noQuote]
  split
  · rfl
  split
  · rfl
  split
  · rfl
  · cases after <;> rfl

theorem extent_le_length (first : Char) (after : List Char) : extent first after ≤ after.length := by
  by_cases quote : first = '"'
  · rw [quote, extent_quote]
    exact Quoted.extent_le_length after
  · rw [extent_of_ne_quote quote]
    exact (List.takeWhile_sublist _).length_le

theorem exists_of_mem_split {text lexeme : List Char} (within : lexeme ∈ split text) :
    ∃ (first : Char) (after : List Char), lexeme = first :: after.take (extent first after) := by
  induction text using split.induct with
  | case1 =>
    rw [split] at within
    cases within
  | case2 first after ih =>
    rw [split] at within
    rcases List.mem_cons.1 within with rfl | later
    · exact ⟨first, after, rfl⟩
    · exact ih later

theorem takeWhile_stop {p : Char → Bool} {c : Char} (stops : p c = false) (text rest : List Char) :
    (text ++ c :: rest).takeWhile p = text.takeWhile p := by
  induction text with
  | nil => simp [stops]
  | cons d text ih => by_cases goesOn : p d <;> simp [goesOn, ih]

theorem Stops.goesOn {first c : Char} {after : List Char} (stops : Stops (first :: after) c) : goesOn first c = false := by
  unfold Lexeme.goesOn
  split
  · have newline : c = '\n' := by
      refine stops.noComment.resolve_right fun uncommented => ?_
      refine uncommented (first :: after.take (extent first after)) ?_ (by simp [*])
      rw [split]
      exact List.mem_cons_self
    simp [newline]
  split
  · exact stops.noDigit
  split
  · exact stops.noLetter
  · rfl

theorem Stops.extent {first c : Char} {after : List Char} (stops : Stops (first :: after) c)
    (closed : first = '"' → Quoted.closes after) (rest : List Char) :
    extent first (after ++ c :: rest) = extent first after := by
  by_cases quote : first = '"'
  · rw [quote, extent_quote, extent_quote, Quoted.extent_append (closed quote)]
  · rw [extent_of_ne_quote quote, extent_of_ne_quote quote, takeWhile_stop stops.goesOn]

/-- Behind a text that does not end inside a string literal, a character that stops its
    lexemes begins lexemes of its own. -/
theorem split_append {text : List Char} (closed : endsQuoted text = false) {c : Char} (stops : Stops text c)
    (rest : List Char) : split (text ++ c :: rest) = split text ++ split (c :: rest) := by
  induction text using split.induct with
  | case1 => rw [split, List.nil_append, List.nil_append]
  | case2 first after ih =>
    rw [endsQuoted, Bool.or_eq_false_iff] at closed
    have literal : first = '"' → Quoted.closes after := by
      rintro rfl
      simpa using closed.1
    have later : Stops (after.drop (extent first after)) c := by
      refine { stops with noComment := stops.noComment.imp_right fun uncommented lexeme within => ?_ }
      exact uncommented lexeme (by rw [split]; exact List.mem_cons_of_mem _ within)
    rw [List.cons_append, split, stops.extent literal, List.take_append_of_le_length (extent_le_length first after),
      List.drop_append_of_le_length (extent_le_length first after), ih closed.2 later, ← List.cons_append, ← split]

theorem extent_append_of_lt {first : Char} {after : List Char} (noQuote : first ≠ '"')
    (before : extent first after < after.length) (more : List Char) :
    extent first (after ++ more) = extent first after := by
  rw [extent_of_ne_quote noQuote] at before ⊢
  rw [extent_of_ne_quote noQuote, List.takeWhile_append, if_neg (Nat.ne_of_lt before)]

/-- The last lexeme of a text that ends inside a string literal is this literal, and it
    takes in what has no quote. -/
theorem split_append_open {text more : List Char} (isOpen : endsQuoted text = true) (noQuote : '"' ∉ more) :
    ∃ before literal, split text = before ++ ['"' :: literal] ∧
      split (text ++ more) = before ++ ['"' :: (literal ++ more)] := by
  induction text using split.induct with
  | case1 =>
    rw [endsQuoted] at isOpen
    cases isOpen
  | case2 first after ih =>
    rw [endsQuoted, Bool.or_eq_true] at isOpen
    rcases isOpen with here | later
    · rw [Bool.and_eq_true, decide_eq_true_eq, Bool.not_eq_true'] at here
      obtain ⟨rfl, here⟩ := here
      have last : ∀ literal, Quoted.closes literal = false → split ('"' :: literal) = ['"' :: literal] := by
        intro literal isOpen
        rw [split, extent_quote, Quoted.extent_of_open isOpen, List.take_length, List.drop_length, split]
      exact ⟨[], after, last after here, last (after ++ more) (Quoted.closes_append here noQuote)⟩
    · -- a literal is open later on, so the first lexeme ends before the text does
      have before : extent first after < after.length := by
        refine Nat.lt_of_not_le fun whole => ?_
        rw [List.drop_of_length_le whole, endsQuoted] at later
        cases later
      have same : extent first (after ++ more) = extent first after := by
        by_cases quote : first = '"'
        · subst quote
          rw [extent_quote] at before
          rw [extent_quote, extent_quote]
          cases closed : Quoted.closes after with
          | true => exact Quoted.extent_append closed more
          | false =>
            rw [Quoted.extent_of_open closed] at before
            exact absurd before (Nat.lt_irrefl _)
        · exact extent_append_of_lt quote before more
      obtain ⟨front, literal, lexemes, longer⟩ := ih later
      refine ⟨_ :: front, literal, by rw [split, lexemes]; rfl, ?_⟩
      rw [List.cons_append, split, same, List.take_append_of_le_length (Nat.le_of_lt before),
        List.drop_append_of_le_length (Nat.le_of_lt before), longer]
      rfl

/-- A text that ends inside a string literal has one among its tokens, and keeps it
    whatever follows. -/
theorem endsQuoted_eq_false {text : List Char} (more : List Char)
    (noString : ∀ token ∈ (split (text ++ more)).filterMap token?, ∀ content, token ≠ .string content) :
    endsQuoted text = false := by
  induction text using split.induct with
  | case1 => rw [endsQuoted]
  | case2 first after ih =>
    rw [List.cons_append, split] at noString
    have plain : first ≠ '"' := by
      rintro rfl
      exact noString _ (List.mem_filterMap.2 ⟨_, List.mem_cons_self, rfl⟩) _ rfl
    rw [endsQuoted, decide_eq_false plain, Bool.false_and, Bool.false_or]
    -- either the first lexeme ends within the text, or nothing is left behind it
    by_cases before : extent first after < after.length
    · rw [extent_append_of_lt plain before, List.drop_append_of_le_length (Nat.le_of_lt before)] at noString
      refine ih fun token within => noString token ?_
      obtain ⟨lexeme, within, read⟩ := List.mem_filterMap.1 within
      exact List.mem_filterMap.2 ⟨lexeme, List.mem_cons_of_mem _ within, read⟩
    · rw [List.drop_of_length_le (Nat.le_of_not_lt before), endsQuoted]

end Lexeme

/-- A text has its own tokens, whatever follows it, if it does not end inside a string
    literal and what follows begins with a character that stops its lexemes. -/
theorem tokenize_append {a b : String} (closed : Lexeme.endsQuoted a.toList = false)
    (stops : ∀ c ∈ b.toList.head?, Lexeme.Stops a.toList c) : tokenize (a ++ b) = tokenize a ++ tokenize b := by
  unfold tokenize
  rw [String.toList_append]
  cases begins : b.toList with
  | nil => rw [List.append_nil, Lexeme.split, List.filterMap_nil, List.append_nil]
  | cons c rest =>
    rw [begins] at stops
    rw [Lexeme.split_append closed (stops c rfl), List.filterMap_append]

theorem tokenize_blank {a b : String} {c : Char} (characters : a.toList = c :: b.toList) (blank : Lexeme.isBlank c) :
    tokenize a = tokenize b := by
  have alone : Lexeme.extent c b.toList = 0 := by
    simp only [Lexeme.isBlank, Bool.or_eq_true, decide_eq_true_eq] at blank
    rcases blank with (rfl | rfl) | rfl <;> rfl
  have silent : Lexeme.token? [c] = none := by rw [Lexeme.token?, if_pos (by rw [blank, Bool.or_true])]
  unfold tokenize
  rw [characters, Lexeme.split, alone, List.take_zero, List.drop_zero, List.filterMap_cons_none silent]

/-- A newline separates the tokens of any two texts, unless the first one ends inside a
    string literal. -/
theorem tokenize_newline {a : String} (closed : Lexeme.endsQuoted a.toList = false) (b : String) :
    tokenize (a ++ "\n" ++ b) = tokenize a ++ tokenize b := by
  have characters : ("\n" ++ b).toList = '\n' :: b.toList := by simp
  have stops : Lexeme.Stops a.toList '\n' := ⟨by decide, by decide, .inl rfl⟩
  rw [String.append_assoc, tokenize_append closed (by rw [characters]; rintro c ⟨⟩; exact stops),
    tokenize_blank characters (by decide)]

end Scriptlet

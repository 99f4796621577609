import Scriptlet.Proofs.Lexemes.Split

namespace Scriptlet

def reservedWords : List String := ["if", "def", "true", "false", "null"]

/-- A name is a run of lower-case letters, and none of the reserved words. -/
structure IsName (x : String) : Prop where
  nonempty : x ≠ ""
  letters : ∀ c ∈ x.toList, c.isLower
  unreserved : x ∉ reservedWords

instance (x : String) : Decidable (IsName x) :=
  decidable_of_iff (x ≠ "" ∧ x.toList.all Char.isLower ∧ x ∉ reservedWords)
    ⟨fun ⟨nonempty, letters, unreserved⟩ => ⟨nonempty, List.all_eq_true.1 letters, unreserved⟩,
      fun name => ⟨name.nonempty, List.all_eq_true.2 name.letters, name.unreserved⟩⟩

/-- The tokens whose text reads back. -/
def Token.IsPrintable : Token → Prop
  | .int i => 0 ≤ i.toInt
  | .name x => IsName x
  | .unknown c => isOther c
  | _ => True

theorem Token.ofWord_of_unreserved {word : String} (unreserved : word ∉ reservedWords) :
    Token.ofWord word = .name word := by
  simp only [reservedWords, List.mem_cons, List.not_mem_nil, or_false, not_or] at unreserved
  unfold Token.ofWord
  split <;> simp_all

namespace Quoted

theorem extent_escape (text : List Char) : extent (escape text ++ ['"']) = (escape text ++ ['"']).length := by
  induction text with
  | nil => rfl
  | cons c text ih =>
    by_cases special : c = '\\' ∨ c = '"'
    · rw [escape, if_pos special, List.cons_append, List.cons_append, extent, ih]
      rfl
    · obtain ⟨noBackslash, noQuote⟩ := not_or.1 special
      rw [escape, if_neg special, List.cons_append, extent_plain noBackslash noQuote, ih]
      rfl

theorem closes_escape (text : List Char) : closes (escape text ++ ['"']) = true := by
  induction text with
  | nil => rfl
  | cons c text ih =>
    by_cases special : c = '\\' ∨ c = '"'
    · rw [escape, if_pos special, List.cons_append, List.cons_append, closes, ih]
    · obtain ⟨noBackslash, noQuote⟩ := not_or.1 special
      rw [escape, if_neg special, List.cons_append, closes_plain noBackslash noQuote, ih]

end Quoted

namespace Lexeme

/-- The characters are a lexeme, and this is its token. What may follow them is what may
    follow any text. -/
structure Spells (lexeme : List Char) (token : Token) : Prop where
  split : split lexeme = [lexeme]
  token : token? lexeme = some token
  closed : endsQuoted lexeme = false
  uncommented : lexeme.head? ≠ some '#'

theorem Leads.spells {lexeme : List Char} {token : Token} (leads : Leads lexeme [] (some token))
    (noQuote : lexeme.head? ≠ some '"') : Spells lexeme token := by
  obtain ⟨first, others, rfl, reach, read⟩ := leads.read
  have plain : first ≠ '"' := by simpa using noQuote
  have alone := leads.split
  rw [List.append_nil] at reach alone
  refine ⟨by rw [alone, Lexeme.split], read, ?_, ?_⟩
  · rw [endsQuoted, reach, List.drop_length, endsQuoted, decide_eq_false plain]
    rfl
  · rintro ⟨⟩
    cases read

theorem spells_digits {digits : List Char} (nonempty : digits ≠ []) (all : ∀ c ∈ digits, c.isDigit) {i : Integer}
    (stands : Integer.ofDigits? digits = some i) : Spells digits (.int i) := by
  obtain ⟨first, others, rfl⟩ := List.exists_cons_of_ne_nil nonempty
  obtain ⟨_, noQuote, _⟩ := ne_special (.inl (all first List.mem_cons_self))
  rcases Nat.lt_or_ge (Nat.ofDigitChars 10 (first :: others) 0) (2 ^ 63) with inRange | tooLarge
  · rw [ofDigits?_of_lt inRange] at stands
    obtain rfl := Option.some.inj stands
    exact Leads.spells (.number all nofun inRange) (by simpa using noQuote)
  · rw [ofDigits?_of_le tooLarge] at stands
    cases stands

theorem spells_word {first : Char} {others : List Char} (all : (first :: others).all Char.isLower) :
    Spells (first :: others) (.ofWord (String.ofList (first :: others))) := by
  have letters := List.all_eq_true.1 all
  obtain ⟨_, noQuote, _⟩ := ne_special (.inr (letters first List.mem_cons_self))
  exact Leads.spells (.word letters nofun) (by simpa using noQuote)

theorem spells_name {x : String} (name : IsName x) : Spells x.toList (.name x) := by
  have nonempty : x.toList ≠ [] := by simpa using name.nonempty
  obtain ⟨first, after, characters⟩ := List.exists_cons_of_ne_nil nonempty
  have letters := name.letters
  rw [characters] at letters
  have word := spells_word (List.all_eq_true.2 letters)
  rwa [← characters, String.ofList_toList, Token.ofWord_of_unreserved name.unreserved] at word

theorem spells_other {c : Char} (other : isOther c) : Spells [c] (.unknown c) :=
  Leads.spells (.other other) (by simpa using (isOther_iff.1 other).1.noQuote)

theorem spells_punctuation {c : Char} {token : Token} (mark : Token.ofPunctuation? c = some token) : Spells [c] token :=
  Leads.spells (.punctuation mark) (by simpa using (alone_of_punctuation mark).1.noQuote)

theorem spells_quote (content : List Char) : Spells (Quoted.quote content) (.string (String.ofList content)) where
  split := by
    rw [Quoted.quote, Lexeme.split, extent_quote, Quoted.extent_escape, List.take_length, List.drop_length, Lexeme.split]
  token := by simp [Quoted.quote, token?, isBlank, Quoted.content_escape]
  closed := by
    have whole : extent '"' (Quoted.escape content ++ ['"']) = _ := Quoted.extent_escape content
    rw [Quoted.quote, endsQuoted, whole, List.drop_length, endsQuoted, Quoted.closes_escape]
    rfl
  uncommented := by simp [Quoted.quote]

theorem spells_text {token : Token} (printable : token.IsPrintable) : Spells token.text.toList token := by
  cases token with
  | int i =>
    have natural : ¬ i.toInt < 0 := by simpa [Token.IsPrintable] using printable
    have stands := Integer.ofDigits?_digits printable
    rw [Token.text, Integer.text, if_neg natural, decimal, String.toList_ofList]
    exact spells_digits Nat.toDigits_ne_nil (fun c => Nat.isDigit_of_mem_toDigits (by decide) (by decide)) stands
  | name x => exact spells_name printable
  | string content =>
    have quoted := spells_quote content.toList
    rwa [String.ofList_toList, ← String.toList_ofList (l := Quoted.quote _)] at quoted
  | unknown c =>
    have other := spells_other printable
    simpa [Token.text] using other
  | bool b => cases b <;> exact spells_word (by decide)
  | ifWord | defWord | null => exact spells_word (by decide)
  | _ => exact spells_punctuation rfl

/-- What begins with no digit and no letter, or is empty, leaves the lexeme in front of it
    alone. -/
theorem Spells.tokenize_append {text b : String} {token : Token} (spells : Spells text.toList token)
    (stops : ∀ c ∈ b.toList.head?, c.isDigit = false ∧ c.isLower = false) :
    tokenize (text ++ b) = token :: tokenize b := by
  have uncommented : Uncommented text.toList := by
    intro lexeme within
    rw [spells.split, List.mem_singleton] at within
    rw [within]
    exact spells.uncommented
  have alone : tokenize text = [token] := by
    rw [tokenize, spells.split, List.filterMap_cons_some spells.token, List.filterMap_nil]
  rw [Scriptlet.tokenize_append spells.closed, alone, List.singleton_append]
  intro c within
  obtain ⟨noDigit, noLetter⟩ := stops c within
  exact ⟨noDigit, noLetter, .inr uncommented⟩

end Lexeme

theorem tokenize_listText_of_spells {tokens : List Token} {read : Token → Token}
    (spells : ∀ token ∈ tokens, Lexeme.Spells token.text.toList (read token)) :
    tokenize (Token.listText tokens) = tokens.map read := by
  induction tokens with
  | nil => simp [Token.listText, tokenize, Lexeme.split]
  | cons token tokens ih =>
    obtain ⟨first, others⟩ := List.forall_mem_cons.1 spells
    rw [List.map_cons, ← ih others]
    rcases tokens with _ | ⟨next, tokens⟩
    · have alone : Token.listText [token] = token.text ++ "" := by simp [Token.listText]
      rw [alone, first.tokenize_append (by simp)]
      simp [Token.listText]
    · have spaced : Token.listText (token :: next :: tokens) = token.text ++ (" " ++ Token.listText (next :: tokens)) := by
        simp [Token.listText, String.append_assoc]
      have blank : (" " ++ Token.listText (next :: tokens)).toList = ' ' :: (Token.listText (next :: tokens)).toList := by
        simp
      rw [spaced, first.tokenize_append (by simp), tokenize_blank blank (by decide)]

/-- The texts of printable tokens, with spaces between them, have these tokens. -/
theorem tokenize_listText {tokens : List Token} (printable : ∀ token ∈ tokens, token.IsPrintable) :
    tokenize (Token.listText tokens) = tokens := by
  have read : tokenize (Token.listText tokens) = tokens.map id :=
    tokenize_listText_of_spells fun token within => Lexeme.spells_text (printable token within)
  rwa [List.map_id] at read

theorem Token.ofWord_printable {word : String} (nonempty : word ≠ "") (letters : ∀ c ∈ word.toList, c.isLower) :
    (Token.ofWord word).IsPrintable := by
  by_cases reserved : word ∈ reservedWords
  · simp only [reservedWords, List.mem_cons, List.not_mem_nil, or_false] at reserved
    rcases reserved with rfl | rfl | rfl | rfl | rfl <;> trivial
  · rw [Token.ofWord_of_unreserved reserved]
    exact ⟨nonempty, letters, reserved⟩

theorem Token.ofPunctuation_printable {c : Char} {token : Token} (mark : Token.ofPunctuation? c = some token) :
    token.IsPrintable := by
  unfold Token.ofPunctuation? at mark
  split at mark <;> cases mark <;> trivial

theorem Lexeme.Leads.printable {lexeme rest : List Char} {token : Token} (leads : Leads lexeme rest (some token)) :
    token.IsPrintable ∨
      ∃ c ∈ lexeme.head?, c.isDigit ∧ token = .unknown c ∧ 2 ^ 63 ≤ Nat.ofDigitChars 10 lexeme 0 := by
  cases leads with
  | punctuation mark => exact .inl (Token.ofPunctuation_printable mark)
  | closed | unclosed | dangling => exact .inl trivial
  | number digits ends inRange =>
    refine .inl ?_
    change 0 ≤ (Int64.ofNat _).toInt
    rw [Int64.toInt_ofNat_of_lt inRange]
    omega
  | outOfRange digits ends tooLarge => exact .inr ⟨_, rfl, digits _ List.mem_cons_self, rfl, tooLarge⟩
  | word letters => exact .inl (Token.ofWord_printable (by simp) (by simpa using letters))
  | other other => exact .inl other

/-- The tokens of a text are printable, but for the first digits of numbers that are out
    of range. -/
theorem printable_of_mem_tokenize {source : String} {token : Token} (within : token ∈ tokenize source) :
    token.IsPrintable ∨ ∃ c : Char, c.isDigit ∧ token = .unknown c := by
  have splits : Lexeme.Splits source.toList _ (tokenize source) := Lexeme.splits_iff.2 ⟨rfl, rfl⟩
  obtain ⟨_, _, _, leads⟩ := splits.leads within
  rcases leads.printable with printable | ⟨c, _, digit, unknown, _⟩
  · exact .inl printable
  · exact .inr ⟨c, digit, unknown⟩

end Scriptlet

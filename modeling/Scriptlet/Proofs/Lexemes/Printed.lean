import Scriptlet.Proofs.Spelling

namespace Scriptlet

/-- The token that is read where this one was printed, if it is read as one token: a digit
    is a number then. -/
def Token.reread : Token → Token
  | .unknown c => if c.isDigit then .int (.ofNat (Nat.ofDigitChars 10 [c] 0)) else .unknown c
  | token => token

theorem Token.reread_of_printable {token : Token} (printable : token.IsPrintable) : token.reread = token := by
  cases token with
  | unknown c =>
    have noDigit := (Lexeme.isOther_iff.1 printable).1.noDigit
    rw [reread, if_neg (by simp [noDigit])]
  | _ => rfl

theorem ofDigitChars_singleton_lt {c : Char} (digit : c.isDigit) : Nat.ofDigitChars 10 [c] 0 < 2 ^ 63 := by
  have high : c.val ≤ '9'.val := of_decide_eq_true (Bool.and_eq_true_iff.1 digit).2
  have bounded : c.toNat ≤ 57 := UInt32.le_iff_toNat_le.1 high
  rw [Nat.ofDigitChars_cons, Nat.ofDigitChars_nil]
  omega

theorem Lexeme.spells_reread {token : Token} (kind : token.IsPrintable ∨ ∃ c : Char, c.isDigit ∧ token = .unknown c) :
    Spells token.text.toList token.reread := by
  rcases kind with printable | ⟨c, digit, rfl⟩
  · rw [Token.reread_of_printable printable]
    exact spells_text printable
  · have alone := spells_digits (List.cons_ne_nil c []) (by simpa using digit)
      (ofDigits?_of_lt (ofDigitChars_singleton_lt digit))
    rw [Token.reread, if_pos digit]
    simpa [Token.text] using alone

/-- A list of tokens that comes back has printable tokens only: of those that a text can
    have, all others come back as numbers. -/
theorem printable_of_tokenize_listText {tokens : List Token} (same : tokenize (Token.listText tokens) = tokens) :
    ∀ token ∈ tokens, token.IsPrintable := by
  have kind : ∀ token ∈ tokens, token.IsPrintable ∨ ∃ c : Char, c.isDigit ∧ token = .unknown c := by
    intro token within
    rw [← same] at within
    exact printable_of_mem_tokenize within
  have read := tokenize_listText_of_spells fun token within => Lexeme.spells_reread (kind token within)
  intro token within
  rcases kind token within with printable | ⟨c, digit, rfl⟩
  · exact printable
  · have unchanged : tokens.map Token.reread = tokens.map id := by rw [← read, same, List.map_id]
    have stays := List.map_inj_left.1 unchanged _ within
    rw [Token.reread, if_pos digit] at stays
    cases stays

/-- A number out of range leaves its first digit among the tokens, and nothing else leaves
    a digit there. -/
theorem numbers_inRange_iff (source : String) :
    (∀ lexeme ∈ Lexeme.split source.toList, (∃ c ∈ lexeme.head?, c.isDigit) → Nat.ofDigitChars 10 lexeme 0 < 2 ^ 63) ↔
      ∀ c : Char, c.isDigit → .unknown c ∉ tokenize source := by
  constructor
  · intro inRange c digit within
    have splits : Lexeme.Splits source.toList _ (tokenize source) := Lexeme.splits_iff.2 ⟨rfl, rfl⟩
    obtain ⟨lexeme, below, rest, leads⟩ := splits.leads within
    rcases leads.printable with printable | ⟨d, begins, digit', _, tooLarge⟩
    · have noDigit := (Lexeme.isOther_iff.1 printable).1.noDigit
      rw [digit] at noDigit
      cases noDigit
    · have small := inRange lexeme below ⟨d, begins, digit'⟩
      omega
  · rintro none lexeme within ⟨c, begins, digit⟩
    obtain ⟨others, rfl⟩ := List.head?_eq_some_iff.1 begins
    by_contra tooLarge
    refine none c digit (List.mem_filterMap.2 ⟨c :: others, within, ?_⟩)
    rw [Lexeme.token?_number digit, Lexeme.ofDigits?_of_le (Nat.le_of_not_lt tooLarge)]
    rfl

/-- Tokens that are printed with spaces between them and read again are the same tokens
    exactly if they are printable, whatever list of tokens they are. So the tokens of a text
    come back exactly if the value of each run of digits that is a number in it is below
    2^63, which is to say that no digit is among the tokens as an unknown character. -/
theorem tokenize_listText_eq_iff :
    (∀ tokens, tokenize (Token.listText tokens) = tokens ↔ ∀ token ∈ tokens, token.IsPrintable) ∧
    ∀ source : String,
      (tokenize (Token.listText (tokenize source)) = tokenize source ↔
        ∀ lexeme ∈ Lexeme.split source.toList, (∃ c ∈ lexeme.head?, c.isDigit) →
          Nat.ofDigitChars 10 lexeme 0 < 2 ^ 63) ∧
      (tokenize (Token.listText (tokenize source)) = tokenize source ↔
        ∀ c : Char, c.isDigit → .unknown c ∉ tokenize source) := by
  have exact : ∀ tokens, tokenize (Token.listText tokens) = tokens ↔ ∀ token ∈ tokens, token.IsPrintable :=
    fun tokens => ⟨printable_of_tokenize_listText, tokenize_listText⟩
  refine ⟨exact, fun source => ?_⟩
  have noDigit : tokenize (Token.listText (tokenize source)) = tokenize source ↔
      ∀ c : Char, c.isDigit → .unknown c ∉ tokenize source := by
    rw [exact]
    constructor
    · intro printable c digit within
      have alone := (Lexeme.isOther_iff.1 (printable _ within)).1.noDigit
      rw [digit] at alone
      cases alone
    · intro none token within
      rcases printable_of_mem_tokenize within with printable | ⟨c, digit, rfl⟩
      · exact printable
      · exact absurd within (none c digit)
  exact ⟨noDigit.trans (numbers_inRange_iff source).symm, noDigit⟩

end Scriptlet

namespace Scriptlet.Quoted

/-- The character that a backslash and this character stand for together; after a
    backslash every other character stands for nothing. -/
def escaped? : Char → Option Char
  | 'n' => some '\n'
  | 'b' => some '\x08'
  | 't' => some '\t'
  | 'v' => some '\x0b'
  | 'r' => some '\r'
  | '0' => some '\x00'
  | '\x00' => some '\x00'
  | '\\' => some '\\'
  | '"' => some '"'
  | '\'' => some '\''
  | _ => none

/-- How many of the characters after an opening quote belong to the literal: all up to
    and including the first quote that no backslash hides, or else all there are. -/
def extent : List Char → Nat
  | [] => 0
  | '"' :: _ => 1
  | ['\\'] => 1
  | '\\' :: _ :: rest => extent rest + 2
  | _ :: rest => extent rest + 1

/-- The text that a literal stands for, given the characters after its opening quote.
    A backslash at the very end stands for nothing. -/
def content : List Char → List Char
  | [] => []
  | '"' :: _ => []
  | ['\\'] => []
  | '\\' :: c :: rest => (escaped? c).toList ++ content rest
  | c :: rest => c :: content rest

def escape : List Char → List Char
  | [] => []
  | c :: rest => if c = '\\' ∨ c = '"' then '\\' :: c :: escape rest else c :: escape rest

def quote (text : List Char) : List Char := '"' :: (escape text ++ ['"'])

/-- Escaped text up to a closing quote is read back, whatever follows the quote. -/
theorem content_escape (text rest : List Char) : content (escape text ++ '"' :: rest) = text := by
  induction text with
  | nil => simp [escape, content]
  | cons c text ih =>
    by_cases special : c = '\\' ∨ c = '"'
    · rcases special with rfl | rfl <;> simp [escape, content, escaped?, ih]
    · rw [not_or] at special
      rw [escape, if_neg (by simp [special]), List.cons_append, content]
      · rw [ih]
      · simpa using special.2
      · simp [special.1]
      · simp [special.1]

theorem content_quote (text : List Char) : content (quote text).tail = text := by
  simpa [quote] using content_escape text []

end Scriptlet.Quoted

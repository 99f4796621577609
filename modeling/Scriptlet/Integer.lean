/-!
The language counts with whole numbers between -2^63 and 2^63 - 1. An operation is
carried out exactly, and its result is then either in range or reported as missing;
nothing wraps around. Main statements: `ofInt?_eq_some_iff` and `ofInt?_eq_none_iff`
say which whole numbers are integers, and `ofDigits?_digits` that the decimal digits
of an integer read back.
-/
namespace Scriptlet

/-- The integers of the language: signed whole numbers of 64 bits. -/
abbrev Integer := Int64

def digits (n : Nat) : List Char := Nat.toDigits 10 n

def decimal (n : Nat) : String := String.ofList (digits n)

namespace Integer

def InRange (n : Int) : Prop := Int64.minValue.toInt ≤ n ∧ n ≤ Int64.maxValue.toInt

instance (n : Int) : Decidable (InRange n) := inferInstanceAs (Decidable (_ ∧ _))

/-- The integer of exactly this value, or nothing if the value is out of range. -/
def ofInt? (n : Int) : Option Integer :=
  if range : InRange n then some (Int64.ofIntLE n range.1 range.2) else none

def add? (left right : Integer) : Option Integer := ofInt? (left.toInt + right.toInt)

def sub? (left right : Integer) : Option Integer := ofInt? (left.toInt - right.toInt)

def neg? (operand : Integer) : Option Integer := ofInt? (-operand.toInt)

def text (i : Integer) : String :=
  if i.toInt < 0 then "-" ++ decimal i.toInt.natAbs else decimal i.toInt.natAbs

/-- The integer that a run of decimal digits stands for, if it is in range. Leading
    zeros do not matter. -/
def ofDigits? (run : List Char) : Option Integer := ofInt? (Nat.ofDigitChars 10 run 0)

theorem inRange_toInt (i : Integer) : InRange i.toInt := ⟨i.minValue_le_toInt, i.toInt_le⟩

theorem ofInt?_eq_some_iff {n : Int} {i : Integer} : ofInt? n = some i ↔ i.toInt = n := by
  unfold ofInt?
  constructor
  · split
    · rename_i range
      rintro ⟨⟩
      exact Int64.toInt_ofIntLE
    · nofun
  · rintro rfl
    simp [inRange_toInt]

@[simp] theorem ofInt?_toInt (i : Integer) : ofInt? i.toInt = some i := ofInt?_eq_some_iff.2 rfl

theorem ofInt?_eq_none_iff {n : Int} : ofInt? n = none ↔ ¬ InRange n := by
  simp [ofInt?]

theorem ofDigits?_digits {i : Integer} (natural : 0 ≤ i.toInt) : ofDigits? (digits i.toInt.natAbs) = some i := by
  rw [ofDigits?, digits, Nat.ofDigitChars_ten_toDigits, ofInt?_eq_some_iff]
  omega

end Integer
end Scriptlet

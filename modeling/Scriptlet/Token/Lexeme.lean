import Scriptlet.Token

/-!
A program text is cut into lexemes from left to right, each as long as its first
character allows: a comment runs to the end of its line, a string literal through its
closing quote, numbers and words as far as their digits and letters go, and any other
character stands alone. Main statement: `flatten_split`, the lexemes put together
again are the text.
-/
namespace Scriptlet
namespace Lexeme

def isBlank (c : Char) : Bool := c = ' ' || c = '\t' || c = '\n'

/-- How many of the characters that follow belong to the lexeme of the first one. -/
def extent (first : Char) (after : List Char) : Nat :=
  if first = '#' then (after.takeWhile (· ≠ '\n')).length
  else if first = '"' then Quoted.extent after
  else if first.isDigit then (after.takeWhile Char.isDigit).length
  else if first.isLower then (after.takeWhile Char.isLower).length
  else 0

def split : List Char → List (List Char)
  | [] => []
  | first :: after =>
    (first :: after.take (extent first after)) :: split (after.drop (extent first after))
termination_by text => text.length

/-- The token of a lexeme; blanks and comments have none. A number that is out of
    range is unknown under its first digit. -/
def token? : List Char → Option Token
  | [] => none
  | first :: after =>
    if first = '#' || isBlank first then none
    else if first = '"' then some (.string (String.ofList (Quoted.content after)))
    else if first.isDigit then some (((Integer.ofDigits? (first :: after)).map .int).getD (.unknown first))
    else if first.isLower then some (.ofWord (String.ofList (first :: after)))
    else some ((Token.ofPunctuation? first).getD (.unknown first))

theorem flatten_split (text : List Char) : (split text).flatten = text := by
  induction text using split.induct with
  | case1 => simp [split]
  | case2 first after ih => simp [split, ih]

end Lexeme

def tokenize (source : String) : List Token := (Lexeme.split source.toList).filterMap Lexeme.token?

end Scriptlet

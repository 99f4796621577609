import Scriptlet.Token.Lexeme

/-!
What is typed at a prompt is cut into entries, and each entry is made into a program
text. An entry goes on for another line while a backslash ends its last line or a brace
is open; its program text has a space for each such backslash, and a semicolon at the
end if one is missing. Main statement: `flatten_splitLines`, the lines of an input put
together again are the input.
-/
namespace Scriptlet.Entry

/-- The number of opening braces less that of closing ones, of those that are tokens. -/
def openBraces (source : String) : Int :=
  (tokenize source).count .leftBrace - (tokenize source).count .rightBrace

/-- Each backslash at the end of a line becomes a space, together with the line's end. -/
def joinLines : List Char → List Char
  | [] => []
  | '\\' :: '\n' :: rest => ' ' :: joinLines rest
  | c :: rest => c :: joinLines rest

/-- The program text of an entry. Where the last token is neither a semicolon nor a
    closing brace, a semicolon follows, on a line of its own if there may be a comment. -/
def complete (entry : String) : String :=
  let source := String.ofList (joinLines entry.toList)
  match (tokenize source).getLast? with
  | none | some .semicolon | some .rightBrace => source
  | some _ => if '#' ∈ source.toList then source ++ "\n;" else source ++ ";"

def withoutLineEnd (text : List Char) : List Char :=
  match text.reverse with
  | '\n' :: '\r' :: rest => rest.reverse
  | '\n' :: rest => rest.reverse
  | _ => text

/-- The text is no entry yet: another line belongs to it. -/
def continues (text : List Char) : Bool :=
  text.getLast? = some '\\' || 0 < openBraces (String.ofList text)

/-- What a further line makes of the lines read so far: an entry, or more of one. -/
inductive Progress where
  | entry (text : String)
  | unfinished (lines : String)
  deriving DecidableEq, Repr

def read (lines line : String) : Progress :=
  let text := withoutLineEnd (lines ++ line).toList
  if continues text then .unfinished (lines ++ line) else .entry (String.ofList text)

/-- The lines of a text, each with its end. -/
def splitLines : List Char → List (List Char)
  | [] => []
  | c :: rest =>
    if c = '\n' then [c] :: splitLines rest
    else match splitLines rest with
      | [] => [[c]]
      | line :: lines => (c :: line) :: lines

theorem flatten_splitLines (text : List Char) : (splitLines text).flatten = text := by
  induction text with
  | nil => rfl
  | cons c rest ih =>
    rw [splitLines]
    split
    · simp [ih]
    · cases lines : splitLines rest with
      | nil =>
        rw [lines] at ih
        simpa using ih
      | cons line later =>
        rw [lines] at ih
        simpa using ih

/-- The entries in lines, after some that were read already. What is unfinished at the
    end is dropped. -/
def ofLines (lines : String) : List String → List String
  | [] => []
  | line :: later =>
    match read lines line with
    | .entry text => text :: ofLines "" later
    | .unfinished lines => ofLines lines later

def ofInput (input : String) : List String := ofLines "" ((splitLines input.toList).map String.ofList)

end Scriptlet.Entry

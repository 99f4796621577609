import Scriptlet.Proofs.Completion
import Scriptlet.Proofs.Lexemes.Split

/-!
The prompt counts the braces of an entry as it is typed, and what is run is the program
text made of it. Joining the lines leaves the braces what they are: no token but a
backslash of its own goes up to the end of a line, and a string literal ends at the same
quote. A comment does end with its line, and takes in what is joined to it
(`tokenize_continued`). Main statement: `braces_complete`, an entry none of whose
comments is continued has the braces of its program text.
-/
namespace Scriptlet
open Entry

namespace Entry

theorem joinLines_cons {c : Char} {rest : List Char} (apart : c = '\\' → rest.head? ≠ some '\n') :
    joinLines (c :: rest) = c :: joinLines rest := by
  rw [joinLines]
  rintro later rfl rfl
  exact apart rfl rfl

theorem joinLines_append {first : Char} {others rest : List Char} (sameLine : '\n' ∉ others)
    (apart : (first :: others).getLast? = some '\\' → rest.head? ≠ some '\n') :
    joinLines (first :: (others ++ rest)) = first :: (others ++ joinLines rest) := by
  induction others generalizing first with
  | nil => exact joinLines_cons fun backslash => apart (by rw [backslash]; rfl)
  | cons c others ih =>
    rw [List.mem_cons, not_or] at sameLine
    rw [List.getLast?_cons_cons] at apart
    have noEnd : (c :: (others ++ rest)).head? ≠ some '\n' := by simpa using Ne.symm sameLine.1
    rw [List.cons_append, joinLines_cons fun _ => noEnd, ih sameLine.2 apart, List.cons_append]

theorem joinLines_line {text : List Char} (sameLine : '\n' ∉ text) : joinLines text = text := by
  cases text with
  | nil => rfl
  | cons c rest =>
    have whole := @joinLines_append c rest [] (fun within => sameLine (List.mem_cons_of_mem c within)) nofun
    rwa [joinLines, List.append_nil] at whole

/-- A joined text begins as it did, or with a space in place of a backslash. -/
theorem head?_joinLines {text : List Char} {c : Char} (begins : c ∈ (joinLines text).head?) :
    c ∈ text.head? ∨ c = ' ' ∧ '\\' ∈ text.head? := by
  unfold joinLines at begins
  split at begins
  · cases begins
  · exact .inr ⟨(Option.some.inj begins).symm, rfl⟩
  · exact .inl begins

end Entry

namespace Quoted

/-- What follows a literal, given the characters after its opening quote. -/
def behind (after : List Char) : List Char := after.drop (extent after)

theorem behind_plain {c : Char} (noBackslash : c ≠ '\\') (noQuote : c ≠ '"') (rest : List Char) :
    behind (c :: rest) = behind rest := by
  rw [behind, extent_plain noBackslash noQuote, List.drop_succ_cons, behind]

theorem behind_escape (c : Char) (rest : List Char) : behind ('\\' :: c :: rest) = behind rest := rfl

/-- Joining the lines of a literal leaves its closing quote where it is: in front of a
    line's end, a backslash hides this end and nothing else, or is hidden itself. -/
theorem behind_joinLines (text : List Char) : behind (joinLines text) = joinLines (behind text) := by
  fun_induction extent text with
  | case1 => rfl
  | case2 rest => rfl
  | case3 => rfl
  | case4 c rest ih =>
    rw [behind_escape, ← ih]
    by_cases hidesEnd : c = '\n'
    · rw [hidesEnd, joinLines, behind_plain (by decide) (by decide)]
    rw [joinLines_cons (by simpa using hidesEnd)]
    by_cases hidden : c = '\\' ∧ rest.head? = some '\n'
    · obtain ⟨rfl, line⟩ := hidden
      obtain ⟨more, rfl⟩ := List.head?_eq_some_iff.1 line
      rw [joinLines, behind_escape, joinLines_cons fun backslash => absurd backslash (by decide),
        behind_plain (by decide) (by decide)]
    · rw [joinLines_cons fun backslash line => hidden ⟨backslash, line⟩, behind_escape]
  | case5 c rest noQuote noEnd noEscape ih =>
    have noBackslash := ne_backslash noEnd noEscape
    rw [joinLines_cons fun backslash => absurd backslash noBackslash, behind_plain noBackslash noQuote,
      behind_plain noBackslash noQuote, ih]

end Quoted

namespace Lexeme

/-- The braces of a text that are tokens, in order. -/
def braces (text : List Char) : List Token := ((split text).filterMap token?).filter Token.isBrace

theorem braces_nil : braces [] = [] := by rw [braces, split, List.filterMap_nil, List.filter_nil]

theorem braces_cons (first : Char) (after : List Char) :
    braces (first :: after) =
      (token? (first :: after.take (extent first after))).toList.filter Token.isBrace ++
        braces (after.drop (extent first after)) := by
  rw [braces, split, List.filterMap_cons, braces]
  cases token? (first :: after.take (extent first after)) with
  | none => rfl
  | some token =>
    change (token :: _).filter Token.isBrace = [token].filter Token.isBrace ++ _
    rw [← List.filter_append, List.singleton_append]

theorem braces_quote (after : List Char) : braces ('"' :: after) = braces (Quoted.behind after) := by
  rw [braces_cons, extent_quote, Quoted.behind]
  rfl

theorem braces_run {first : Char} {others rest : List Char} (reach : extent first (others ++ rest) = others.length) :
    braces (first :: (others ++ rest)) = (token? (first :: others)).toList.filter Token.isBrace ++ braces rest := by
  rw [braces_cons, reach, List.take_left, List.drop_left]

theorem braces_blank {c : Char} (blank : isBlank c) (rest : List Char) : braces (c :: rest) = braces rest := by
  have alone := alone_of_blank blank
  rw [braces_cons, extent_alone alone, List.take_zero, List.drop_zero, token?_alone alone, if_pos blank]
  rfl

theorem braces_backslash (rest : List Char) : braces ('\\' :: rest) = braces rest := by
  rw [braces_cons, extent_alone ⟨by decide, by decide, by decide, by decide⟩]
  rfl

theorem braces_append_open {text more : List Char} (isOpen : endsQuoted text = true) (noQuote : '"' ∉ more) :
    braces (text ++ more) = braces text := by
  obtain ⟨before, literal, lexemes, longer⟩ := split_append_open isOpen noQuote
  rw [braces, braces, lexemes, longer, List.filterMap_append, List.filterMap_append, List.filter_append, List.filter_append]
  rfl

/-- What stops a lexeme still does so when it is joined: a space in place of a backslash
    goes on with no lexeme, unless the backslash does. -/
theorem stops_joinLines {first : Char} {rest : List Char} (stops : ∀ c ∈ rest.head?, goesOn first c = false) :
    ∀ c ∈ (joinLines rest).head?, goesOn first c = false := by
  intro c begins
  rcases head?_joinLines begins with same | ⟨rfl, backslash⟩
  · exact stops c same
  · by_cases comment : first = '#'
    · have taken := stops '\\' backslash
      rw [comment] at taken
      cases taken
    · exact goesOn_eq_false comment (by decide) (by decide)

/-- No comment is continued: if it is followed by another line, it does not end with a
    backslash. -/
def CommentsEnd (text : List Char) : Prop :=
  ∀ lexeme ∈ (split text).dropLast, lexeme.head? = some '#' → lexeme.getLast? ≠ some '\\'

instance (text : List Char) : Decidable (CommentsEnd text) :=
  inferInstanceAs (Decidable (∀ lexeme ∈ (split text).dropLast, _ → _))

section CommentsEnd
variable {first : Char} {others rest : List Char}

theorem split_ne_nil {text : List Char} (more : text ≠ []) : split text ≠ [] := by
  obtain ⟨first, after, rfl⟩ := List.exists_cons_of_ne_nil more
  rw [split]
  exact List.cons_ne_nil _ _

theorem CommentsEnd.behind {after : List Char} (ends : CommentsEnd (first :: after)) :
    CommentsEnd (after.drop (extent first after)) := by
  intro lexeme within
  refine ends lexeme ?_
  have more : split (after.drop (extent first after)) ≠ [] := by
    intro none
    rw [none] at within
    cases within
  rw [split, List.dropLast_cons_of_ne_nil more]
  exact List.mem_cons_of_mem _ within

/-- Where no comment is continued, a lexeme with a backslash in front of a line's end is
    this backslash. -/
theorem CommentsEnd.apart (ends : CommentsEnd (first :: (others ++ rest))) (all : ∀ c ∈ others, goesOn first c)
    (stops : ∀ c ∈ rest.head?, goesOn first c = false) (noQuote : first ≠ '"')
    (noEscape : first = '\\' → (others ++ rest).head? ≠ some '\n') :
    (first :: others).getLast? = some '\\' → rest.head? ≠ some '\n' := by
  intro backslash line
  by_cases comment : first = '#'
  · refine ends (first :: others) ?_ (by rw [comment]; rfl) backslash
    have more : split rest ≠ [] := split_ne_nil (by rintro rfl; cases line)
    rw [split, extent_run noQuote all stops, List.take_left, List.drop_left, List.dropLast_cons_of_ne_nil more]
    exact List.mem_cons_self
  · cases others with
    | nil => exact noEscape (Option.some.inj backslash) line
    | cons c others =>
      rw [List.getLast?_cons_cons] at backslash
      exact not_mem_run all (goesOn_eq_false comment (by decide) (by decide)) (List.mem_of_getLast? backslash)

end CommentsEnd

/-- Joining the lines of a text changes none of its braces, if no comment is continued. -/
theorem braces_joinLines {text : List Char} (ends : CommentsEnd text) : braces (joinLines text) = braces text := by
  induction text using split.induct with
  | case1 => rfl
  | case2 first after ih =>
    have later := ih ends.behind
    by_cases quote : first = '"'
    · subst quote
      rw [extent_quote] at later
      rw [joinLines_cons fun backslash => absurd backslash (by decide), braces_quote, braces_quote, Quoted.behind_joinLines,
        Quoted.behind, later]
    by_cases escape : first = '\\' ∧ after.head? = some '\n'
    · obtain ⟨rfl, line⟩ := escape
      obtain ⟨rest, rfl⟩ := List.head?_eq_some_iff.1 line
      have alone : Alone '\\' := ⟨by decide, by decide, by decide, by decide⟩
      rw [extent_alone alone, List.drop_zero, joinLines_cons fun backslash => absurd backslash (by decide)] at later
      rw [joinLines, braces_backslash, ← later, braces_blank (by decide), braces_blank (by decide)]
    · obtain ⟨others, rest, rfl, all, stops⟩ := exists_run first after
      have reach := extent_run quote all stops
      rw [reach, List.drop_left] at later
      have apart := ends.apart all stops quote fun backslash line => escape ⟨backslash, line⟩
      have sameLine : '\n' ∉ others := not_mem_run all (goesOn_newline first)
      rw [joinLines_append sameLine apart, braces_run (extent_run quote all (stops_joinLines stops)), braces_run reach, later]

end Lexeme

namespace Entry

theorem braces_mark (source : String) :
    (tokenize (source ++ mark source)).filter Token.isBrace = (tokenize source).filter Token.isBrace := by
  cases closed : Lexeme.endsQuoted source.toList with
  | false =>
    rw [tokenize_mark closed, List.filter_append]
    exact List.append_nil _
  | true =>
    have noQuote : '"' ∉ (mark source).toList := by
      unfold mark
      split <;> decide
    have taken := Lexeme.braces_append_open closed noQuote
    rwa [← String.toList_append] at taken

/-- An entry none of whose comments is continued has the braces of the program text made
    of it, in the same order, wherever its lines are joined. -/
theorem braces_complete {entry : String} (ends : Lexeme.CommentsEnd entry.toList) :
    (tokenize (complete entry)).filter Token.isBrace = (tokenize entry).filter Token.isBrace ∧
      openBraces (complete entry) = openBraces entry := by
  have lines : (tokenize (joined entry)).filter Token.isBrace = (tokenize entry).filter Token.isBrace := by
    have same := Lexeme.braces_joinLines ends
    rwa [← String.toList_ofList (l := joinLines entry.toList)] at same
  have braces : (tokenize (complete entry)).filter Token.isBrace = (tokenize entry).filter Token.isBrace := by
    rcases complete_cases entry with ⟨same, _⟩ | ⟨same, _⟩
    · rw [same, lines]
    · rw [same, braces_mark, lines]
  have count : ∀ brace : Token, brace.isBrace → (tokenize (complete entry)).count brace = (tokenize entry).count brace := by
    intro brace isBrace
    rw [← List.count_filter isBrace, braces, List.count_filter isBrace]
  exact ⟨braces, by rw [openBraces, openBraces, count _ rfl, count _ rfl]⟩

/-- Lines are joined in code and in a literal, and there are braces in the literal and in
    the comment. -/
theorem braces_complete_literal :
    (tokenize (complete "if (x) \x7b f(\"\x7d\\\n\x7d\", \\\n1); # \x7d")).filter Token.isBrace = [.leftBrace] ∧
      openBraces (complete "if (x) \x7b f(\"\x7d\\\n\x7d\", \\\n1); # \x7d") = 1 := by
  have same := @braces_complete "if (x) \x7b f(\"\x7d\\\n\x7d\", \\\n1); # \x7d" (by decide +kernel)
  rw [same.1, same.2]
  decide +kernel

theorem tokenize_comment {source : String} {line : List Char} (comment : source.toList = '#' :: line)
    (sameLine : '\n' ∉ line) : tokenize source = [] ∧ Lexeme.endsQuoted source.toList = false := by
  have leads : Lexeme.Leads ('#' :: line) [] none := .comment sameLine nofun
  obtain ⟨_, _, same, reach, silent⟩ := leads.read
  obtain ⟨rfl, rfl⟩ := List.cons.inj same
  have alone := leads.split
  rw [List.append_nil] at alone reach
  rw [tokenize, comment, alone, Lexeme.split, List.filterMap_cons_none silent, Lexeme.endsQuoted, reach,
    List.drop_length, Lexeme.endsQuoted]
  exact ⟨rfl, rfl⟩

/-- Typed behind a comment that ends with a backslash, a line has its own tokens, but the
    program text has none of them. -/
theorem tokenize_continued {comment line : String} (oneLine : '\n' ∉ comment.toList) (lastLine : '\n' ∉ line.toList) :
    tokenize ("#" ++ comment ++ "\\" ++ "\n" ++ line) = tokenize line ∧
      tokenize (complete ("#" ++ comment ++ "\\" ++ "\n" ++ line)) = [] := by
  constructor
  · have characters : ("#" ++ comment ++ "\\").toList = '#' :: (comment.toList ++ ['\\']) := by simp
    obtain ⟨silent, closed⟩ := tokenize_comment characters (by simpa using oneLine)
    rw [tokenize_newline closed, silent, List.nil_append]
  · generalize entered : "#" ++ comment ++ "\\" ++ "\n" ++ line = entry
    have characters : entry.toList = '#' :: (comment.toList ++ '\\' :: '\n' :: line.toList) := by simp [← entered]
    have lines : (joined entry).toList = '#' :: (comment.toList ++ ' ' :: line.toList) := by
      rw [joined, String.toList_ofList, characters, joinLines_append oneLine (by simp), joinLines, joinLines_line lastLine]
    obtain ⟨silent, _⟩ := tokenize_comment lines (by simp [oneLine, lastLine])
    rcases complete_cases entry with ⟨same, _⟩ | ⟨_, last, ends, _⟩
    · rw [same, silent]
    · rw [silent] at ends
      cases ends

/-- The block that is open in the program text was closed as it was typed. -/
theorem openBraces_complete_comment :
    openBraces "def f() \x7b # one \\\n1; \x7d" = 0 ∧ openBraces (complete "def f() \x7b # one \\\n1; \x7d") = 1 := by
  decide +kernel

end Entry
end Scriptlet

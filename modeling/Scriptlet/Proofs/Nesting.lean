import Scriptlet.Proofs.Braces

namespace Scriptlet
open Parsing

theorem Quoted.extent_take (text : List Char) (n : Nat) : extent (text.take n) = min n (extent text) := by
  fun_induction extent text generalizing n with
  | case1 => rw [List.take_nil, extent, Nat.min_zero]
  | case2 rest =>
    cases n with
    | zero => rfl
    | succ n => rw [List.take_succ_cons, extent, Nat.min_eq_right (Nat.succ_le_succ n.zero_le)]
  | case3 =>
    cases n with
    | zero => rfl
    | succ n => rw [List.take_succ_cons, List.take_nil, extent, Nat.min_eq_right (Nat.succ_le_succ n.zero_le)]
  | case4 c rest ih =>
    rcases n with _ | _ | n
    · rfl
    · exact (Nat.min_eq_left (Nat.le_add_left 1 _)).symm
    · rw [List.take_succ_cons, List.take_succ_cons, extent, ih]
      exact (Nat.add_min_add_right n (extent rest) 2).symm
  | case5 c rest noQuote noEnd noEscape ih =>
    cases n with
    | zero => rw [List.take_zero, extent, Nat.zero_min]
    | succ n => rw [List.take_succ_cons, extent_plain (ne_backslash noEnd noEscape) noQuote, ih, Nat.add_min_add_right]

namespace Lexeme

theorem extent_take (first : Char) (after : List Char) (n : Nat) :
    extent first (after.take n) = min n (extent first after) := by
  by_cases quote : first = '"'
  · rw [quote, extent_quote, extent_quote, Quoted.extent_take]
  · rw [extent_of_ne_quote quote, extent_of_ne_quote quote, ← List.take_takeWhile, List.length_take]

theorem alone_of_brace {first : Char} {others : List Char} {token : Token} (read : token? (first :: others) = some token)
    (brace : token.isBrace) : Alone first := by
  have notWord : ∀ word, (Token.ofWord word).isBrace = false := by
    intro word
    unfold Token.ofWord
    split <;> rfl
  rw [token?] at read
  split_ifs at read with silent quote digit letter
  · obtain rfl := Option.some.inj read
    cases brace
  · obtain rfl := Option.some.inj read
    cases value : Integer.ofDigits? (first :: others) <;> rw [value] at brace <;> cases brace
  · obtain rfl := Option.some.inj read
    rw [notWord] at brace
    cases brace
  · simp only [Bool.or_eq_true, decide_eq_true_eq, not_or] at silent
    exact ⟨silent.1, quote, by simpa using digit, by simpa using letter⟩

/-- The braces of a beginning of a text are the first ones of the text: no lexeme but the last
    one is cut, and a brace cannot be. -/
theorem braces_take (text : List Char) (n : Nat) : braces (text.take n) <+: braces text := by
  induction text using split.induct generalizing n with
  | case1 => simp
  | case2 first after ih =>
    cases n with
    | zero =>
      rw [List.take_zero, braces_nil]
      exact List.nil_prefix
    | succ n =>
      rw [List.take_succ_cons, braces_cons, braces_cons, extent_take, List.take_take, List.drop_take]
      rcases Nat.lt_or_ge n (extent first after) with cut | whole
      · -- a brace has no further characters that could be cut off
        have noBrace : (token? (first :: after.take n)).toList.filter Token.isBrace = [] := by
          refine List.filter_eq_nil_iff.2 fun token read brace => ?_
          rw [extent_alone (alone_of_brace (Option.mem_toList.1 read) brace)] at cut
          exact Nat.not_lt_zero n cut
        rw [Nat.min_eq_left (Nat.le_of_lt cut), Nat.min_self, noBrace, Nat.sub_self, List.take_zero, List.nil_append, braces_nil]
        exact List.nil_prefix
      · rw [Nat.min_eq_right whole, Nat.min_eq_left whole, List.prefix_append_right_inj]
        exact ih _

end Lexeme

namespace Entry

variable {source : String} {nodes : List Node}

theorem openBraces_of_program (read : program (tokenize source) = .ok nodes) : openBraces source = 0 := by
  rw [openBraces, (nested_of_program read).balanced, Int.sub_self]

theorem openBraces_eq (source : String) :
    openBraces source =
      (Lexeme.braces source.toList).count .leftBrace - (Lexeme.braces source.toList).count .rightBrace := by
  rw [Lexeme.braces, List.count_filter rfl, List.count_filter rfl]
  rfl

theorem openBraces_nonneg (read : program (tokenize source) = .ok nodes) {before after : String}
    (split : source = before ++ after) : 0 ≤ openBraces before := by
  have cut : before.toList = source.toList.take before.toList.length := by rw [split, String.toList_append, List.take_left]
  have first : Lexeme.braces before.toList <+: (tokenize source).filter Token.isBrace := by
    rw [cut]
    exact Lexeme.braces_take source.toList _
  obtain ⟨front, begins, same⟩ := List.prefix_filter_iff.1 first
  have within := (nested_of_program read).beginnings front begins
  rw [openBraces_eq, same, List.count_filter rfl, List.count_filter rfl]
  omega

/-- A program closes all braces that it opens, and no beginning of it closes more than it
    has opened, wherever it breaks off: between lexemes, in a word or a number, or in a
    comment, whose braces do not count. So a program goes on for another line only if a
    backslash ends it. -/
theorem braces_program (parses : parseText source = .source nodes) :
    openBraces source = 0 ∧ (∀ before after, source = before ++ after → 0 ≤ openBraces before) ∧
      (continues source.toList ↔ source.toList.getLast? = some '\\') := by
  rw [parseText, parse_eq_source_iff] at parses
  have balanced := openBraces_of_program parses
  refine ⟨balanced, fun before after split => openBraces_nonneg parses split, ?_⟩
  rw [continues, String.ofList_toList, balanced]
  simp

def branches : String := "def f(x) \x7b # \x7d\n  if (x) \x7b 42; \x7d else \x7b f(x); \x7d\n\x7d"

/-- The program is complete, and it may break off in the comment or in the number. -/
theorem braces_program_branches :
    parseText branches = .source [.functionDef "f" ["x"] [.conditional (.var "x") [.int 42] (some [.call "f" [.var "x"]])]] ∧
      openBraces branches = 0 ∧ 0 ≤ openBraces "def f(x) \x7b # \x7d" ∧
      0 ≤ openBraces "def f(x) \x7b # \x7d\n  if (x) \x7b 4" ∧ continues branches.toList = false := by
  have parses : parseText branches =
      .source [.functionDef "f" ["x"] [.conditional (.var "x") [.int 42] (some [.call "f" [.var "x"]])]] :=
    (parse_eq_source_iff _ _).2 ((program_eq_ok_iff _ _).2
      ⟨.more (.definition "f" ["x"] (.more (.conditional (.ofName "x")
          (.more (.expression (.chain (.unsigned (.parenthesized (.value (.literal (.int 42))))) .done)) .done)
          (.block (.more (.expression (.chain (.unsigned (.call "f" (.some (.ofName "x") .done))) .done)) .done)))
        .done)) .done, by decide +kernel, rfl⟩)
  obtain ⟨balanced, beginnings, goesOn⟩ := braces_program parses
  have comment := beginnings "def f(x) \x7b # \x7d" "\n  if (x) \x7b 42; \x7d else \x7b f(x); \x7d\n\x7d" (by decide +kernel)
  have number := beginnings "def f(x) \x7b # \x7d\n  if (x) \x7b 4" "2; \x7d else \x7b f(x); \x7d\n\x7d" (by decide +kernel)
  have noBackslash : branches.toList.getLast? ≠ some '\\' := by decide +kernel
  exact ⟨parses, balanced, comment, number, by rw [Bool.eq_false_iff, ne_eq, goesOn]; exact noBackslash⟩

end Entry
end Scriptlet

import Scriptlet.CommandLine
import Scriptlet.Proofs.Nesting
import Scriptlet.Proofs.Session

namespace Scriptlet
open Parsing

namespace Entry

/-- A program text that can be typed: it holds no character that has a meaning of its own
    for a reader of lines (a backslash, a carriage return, a backspace), and a newline
    only where a brace is open. -/
structure Typeable (program : String) : Prop where
  parses : ∃ nodes, parseText program = .source nodes
  noBackslash : '\\' ∉ program.toList
  noReturn : '\r' ∉ program.toList
  noBackspace : '\x08' ∉ program.toList
  inside : ∀ before after, program = before ++ "\n" ++ after → 0 < openBraces before

theorem inside_of_positions {program : String} (inside : ∀ n < program.toList.length, program.toList[n]? = some '\n' →
    0 < openBraces (String.ofList (program.toList.take n))) (before after : String)
    (split : program = before ++ "\n" ++ after) : 0 < openBraces before := by
  have text : program.toList = before.toList ++ '\n' :: after.toList := by simp [split]
  have isOpen := inside before.toList.length (by simp [text]) (by simp [text])
  rwa [text, List.take_left, String.ofList_toList] at isOpen

/-- What is typed to enter programs: each of them, and a newline behind it. -/
def typed (programs : List String) : String := String.join (programs.map (· ++ "\n"))

theorem joinLines_of_not_mem {text : List Char} (noBackslash : '\\' ∉ text) : joinLines text = text := by
  induction text with
  | nil => rfl
  | cons c text ih =>
    rw [List.mem_cons, not_or] at noBackslash
    rw [joinLines, ih noBackslash.2]
    rintro _ rfl
    exact absurd rfl noBackslash.1

theorem Typeable.complete {program : String} (typeable : Typeable program) : complete program = program := by
  have joined : joined program = program := by
    rw [Entry.joined, joinLines_of_not_mem typeable.noBackslash, String.ofList_toList]
  obtain ⟨nodes, parses⟩ := typeable.parses
  rw [parseText, parse_eq_source_iff] at parses
  rcases complete_cases program with ⟨same, _⟩ | ⟨_, last, ends, noSemicolon, noBrace⟩
  · rw [same, joined]
  · rw [joined] at ends
    rcases last_of_program parses ends with rfl | rfl <;> contradiction

theorem splitLines_line {line : List Char} (noNewline : '\n' ∉ line) (rest : List Char) :
    splitLines (line ++ '\n' :: rest) = (line ++ ['\n']) :: splitLines rest := by
  induction line with
  | nil => rw [List.nil_append, splitLines, if_pos rfl, List.nil_append]
  | cons c line ih =>
    rw [List.mem_cons, not_or] at noNewline
    rw [List.cons_append, splitLines, if_neg (Ne.symm noNewline.1), ih noNewline.2]
    rfl

theorem withoutLineEnd_newline {text : List Char} (noReturn : '\r' ∉ text) : withoutLineEnd (text ++ ['\n']) = text := by
  unfold withoutLineEnd
  rw [List.reverse_append, List.reverse_singleton, List.singleton_append]
  cases reversed : text.reverse with
  | nil =>
    rw [List.reverse_eq_nil_iff.1 reversed]
    rfl
  | cons c rest =>
    have within : c ∈ text := List.mem_reverse.1 (reversed ▸ List.mem_cons_self)
    have other : c ≠ '\r' := fun same => noReturn (same ▸ within)
    rw [List.reverse_eq_iff.1 reversed]
    split
    · rename_i rest' same
      cases same
      exact absurd rfl other
    · rename_i rest' _ same
      cases same
      rfl
    · rename_i same
      exact absurd rfl (same _)

/-- A further line of a text without carriage returns makes an entry together with the
    lines before it, unless these go on. -/
theorem read_line {lines line : List Char} (noReturn : '\r' ∉ lines ++ line) :
    read (String.ofList lines) (String.ofList (line ++ ['\n'])) =
      if continues (lines ++ line) then .unfinished (String.ofList (lines ++ line ++ ['\n']))
      else .entry (String.ofList (lines ++ line)) := by
  have appended : String.ofList lines ++ String.ofList (line ++ ['\n']) = String.ofList (lines ++ line ++ ['\n']) := by
    rw [← String.ofList_append, List.append_assoc]
  unfold read
  rw [appended, String.toList_ofList, withoutLineEnd_newline noReturn]

theorem continues_of_open {text : List Char} (isOpen : 0 < openBraces (String.ofList text)) : continues text = true := by
  simp [continues, isOpen]

theorem not_continues {text : List Char} (noBackslash : '\\' ∉ text) (closed : openBraces (String.ofList text) = 0) :
    continues text = false := by
  have ends : text.getLast? ≠ some '\\' := fun last => noBackslash (List.mem_of_getLast? last)
  simp [continues, ends, closed]

/-- The rest of the lines of a text that can be typed makes an entry with those that were
    read before. -/
theorem ofLines_typeable {lines remaining : List Char} (typeable : Typeable (String.ofList (lines ++ remaining)))
    (rest : List Char) :
    ofLines (String.ofList lines) ((splitLines (remaining ++ '\n' :: rest)).map String.ofList) =
      String.ofList (lines ++ remaining) :: ofLines "" ((splitLines rest).map String.ofList) := by
  have noBackslash : '\\' ∉ lines ++ remaining := by simpa using typeable.noBackslash
  have noReturn : '\r' ∉ lines ++ remaining := by simpa using typeable.noReturn
  by_cases further : '\n' ∈ remaining
  -- a brace is open behind the first of the lines that remain, and it joins those before it
  · obtain ⟨line, later, rfl, noNewline⟩ := List.eq_append_cons_of_mem further
    have noReturn : '\r' ∉ lines ++ line := by
      rw [← List.append_assoc, List.mem_append, not_or] at noReturn
      exact noReturn.1
    have isOpen : 0 < openBraces (String.ofList (lines ++ line)) := by
      refine typeable.inside _ (String.ofList later) ?_
      simp [String.append_assoc]
    have regrouped : lines ++ (line ++ '\n' :: later) = lines ++ line ++ ['\n'] ++ later := by simp
    rw [regrouped] at typeable ⊢
    rw [List.append_assoc, List.cons_append, splitLines_line noNewline, List.map_cons, ofLines, read_line noReturn,
      if_pos (continues_of_open isOpen)]
    exact ofLines_typeable typeable rest
  -- the last line closes all braces
  · obtain ⟨nodes, parses⟩ := typeable.parses
    rw [parseText, parse_eq_source_iff] at parses
    rw [splitLines_line further, List.map_cons, ofLines, read_line noReturn,
      not_continues noBackslash (openBraces_of_program parses)]
    rfl
termination_by remaining.length

theorem ofInput_typed {programs : List String} (typeable : ∀ program ∈ programs, Typeable program) :
    ofInput (typed programs) = programs := by
  unfold ofInput
  induction programs with
  | nil => rfl
  | cons program programs ih =>
    obtain ⟨first, others⟩ := List.forall_mem_cons.1 typeable
    have text : (typed (program :: programs)).toList = program.toList ++ '\n' :: (typed programs).toList := by
      simp [typed]
    have whole : Typeable (String.ofList ([] ++ program.toList)) := by rwa [List.nil_append, String.ofList_toList]
    have entries := ofLines_typeable whole (typed programs).toList
    rw [List.nil_append, String.ofList_toList, ih others] at entries
    rw [text]
    exact entries

end Entry

namespace Console

def reply (answered : Answered) : Output :=
  printed answered.calls ++
    match answered.answer with
    | .value v => shown v
    | .failure reason => Output.errorLine reason.message

def environmentAfter (depth : Nat) (env : Environment) (entries : List String) : Environment :=
  entries.foldl (fun env entry => (enter depth env entry).2) env

variable {depth : Nat} {env : Environment}

theorem enter_of_answer {entry : String} {answered : Answered}
    (given : Session.answer Host.bare depth env (Entry.complete entry) = some answered) :
    enter depth env entry = (reply answered, answered.environment) := by
  unfold enter
  rw [given]
  obtain ⟨v | reason, after, calls⟩ := answered <;> rfl

theorem enterAll_of_answers {entries : List String} {answered : List Answered}
    (given : Session.answers Host.bare depth env (entries.map Entry.complete) = some answered) :
    enterAll depth env entries = Output.join (answered.map reply) ∧
      environmentAfter depth env entries = (answered.getLast?.map (·.environment)).getD env := by
  induction entries generalizing env answered with
  | nil =>
    obtain rfl := Option.some.inj given
    exact ⟨rfl, rfl⟩
  | cons entry entries ih =>
    obtain ⟨first, others, began, continued, rfl⟩ := Session.answers_cons_eq_some_iff.1 given
    obtain ⟨output, after⟩ := ih continued
    rw [enterAll, enter_of_answer began, environmentAfter, List.foldl_cons, enter_of_answer began]
    refine ⟨?_, ?_⟩
    · exact congrArg (reply first ++ ·) output
    · rw [List.getLast?_cons]
      refine after.trans ?_
      cases others.getLast? <;> rfl

end Console

/-- Programs that are typed one after another are the entries that are read, and
    completion leaves them alone. What is printed are the replies of a session that is
    given the programs, also by the program as a whole between its first and its last
    words, and the environment afterwards is that of the session. -/
theorem Entry.entries_programs {programs : List String} (typeable : ∀ program ∈ programs, Entry.Typeable program) :
    Entry.ofInput (Entry.typed programs) = programs ∧
    (Entry.ofInput (Entry.typed programs)).map Entry.complete = programs ∧
    (∀ depth env answered, Session.answers Host.bare depth env programs = some answered →
      Console.enterAll depth env (Entry.ofInput (Entry.typed programs)) = Output.join (answered.map Console.reply) ∧
      Console.environmentAfter depth env (Entry.ofInput (Entry.typed programs)) =
        (answered.getLast?.map (·.environment)).getD env) ∧
    ∀ depth files arguments isFile prelude answered,
      CommandLine.command arguments = .start ⟨isFile, prelude, none⟩ →
      Session.answers Host.bare depth (Console.environment prelude) programs = some answered →
      CommandLine.run depth files arguments (Entry.typed programs) =
        ⟨0, CommandLine.welcome ++ Output.join (answered.map Console.reply) ++ CommandLine.farewell⟩ := by
  have entries := Entry.ofInput_typed typeable
  have completed : programs.map Entry.complete = programs := by
    refine (List.map_congr_left fun program within => (typeable program within).complete).trans ?_
    exact List.map_id programs
  have replies : ∀ depth env answered, Session.answers Host.bare depth env programs = some answered →
      Console.enterAll depth env programs = Output.join (answered.map Console.reply) ∧
        Console.environmentAfter depth env programs = (answered.getLast?.map (·.environment)).getD env := by
    intro depth env answered given
    rw [← completed] at given
    exact Console.enterAll_of_answers given
  rw [entries]
  refine ⟨rfl, completed, replies, fun depth files arguments isFile prelude answered started given => ?_⟩
  rw [CommandLine.run, started, ← (replies depth _ answered given).1]
  cases isFile <;> simp only [entries]

def Entry.echo : List String := ["def f(x) \x7b # \x7b\n  x;\n\x7d", "f(true);"]

def Environment.echoing : Environment := empty.withFunction "f" (.defined ["x"] [.var "x"])

/-- The first entry goes on until its brace is closed, and the second one prints the value
    of the call. -/
theorem Entry.entries_programs_echo :
    (∀ program ∈ Entry.echo, Entry.Typeable program) ∧
      Entry.ofInput (Entry.typed Entry.echo) = Entry.echo ∧
      (Entry.ofInput (Entry.typed Entry.echo)).map Entry.complete = Entry.echo ∧
      Console.enterAll 1 .empty (Entry.ofInput (Entry.typed Entry.echo)) = Output.line "true" ∧
      Console.environmentAfter 1 .empty (Entry.ofInput (Entry.typed Entry.echo)) = .echoing := by
  have define : program (tokenize "def f(x) \x7b # \x7b\n  x;\n\x7d") = .ok [.functionDef "f" ["x"] [.var "x"]] :=
    (program_eq_ok_iff _ _).2 ⟨.more (.definition "f" ["x"] (.more (.expression (.ofName "x")) .done)) .done,
      by decide +kernel, rfl⟩
  have call : program (tokenize "f(true);") = .ok [.call "f" [.bool true]] :=
    (program_eq_ok_iff _ _).2 ⟨.more (.expression (.chain (.unsigned (.call "f" (.some
      (.chain (.unsigned (.parenthesized (.value (.literal (.bool true))))) .done) .done))) .done)) .done,
      by decide +kernel, rfl⟩
  have typeable : ∀ program ∈ Entry.echo, Entry.Typeable program := by
    refine List.forall_mem_cons.2 ⟨?_, List.forall_mem_cons.2 ⟨?_, nofun⟩⟩
    · exact ⟨⟨_, (parseText_eq_source_iff _ _).2 define⟩, by decide +kernel, by decide +kernel, by decide +kernel,
        Entry.inside_of_positions (by decide +kernel)⟩
    · exact ⟨⟨_, (parseText_eq_source_iff _ _).2 call⟩, by decide +kernel, by decide +kernel, by decide +kernel,
        Entry.inside_of_positions (by decide +kernel)⟩
  obtain ⟨entries, completed, printed, _⟩ := Entry.entries_programs typeable
  have defined : Session.answer .bare 1 .empty "def f(x) \x7b # \x7b\n  x;\n\x7d" = some ⟨.value .null, .echoing, []⟩ :=
    (Session.answer_of_program define).trans rfl
  have called : Session.answer .bare 1 .echoing "f(true);" = some ⟨.value (.bool true), .echoing, []⟩ :=
    (Session.answer_of_program call).trans rfl
  have answered : Session.answers .bare 1 .empty Entry.echo =
      some [⟨.value .null, .echoing, []⟩, ⟨.value (.bool true), .echoing, []⟩] :=
    Session.answers_cons_eq_some_iff.2 ⟨_, _, defined,
      Session.answers_cons_eq_some_iff.2 ⟨_, _, called, rfl, rfl⟩, rfl⟩
  obtain ⟨output, after⟩ := printed 1 .empty _ answered
  exact ⟨typeable, entries, completed, output.trans (by decide +kernel), after⟩

end Scriptlet

import Scriptlet.Console
import Scriptlet.Proofs.Session
import Scriptlet.Proofs.Evaluation.Invariant

namespace Scriptlet
open Parsing

theorem Environment.wellFormed_empty : Environment.empty.WellFormed := ⟨by simp [empty], by simp [empty]⟩

theorem Environment.wellFormed_prelude : Environment.prelude.WellFormed := by
  unfold prelude
  generalize preludeFunctions = functions
  suffices ∀ env : Environment, env.WellFormed → (functions.foldl withBuiltin env).WellFormed from this _ wellFormed_empty
  induction functions with
  | nil => exact fun env wellFormed => wellFormed
  | cons function functions ih => exact fun env wellFormed => ih _ (wellFormed.withBuiltin function)

theorem Console.wellFormed_environment (prelude : Bool) : (Console.environment prelude).WellFormed := by
  refine Environment.WellFormed.withBuiltin ?_ .print
  cases prelude with
  | true => exact Environment.wellFormed_prelude
  | false => exact Environment.wellFormed_empty

theorem begins_append {c : Char} {text : String} (begins : text.toList.head? = some c) (more : String) :
    (text ++ more).toList.head? = some c := by
  rw [String.toList_append, List.head?_append, begins, Option.some_or]

theorem EvalError.message_begins (reason : EvalError) : ∃ c, reason.message.toList.head? = some c ∧ c ≠ 'S' := by
  cases reason with
  | evaluator text node => exact ⟨'E', begins_append (by decide) _, by decide⟩
  | type text => exact ⟨'T', begins_append (by decide) _, by decide⟩
  | undefinedFunction f => exact ⟨'U', begins_append (begins_append (by decide) _) _, by decide⟩
  | argumentCount f expected actual =>
    have quoted := begins_append (begins_append (by decide : "Function '".toList.head? = some 'F') f)
    exact ⟨'F', begins_append (begins_append (begins_append (begins_append (quoted _) _) _) _) _, by decide⟩
  | rejected f text => exact ⟨'F', begins_append (begins_append (begins_append (by decide) _) _) _, by decide⟩

theorem EvalError.message_ne (reason : EvalError) (message : String) : reason.message ≠ "Syntax error: " ++ message := by
  intro same
  obtain ⟨c, begins, other⟩ := reason.message_begins
  rw [same, begins_append (by decide : "Syntax error: ".toList.head? = some 'S')] at begins
  exact other (Option.some.inj begins).symm

theorem Failure.message_eq_iff (failure : Failure) (message : String) :
    failure.message = "Syntax error: " ++ message ↔ ∃ reason, failure = .syntaxError reason ∧ reason.message = message := by
  cases failure with
  | syntaxError reason =>
    change "Syntax error: " ++ reason.message = _ ↔ _
    simp
  | evaluation reason =>
    change reason.message = _ ↔ _
    simp [reason.message_ne message]

namespace Session
variable {host : Host} {depth : Nat} {env : Environment} {source : String}

theorem run_of_error {reason : SyntaxError} (read : program (tokenize source) = .error reason) :
    run host depth source env = some ⟨.error (.cannotEvaluate (.syntaxError reason.message)), env, []⟩ := by
  unfold run parseText parse
  rw [read]
  rfl

theorem run_of_program {nodes : List Node} (read : program (tokenize source) = .ok nodes) :
    run host depth source env = evaluate host depth (.source nodes) env := by
  unfold run parseText parse
  rw [read]

/-- A text has a syntax error, of which a session and a run tell each in its own way, or
    they come to the same, and that is in order. -/
theorem answer_cases (wellFormed : env.WellFormed) (host : Host) (depth : Nat) (source : String) :
    (∃ reason, answer host depth env source = some ⟨.failure (.syntaxError reason), env, []⟩ ∧
      run host depth source env = some ⟨.error (.cannotEvaluate (.syntaxError reason.message)), env, []⟩) ∨
    (answer host depth env source = (run host depth source env).map answerOf ∧
      ∀ ended, run host depth source env = some ended → Sound (fun _ => True) ended) := by
  rcases read : program (tokenize source) with reason | nodes
  · exact .inl ⟨reason, answer_of_error read, run_of_error read⟩
  · rw [answer_of_program read, run_of_program read, evaluate, evaluateNode]
    exact .inr ⟨rfl, fun ended => evaluateBlock_keeps host depth (wellFormed_of_program read) .null env ended wellFormed⟩

theorem wellFormed_of_answer (wellFormed : env.WellFormed) {answered : Answered}
    (given : answer host depth env source = some answered) : answered.environment.WellFormed := by
  rcases answer_cases wellFormed host depth source with ⟨reason, failed, _⟩ | ⟨same, sound⟩
  · rw [failed] at given
    cases given
    exact wellFormed
  · rw [same] at given
    obtain ⟨ended, ran, rfl⟩ := Option.map_eq_some_iff.1 given
    exact (sound ended ran).environment

def Reports (host : Host) (depth : Nat) (env : Environment) (source message : String) : Prop :=
  ∃ failure after calls, answer host depth env source = some ⟨.failure failure, after, calls⟩ ∧
    failure.message = "Syntax error: " ++ message

/-- The text, run on its own, ends with the error of a node that stands for a syntax
    error. -/
def RunsInto (host : Host) (depth : Nat) (env : Environment) (source message : String) : Prop :=
  ∃ text after calls, run host depth source env =
    some ⟨.error (.evaluator text (some (.syntaxError message))), after, calls⟩

theorem not_runsInto (sound : ∀ ended, run host depth source env = some ended → Sound (fun _ => True) ended)
    (message : String) : ¬ RunsInto host depth env source message := by
  rintro ⟨text, after, calls, ran⟩
  cases sound _ ran with
  | error _ plain => cases plain

theorem answer_ne_carrying (wellFormed : env.WellFormed) (text : String) (node : Node) (after : Environment)
    (calls : List HostCall) :
    answer host depth env source ≠ some ⟨.failure (.evaluation (.evaluator text (some node))), after, calls⟩ := by
  intro given
  rcases answer_cases wellFormed host depth source with ⟨reason, failed, _⟩ | ⟨same, sound⟩
  · rw [failed] at given
    cases given
  · rw [same] at given
    obtain ⟨ended, ran, same⟩ := Option.map_eq_some_iff.1 given
    cases sound ended ran with
    | value => cases same
    | error _ plain =>
      cases same
      cases plain

/-- The report of a syntax error and the error of its node come together. -/
theorem reports_iff_runsInto (wellFormed : env.WellFormed) (message : String) :
    Reports host depth env source message ↔ RunsInto host depth env source message := by
  rcases answer_cases wellFormed host depth source with ⟨reason, failed, ran⟩ | ⟨same, sound⟩
  · constructor
    · rintro ⟨failure, after, calls, given, reported⟩
      rw [failed] at given
      cases given
      obtain ⟨_, ⟨⟩, rfl⟩ := (Failure.message_eq_iff _ _).1 reported
      exact ⟨_, env, [], ran⟩
    · rintro ⟨text, after, calls, into⟩
      rw [ran] at into
      cases into
      exact ⟨.syntaxError reason, env, [], failed, rfl⟩
  · refine ⟨?_, fun into => absurd into (not_runsInto sound message)⟩
    rintro ⟨failure, after, calls, given, reported⟩
    obtain ⟨reason, rfl, _⟩ := (Failure.message_eq_iff _ _).1 reported
    rw [same] at given
    obtain ⟨⟨v | reason, environment, made⟩, _, same⟩ := Option.map_eq_some_iff.1 given <;> cases same

theorem environment_of_runsInto (wellFormed : env.WellFormed) {message : String}
    (into : RunsInto host depth env source message) :
    (answer host depth env source).map (·.environment) = some env ∧
      (run host depth source env).map (·.environment) = some env := by
  rcases answer_cases wellFormed host depth source with ⟨reason, failed, ran⟩ | ⟨_, sound⟩
  · rw [failed, ran]
    exact ⟨rfl, rfl⟩
  · exact absurd into (not_runsInto sound message)

/-- Where a run ends without a syntax error, the session answers what it ends with. -/
theorem answer_of_run (wellFormed : env.WellFormed) (none : ∀ message, ¬ RunsInto host depth env source message) :
    answer host depth env source = (run host depth source env).map answerOf := by
  rcases answer_cases wellFormed host depth source with ⟨reason, _, ran⟩ | ⟨same, _⟩
  · exact absurd ⟨_, env, [], ran⟩ (none reason.message)
  · exact same

theorem wellFormed_of_answers {sources : List String} {given : List Answered} (wellFormed : env.WellFormed)
    (answered : answers host depth env sources = some given) : ∀ each ∈ given, each.environment.WellFormed := by
  induction sources generalizing env given with
  | nil =>
    obtain rfl := Option.some.inj answered
    exact List.forall_mem_nil _
  | cons source sources ih =>
    obtain ⟨first, others, began, continued, rfl⟩ := answers_cons_eq_some_iff.1 answered
    have after := wellFormed_of_answer wellFormed began
    exact List.forall_mem_cons.2 ⟨after, ih after continued⟩

/-- Every environment that a session comes to is well formed, whatever texts it was given
    and whether they failed. In such an environment no answer is an error that carries a
    node, and a text is answered with the report of a syntax error exactly if it runs
    into the node of one. Then it leaves the environment alone both ways, and otherwise
    the answer is what the run ends with. -/
theorem answers_reachable (host : Host) (depth : Nat) {start : Environment}
    (begins : start = .prelude ∨ ∃ prelude, start = Console.environment prelude) {sources : List String}
    {given : List Answered} (answered : answers host depth start sources = some given) :
    ∀ env ∈ start :: given.map (·.environment), env.WellFormed ∧ ∀ depth source,
      (∀ text node after calls, answer host depth env source ≠
        some ⟨.failure (.evaluation (.evaluator text (some node))), after, calls⟩) ∧
      (∀ message, Reports host depth env source message ↔ RunsInto host depth env source message) ∧
      (∀ message, RunsInto host depth env source message →
        (answer host depth env source).map (·.environment) = some env ∧
        (run host depth source env).map (·.environment) = some env) ∧
      ((∀ message, ¬ RunsInto host depth env source message) →
        answer host depth env source = (run host depth source env).map answerOf) := by
  have atStart : start.WellFormed := by
    rcases begins with rfl | ⟨prelude, rfl⟩
    · exact Environment.wellFormed_prelude
    · exact Console.wellFormed_environment prelude
  intro env reached
  have wellFormed : env.WellFormed := by
    rcases List.mem_cons.1 reached with rfl | later
    · exact atStart
    · obtain ⟨each, within, rfl⟩ := List.mem_map.1 later
      exact wellFormed_of_answers atStart answered each within
  exact ⟨wellFormed, fun depth source => ⟨answer_ne_carrying wellFormed, reports_iff_runsInto wellFormed,
    fun _ => environment_of_runsInto wellFormed, answer_of_run wellFormed⟩⟩

def halfway : Environment := (Console.environment false).withVariable "a" (.value (.bool true))

/-- A text that fails half way and one that does not parse: what the first one has bound
    is there for the second one, which leaves it alone. -/
theorem answers_reachable_halfway :
    answers .bare 0 (Console.environment false) ["a = true; f();", "\x7d"] =
        some [⟨.failure (.evaluation (.undefinedFunction "f")), halfway, []⟩,
          ⟨.failure (.syntaxError ⟨.rightBrace, none⟩), halfway, []⟩] ∧
      halfway.WellFormed ∧ RunsInto .bare 0 halfway "\x7d" "Unexpected tokens `RBrace`, `end of input`" := by
  have first : program (tokenize "a = true; f();") = .ok [.assignment "a" (.bool true), .call "f" []] :=
    (program_eq_ok_iff _ _).2 ⟨.more
      (.assignment "a" (.chain (.unsigned (.parenthesized (.value (.literal (.bool true))))) .done))
      (.more (.expression (.chain (.unsigned (.call "f" .none)) .done)) .done), by decide +kernel, rfl⟩
  have second : program (tokenize "\x7d") = .error ⟨.rightBrace, none⟩ := by
    have brace : tokenize "\x7d" = [.rightBrace] := by decide +kernel
    rw [brace]
    exact program_of_none (Grammar.plain_statement_eq_none (by decide) (by decide) (by decide) [])
  have failed : answer .bare 0 (Console.environment false) "a = true; f();" =
      some ⟨.failure (.evaluation (.undefinedFunction "f")), halfway, []⟩ := (answer_of_program first).trans rfl
  have unread : answer .bare 0 halfway "\x7d" = some ⟨.failure (.syntaxError ⟨.rightBrace, none⟩), halfway, []⟩ :=
    answer_of_error second
  have answered : answers .bare 0 (Console.environment false) ["a = true; f();", "\x7d"] = some [_, _] :=
    answers_cons_eq_some_iff.2 ⟨_, _, failed, answers_cons_eq_some_iff.2 ⟨_, [], unread, rfl, rfl⟩, rfl⟩
  obtain ⟨wellFormed, alike⟩ := answers_reachable .bare 0 (.inr ⟨false, rfl⟩) answered halfway (by simp)
  obtain ⟨_, reported, _⟩ := alike 0 "\x7d"
  exact ⟨answered, wellFormed, (reported _).1 ⟨_, halfway, [], unread, by decide +kernel⟩⟩

end Session

end Scriptlet

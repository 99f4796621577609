import Scriptlet.Session
import Scriptlet.Proofs.Concatenation
import Scriptlet.Proofs.Evaluation.Ending

/-!
Program texts that are answered one after another, up to the first failure, are answered
like a single text that has them as its lines (`answer_lines`). Every layer keeps the
lines apart: a newline separates their tokens (`tokenize_newline`), their statements
follow one another (`program_append`), and their evaluations do (`evaluateBlock_append`).
-/
namespace Scriptlet
open Parsing Evaluation

namespace Session

/-- The answers to several texts in order, up to and including the first failure. -/
def untilFailure (host : Host) (depth : Nat) (env : Environment) : List String → Option (List Answered)
  | [] => some []
  | source :: sources => do
    let answered ← answer host depth env source
    match answered.answer with
    | .failure _ => return [answered]
    | .value _ => return answered :: (← untilFailure host depth answered.environment sources)

variable {host : Host} {depth : Nat} {env : Environment}

theorem answers_cons_eq_some_iff {source : String} {sources : List String} {given : List Answered} :
    answers host depth env (source :: sources) = some given ↔
      ∃ first others, answer host depth env source = some first ∧
        answers host depth first.environment sources = some others ∧ first :: others = given := by
  simp only [answers, Option.bind_eq_bind, Option.bind_eq_some_iff, Option.pure_def, Option.some.injEq]
  constructor
  · rintro ⟨first, began, others, continued, same⟩
    exact ⟨first, others, began, continued, same⟩
  · rintro ⟨first, others, began, continued, same⟩
    exact ⟨first, began, others, continued, same⟩

theorem untilFailure_none {source : String} {sources : List String} (deep : answer host depth env source = none) :
    untilFailure host depth env (source :: sources) = none := by
  rw [untilFailure, deep]
  rfl

theorem untilFailure_failure {source : String} {sources : List String} {answered : Answered} {reason : Failure}
    (given : answer host depth env source = some answered) (failed : answered.answer = .failure reason) :
    untilFailure host depth env (source :: sources) = some [answered] := by
  rw [untilFailure, given]
  simp [failed]

theorem untilFailure_value {source : String} {sources : List String} {v : Value} {after : Environment}
    {calls : List HostCall} (given : answer host depth env source = some ⟨.value v, after, calls⟩) :
    untilFailure host depth env (source :: sources) =
      (untilFailure host depth after sources).map (⟨.value v, after, calls⟩ :: ·) := by
  rw [untilFailure, given]
  simp only [Option.bind_eq_bind, Option.bind_some]
  cases untilFailure host depth after sources <;> rfl

def answerOf (ended : Evaluated Value) : Answered := ⟨.ofOutcome ended.outcome, ended.environment, ended.calls⟩

theorem answer_of_program {source : String} {nodes : List Node} (read : program (tokenize source) = .ok nodes) :
    answer host depth env source = (evaluate host depth (.source nodes) env).map answerOf := by
  unfold answer
  rw [read]
  rfl

theorem answer_of_error {source : String} {reason : SyntaxError} (read : program (tokenize source) = .error reason) :
    answer host depth env source = some ⟨.failure (.syntaxError reason), env, []⟩ := by
  unfold answer
  rw [read]

theorem answer_unique {source : String} {depth' : Nat} {one other : Answered}
    (given : answer host depth env source = some one) (given' : answer host depth' env source = some other) :
    one = other := by
  rcases read : program (tokenize source) with reason | nodes
  · rw [answer_of_error read] at given given'
    exact Option.some.inj (given.symm.trans given')
  · rw [answer_of_program read] at given given'
    obtain ⟨ended, ran, rfl⟩ := Option.map_eq_some_iff.1 given
    obtain ⟨ended', ran', rfl⟩ := Option.map_eq_some_iff.1 given'
    rw [Evaluates.unique ⟨depth, ran⟩ ⟨depth', ran'⟩]

/-- One answer stands for the answers to all lines: it has their host calls, the
    environment and, if there is one, the failure of the last one, and otherwise the value
    of the last line with a statement in it, or `last` if there is no such line. -/
structure Summarizes (last : Value) (env : Environment) (lines : List String) (answered : List Answered)
    (whole : Answered) : Prop where
  environment : whole.environment = (answered.getLast?.map (·.environment)).getD env
  calls : whole.calls = answered.flatMap (·.calls)
  failure : ∀ final ∈ answered.getLast?, ∀ reason, final.answer = .failure reason → whole.answer = .failure reason
  value : (∀ each ∈ answered, ∀ reason, each.answer ≠ .failure reason) → answered.length = lines.length ∧
    whole.answer =
      (((lines.zip answered).filter (parseText ·.1 ≠ .source [])).getLast?.map (·.2.answer)).getD (.value last)

theorem Summarizes.nil (last : Value) : Summarizes last env [] [] ⟨.value last, env, []⟩ where
  environment := rfl
  calls := rfl
  failure := by
    intro final within
    cases within
  value _ := ⟨rfl, rfl⟩

theorem Summarizes.failed (last : Value) (line : String) (lines : List String) {answered : Answered} {reason : Failure}
    (failed : answered.answer = .failure reason) : Summarizes last env (line :: lines) [answered] answered where
  environment := rfl
  calls := (List.append_nil _).symm
  failure := by
    rintro final ⟨⟩ reason given
    exact given
  value none := absurd failed (none answered List.mem_cons_self reason)

theorem Summarizes.cons {last v : Value} {after : Environment} {calls : List HostCall} {line : String}
    {lines : List String} {answered : List Answered} {whole : Answered}
    (summarizes : Summarizes (if parseText line = .source [] then last else v) after lines answered whole) :
    Summarizes last env (line :: lines) (⟨.value v, after, calls⟩ :: answered)
      { whole with calls := calls ++ whole.calls } where
  environment := by
    rw [List.getLast?_cons, summarizes.environment]
    cases answered.getLast? <;> rfl
  calls := by rw [List.flatMap_cons, ← summarizes.calls]
  failure := by
    rw [List.getLast?_cons]
    cases found : answered.getLast? with
    | none =>
      rintro final ⟨⟩ reason ⟨⟩
    | some l =>
      rintro final ⟨⟩ reason given
      exact summarizes.failure l found reason given
  value none := by
    obtain ⟨length, answer⟩ := summarizes.value fun each within => none each (List.mem_cons_of_mem _ within)
    refine ⟨by rw [List.length_cons, List.length_cons, length], ?_⟩
    rw [List.zip_cons_cons, answer]
    by_cases empty : parseText line = .source []
    · rw [if_pos empty, List.filter_cons_of_neg (by simpa using empty)]
    · rw [if_neg empty, List.filter_cons_of_pos (by simpa using empty), List.getLast?_cons, Option.map_some,
        Option.getD_some]
      cases ((lines.zip answered).filter _).getLast? with
      | none => rfl
      | some l => rfl

theorem evaluateBlock_last {call : Caller} {nodes : List Node} (nonempty : nodes ≠ []) (last : Value) :
    evaluateBlock host call last nodes = evaluateBlock host call .null nodes := by
  obtain ⟨node, nodes, rfl⟩ := List.exists_cons_of_ne_nil nonempty
  rfl

/-- Evaluating the statements of all lines in one block amounts to answering the lines. -/
theorem untilFailure_summarized {lines : List String}
    (parses : ∀ line ∈ lines, ∃ nodes, parseText line = .source nodes) (last : Value) (env : Environment) :
    (untilFailure host depth env lines = none ∧
      evaluateBlock host (callDefined host depth) last (lines.flatMap statementsOf) env = none) ∨
    ∃ answered ended, untilFailure host depth env lines = some answered ∧
      evaluateBlock host (callDefined host depth) last (lines.flatMap statementsOf) env = some ended ∧
      Summarizes last env lines answered (answerOf ended) := by
  induction lines generalizing last env with
  | nil => exact .inr ⟨[], _, rfl, rfl, .nil last⟩
  | cons line lines ih =>
    obtain ⟨first, others⟩ := List.forall_mem_cons.1 parses
    have given : answer host depth env line = _ := answer_of_program (program_statementsOf first)
    rw [evaluate, evaluateNode] at given
    rw [List.flatMap_cons, evaluateBlock_append]
    -- only a line without statements hands on the value of the line before it
    by_cases empty : statementsOf line = []
    · have blank := (statementsOf_eq_nil_iff first).1 empty
      have given : answer host depth env line = some ⟨.value .null, env, []⟩ := by rw [given, empty]; rfl
      rw [untilFailure_value given, empty, evaluateBlock, pure_bind]
      rcases ih others last env with ⟨deep, deep'⟩ | ⟨answered, ended, ran, ran', summarizes⟩
      · exact .inl ⟨by rw [deep]; rfl, deep'⟩
      · have unchanged : (if parseText line = .source [] then last else .null) = last := if_pos blank
        rw [← unchanged] at summarizes
        exact .inr ⟨_, ended, by rw [ran]; rfl, ran', .cons summarizes⟩
    · have blank := mt (statementsOf_eq_nil_iff first).2 empty
      rw [evaluateBlock_last empty]
      rcases ran : evaluateBlock host (callDefined host depth) .null (statementsOf line) env with
        _ | ⟨v | reason, after, calls⟩
      · rw [ran] at given
        exact .inl ⟨untilFailure_none given, bind_none ran⟩
      · rw [ran] at given
        rw [untilFailure_value given, bind_value ran]
        rcases ih others v after with ⟨deep, deep'⟩ | ⟨answered, ended, ran, ran', summarizes⟩
        · exact .inl ⟨by rw [deep]; rfl, by rw [deep']; rfl⟩
        · have changed : (if parseText line = .source [] then last else v) = v := if_neg blank
          rw [← changed] at summarizes
          exact .inr ⟨_, _, by rw [ran]; rfl, by rw [ran']; rfl, .cons summarizes⟩
      · rw [ran] at given
        exact .inr ⟨_, _, untilFailure_failure given rfl, bind_error ran, .failed last line lines rfl⟩

/-- Texts that parse, answered one after another up to the first failure, are answered
    like the single text that has them as its lines: it ends if they all do, makes the
    same host calls and leaves the same environment. If one of them fails, it fails for
    the same reason, and otherwise it has the value of the last of them that has a
    statement, or null. -/
theorem answer_lines (host : Host) (env : Environment) {lines : List String}
    (parses : ∀ line ∈ lines, ∃ nodes, parseText line = .source nodes) :
    (∀ depth, untilFailure host depth env lines = none ↔ answer host depth env ("\n".intercalate lines) = none) ∧
    ∀ depth depth' answered whole, untilFailure host depth env lines = some answered →
      answer host depth' env ("\n".intercalate lines) = some whole →
      whole.environment = (answered.getLast?.map (·.environment)).getD env ∧
      whole.calls = answered.flatMap (·.calls) ∧
      (∀ final ∈ answered.getLast?, ∀ reason, final.answer = .failure reason → whole.answer = .failure reason) ∧
      ((∀ each ∈ answered, ∀ reason, each.answer ≠ .failure reason) → answered.length = lines.length ∧
        whole.answer =
          (((lines.zip answered).filter (parseText ·.1 ≠ .source [])).getLast?.map (·.2.answer)).getD
            (.value .null)) := by
  have given : ∀ depth, answer host depth env _ = _ := fun depth => answer_of_program (program_lines parses)
  constructor
  · intro depth
    rw [given, evaluate, evaluateNode]
    rcases untilFailure_summarized parses .null env with ⟨deep, deep'⟩ | ⟨answered, ended, ran, ran', _⟩
    · rw [deep, deep']
      exact ⟨fun _ => rfl, fun _ => rfl⟩
    · rw [ran, ran']
      exact ⟨nofun, nofun⟩
  · intro depth depth' answered whole ran answer
    rcases untilFailure_summarized parses .null env with ⟨deep, _⟩ | ⟨answered', ended, again, ran', summarizes⟩
    · rw [deep] at ran
      cases ran
    · have same : answered' = answered := Option.some.inj (again.symm.trans ran)
      have joined := given depth
      rw [evaluate, evaluateNode, ran'] at joined
      rw [same, answer_unique joined answer] at summarizes
      exact ⟨summarizes.environment, summarizes.calls, summarizes.failure, summarizes.value⟩

def namedElse : Environment := Environment.empty.withVariable "else" (.value (.bool true))

/-- A line that ends in a comment, the name "else" where a second branch could stand, and
    a last line without a statement: the lines stay apart, and together they have the
    value of the second one. -/
theorem answer_lines_else :
    untilFailure .bare 0 namedElse ["if (null) \x7b\x7d # no", "else;", "# done"] =
        some [⟨.value .null, namedElse, []⟩, ⟨.value (.bool true), namedElse, []⟩, ⟨.value .null, namedElse, []⟩] ∧
      answer .bare 0 namedElse ("\n".intercalate ["if (null) \x7b\x7d # no", "else;", "# done"]) =
        some ⟨.value (.bool true), namedElse, []⟩ := by
  have test : program (tokenize "if (null) \x7b\x7d # no") = .ok [.conditional .null [] none] :=
    (program_eq_ok_iff _ _).2 ⟨.more (.conditional (.chain (.unsigned (.parenthesized (.value (.literal .null)))) .done)
      .done .none) .done, by decide +kernel, rfl⟩
  have look : program (tokenize "else;") = .ok [.var "else"] :=
    (program_eq_ok_iff _ _).2 ⟨.more (.expression (.ofName "else")) .done, by decide +kernel, rfl⟩
  have blank : program (tokenize "# done") = .ok [] :=
    (program_eq_ok_iff _ _).2 ⟨.done, by decide +kernel, rfl⟩
  have parses : ∀ line ∈ ["if (null) \x7b\x7d # no", "else;", "# done"], ∃ nodes, parseText line = .source nodes := by
    simp [parseText_eq_source_iff, test, look, blank]
  have answered : untilFailure .bare 0 namedElse ["if (null) \x7b\x7d # no", "else;", "# done"] =
      some [⟨.value .null, namedElse, []⟩, ⟨.value (.bool true), namedElse, []⟩, ⟨.value .null, namedElse, []⟩] := by
    rw [untilFailure_value ((answer_of_program test).trans rfl), untilFailure_value ((answer_of_program look).trans rfl),
      untilFailure_value ((answer_of_program blank).trans rfl)]
    rfl
  obtain ⟨ends, summarized⟩ := answer_lines .bare namedElse parses
  refine ⟨answered, ?_⟩
  cases given : answer .bare 0 namedElse ("\n".intercalate ["if (null) \x7b\x7d # no", "else;", "# done"]) with
  | none =>
    rw [(ends 0).2 given] at answered
    cases answered
  | some whole =>
    obtain ⟨environment, calls, _, value⟩ := summarized 0 0 _ whole answered given
    obtain ⟨_, value⟩ := value (by simp)
    obtain ⟨answer, after, made⟩ := whole
    rw [Option.some.injEq, Answered.mk.injEq]
    exact ⟨by simpa [parseText_eq_source_iff, test, look, blank] using value, environment, calls⟩

end Session

end Scriptlet

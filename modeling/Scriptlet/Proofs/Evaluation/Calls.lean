import Scriptlet.Proofs.Evaluation.Ending

namespace Scriptlet
open Evaluation

/-- The nodes are evaluated one after another, each in the environment that the one
    before it left, and these are their outcomes, the last environment and all the host
    calls. -/
inductive EvaluatesEach (host : Host) :
    List Node → Environment → List (Outcome Value) → Environment → List HostCall → Prop
  | nil {env} : EvaluatesEach host [] env [] env []
  | cons {node nodes env outcome middle calls outcomes after later}
    (first : Evaluates host node env ⟨outcome, middle, calls⟩)
    (others : EvaluatesEach host nodes middle outcomes after later) :
    EvaluatesEach host (node :: nodes) env (outcome :: outcomes) after (calls ++ later)

section Each
variable {host : Host} {depth deeper : Nat} {nodes : List Node} {env after : Environment} {calls : List HostCall}

theorem EvaluatesEach.length {outcomes : List (Outcome Value)}
    (each : EvaluatesEach host nodes env outcomes after calls) : outcomes.length = nodes.length := by
  induction each with
  | nil => rfl
  | cons _ _ ih => rw [List.length_cons, List.length_cons, ih]

theorem evaluateAll_mono (le : depth ≤ deeper) {ended : Evaluated (List Value)}
    (answered : evaluateAll host (callDefined host depth) nodes env = some ended) :
    evaluateAll host (callDefined host deeper) nodes env = some ended :=
  (extends_kept host (callDefined_mono host le) _).all nodes (fun _ => id) env ended answered

theorem evaluateAll_cons {call : Caller} {node : Node} {v : Value} {values : List Value} {middle : Environment}
    {later : List HostCall} (first : evaluateNode host call node env = some ⟨.value v, middle, calls⟩)
    (others : evaluateAll host call nodes middle = some ⟨.value values, after, later⟩) :
    evaluateAll host call (node :: nodes) env = some ⟨.value (v :: values), after, calls ++ later⟩ := by
  have finished : (do return v :: (← evaluateAll host call nodes)) middle = some ⟨.value (v :: values), after, later⟩ := by
    rw [bind_value others]
    simp [pure, Evaluation.pure]
  rw [evaluateAll, bind_value first, finished]
  rfl

theorem EvaluatesEach.of_evaluateAll {values : List Value}
    (ran : evaluateAll host (callDefined host depth) nodes env = some ⟨.value values, after, calls⟩) :
    EvaluatesEach host nodes env (values.map .value) after calls := by
  induction nodes generalizing env values calls with
  | nil =>
    rw [evaluateAll] at ran
    cases ran
    exact .nil
  | cons node nodes ih =>
    rw [evaluateAll] at ran
    rcases bind_eq_some ran with ⟨reason, _, _, _, failed⟩ | ⟨v, middle, made, later, began, continued, same⟩
    · cases failed
    · rcases bind_eq_some continued with ⟨reason, _, _, _, rfl⟩ | ⟨vs, last, more, final, others, finished, rfl⟩
      · cases same
      · cases finished
        cases same
        rw [List.append_nil, List.map_cons]
        exact .cons ⟨depth, began⟩ (ih others)

theorem EvaluatesEach.exists_evaluateAll {values : List Value}
    (each : EvaluatesEach host nodes env (values.map .value) after calls) :
    ∃ depth, evaluateAll host (callDefined host depth) nodes env = some ⟨.value values, after, calls⟩ := by
  generalize named : values.map Outcome.value = outcomes at each
  induction each generalizing values with
  | nil =>
    obtain rfl := List.map_eq_nil_iff.1 named
    exact ⟨0, rfl⟩
  | @cons node nodes env outcome middle calls outcomes after later first others ih =>
    obtain ⟨v, vs, rfl, rfl, same⟩ := List.map_eq_cons_iff.1 named
    obtain ⟨depth, ran⟩ := first
    obtain ⟨further, continued⟩ := ih same
    refine ⟨max depth further, ?_⟩
    have ran := evaluate_mono (Nat.le_max_left depth further) ran
    have continued := evaluateAll_mono (Nat.le_max_right depth further) continued
    exact evaluateAll_cons ran continued

end Each

def Value.literal : Value → Node
  | .int i => .int i
  | .bool b => .bool b
  | .null => .null

theorem evaluateNode_literal (host : Host) (call : Caller) (v : Value) :
    evaluateNode host call v.literal = Evaluation.pure v := by
  cases v <;> rfl

def bindings (names : List String) (values : List Value) : List Node :=
  List.zipWith (fun x v => .assignment x v.literal) names values

/-- The assignments bind what a frame binds, also where a name is repeated. -/
theorem evaluateBlock_bindings (host : Host) (call : Caller) (names : List String) (values : List Value)
    (env : Environment) :
    evaluateBlock host call .null (bindings names values) env = some ⟨.value .null, (names.zip (values.map .value)).foldl
      (fun frame binding => frame.withVariable binding.1 binding.2) env, []⟩ := by
  induction names generalizing values env with
  | nil => rfl
  | cons x names ih =>
    cases values with
    | nil => rfl
    | cons v values =>
      have bound : evaluateNode host call (.assignment x v.literal) env =
          some ⟨.value .null, env.withVariable x (.value v), []⟩ := by
        rw [evaluateNode, evaluateNode_literal, value_bind]
        rfl
      rw [bindings, List.zipWith_cons_cons, evaluateBlock, bind_quiet bound]
      exact ih values (env.withVariable x (.value v))

theorem evaluate_bindings (host : Host) (depth : Nat) (parameters : List String) (values : List Value)
    (body : List Node) (env : Environment) :
    evaluate host depth (.source (bindings parameters values ++ body)) ⟨∅, env.functions⟩ =
      evaluate host depth (.source body) (env.callFrame (parameters.zip (values.map .value))) := by
  have assigned := evaluateBlock_bindings host (callDefined host depth) parameters values ⟨∅, env.functions⟩
  rw [evaluate, evaluate, evaluateNode, evaluateNode, evaluateBlock_append, bind_quiet assigned, ← Environment.callFrame]

section Call
variable {host : Host} {depth : Nat} {env after : Environment} {f : String} {parameters : List String}
  {body arguments : List Node} {values : List Value} {calls : List HostCall}

/-- When the arguments have values, the function is called that was found before them. -/
theorem evaluate_call_defined
    (found : callee f arguments.length env = some ⟨.value (.defined parameters body), env, []⟩)
    (ran : evaluateAll host (callDefined host depth) arguments env = some ⟨.value values, after, calls⟩) :
    evaluate host depth (.call f arguments) env =
      (callDefined host depth parameters body values after).map fun ended =>
        ⟨ended.outcome, ended.environment, calls ++ ended.calls⟩ := by
  rw [evaluate, evaluateNode_call, bind_quiet found, bind_value ran]
  rfl

theorem evaluates_call_body_iff
    (found : callee f arguments.length env = some ⟨.value (.defined parameters body), env, []⟩)
    (each : EvaluatesEach host arguments env (values.map .value) after calls) (ended : Evaluated Value) :
    Evaluates host (.call f arguments) env ended ↔
      ∃ inner, Evaluates host (.source body) (after.callFrame (parameters.zip (values.map .value))) inner ∧
        ended = ⟨inner.outcome, after, calls ++ inner.calls⟩ := by
  obtain ⟨depth, ran⟩ := each.exists_evaluateAll
  constructor
  · rintro ⟨further, called⟩
    -- one level more, so that there is one for the body
    have ran := evaluateAll_mono (Nat.le_succ_of_le (Nat.le_max_left depth further)) ran
    have called := evaluate_mono (Nat.le_succ_of_le (Nat.le_max_right depth further)) called
    rw [evaluate_call_defined found ran, callDefined_succ, Option.map_map] at called
    obtain ⟨inner, entered, rfl⟩ := Option.map_eq_some_iff.1 called
    exact ⟨inner, ⟨_, entered⟩, rfl⟩
  · rintro ⟨inner, ⟨further, entered⟩, rfl⟩
    refine ⟨max depth further + 1, ?_⟩
    have ran := evaluateAll_mono (Nat.le_succ_of_le (Nat.le_max_left depth further)) ran
    have entered := evaluate_mono (Nat.le_max_right depth further) entered
    rw [evaluate_call_defined found ran, callDefined_succ, entered]
    rfl

/-- A call of a defined function whose arguments have values ends exactly if the program
    ends that assigns the values to the parameters in order and goes on with the body,
    where no other variables are bound and the functions are those in force behind the
    arguments. The call has the value or the error of the program, and leaves the
    environment that the arguments left; the host calls of the program come after those
    of the arguments. -/
theorem evaluates_call_iff (bound : env.functions[f]? = some (.defined parameters body))
    (accepted : arguments.length = parameters.length)
    (each : EvaluatesEach host arguments env (values.map .value) after calls) (ended : Evaluated Value) :
    Evaluates host (.call f arguments) env ended ↔
      ∃ inner, Evaluates host (.source (bindings parameters values ++ body)) ⟨∅, after.functions⟩ inner ∧
        ended = ⟨inner.outcome, after, calls ++ inner.calls⟩ := by
  rw [evaluates_call_body_iff (callee_bound bound accepted.symm) each]
  simp only [Evaluates, evaluate_bindings]

end Call

/-- A function of two parameters of the same name, whose body calls a function of its own
    name. -/
def Environment.doubled : Environment :=
  empty.withFunction "f" (.defined ["a", "a"] [.add (.var "a") (.call "f" [])])

def Environment.renewed : Environment := doubled.withFunction "f" (.defined [] [.int 2])

/-- The first argument gives the name to another function. The call is still one of the
    function that had the name before, and the call in its body one of the new function;
    the parameter has the value of the last argument. -/
theorem evaluates_call_renewed :
    EvaluatesEach .bare [.functionDef "f" [] [.int 2], .int 1] .doubled [.value .null, .value (.int 1)] .renewed [] ∧
      Evaluates .bare (.source [.assignment "a" .null, .assignment "a" (.int 1), .add (.var "a") (.call "f" [])])
        ⟨∅, Environment.renewed.functions⟩
        ⟨.value (.int 3), Environment.withVariable ⟨∅, Environment.renewed.functions⟩ "a" (.value (.int 1)), []⟩ ∧
      Evaluates .bare (.call "f" [.functionDef "f" [] [.int 2], .int 1]) .doubled ⟨.value (.int 3), .renewed, []⟩ := by
  have first : Evaluates .bare (.functionDef "f" [] [.int 2]) .doubled ⟨.value .null, .renewed, []⟩ := ⟨0, rfl⟩
  have second : Evaluates .bare (.int 1) .renewed ⟨.value (.int 1), .renewed, []⟩ := ⟨0, rfl⟩
  have each := EvaluatesEach.cons first (.cons second .nil)
  have expanded : Evaluates .bare
      (.source [.assignment "a" .null, .assignment "a" (.int 1), .add (.var "a") (.call "f" [])])
      ⟨∅, Environment.renewed.functions⟩
      ⟨.value (.int 3), Environment.withVariable ⟨∅, Environment.renewed.functions⟩ "a" (.value (.int 1)), []⟩ :=
    ⟨1, rfl⟩
  have called := @evaluates_call_iff .bare .doubled .renewed "f" ["a", "a"] _ _ [.null, .int 1] [] rfl rfl each
  exact ⟨each, expanded, (called _).2 ⟨_, expanded, rfl⟩⟩

end Scriptlet

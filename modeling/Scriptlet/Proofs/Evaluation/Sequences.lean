import Scriptlet.Evaluation

namespace Scriptlet
open Evaluation

section Bind
variable {α β γ : Type} {first : Evaluation α} {next : α → Evaluation β} {env : Environment}

/-- A sequence of two steps ends with an error of the first one, or the first one has a
    value and the second one ends. -/
theorem bind_eq_some {ended : Evaluated β} (ran : (first >>= next) env = some ended) :
    (∃ reason after calls, first env = some ⟨.error reason, after, calls⟩ ∧ ended = ⟨.error reason, after, calls⟩) ∨
    ∃ a middle calls later, first env = some ⟨.value a, middle, calls⟩ ∧ next a middle = some later ∧
      ended = { later with calls := calls ++ later.calls } := by
  rcases began : first env with _ | ⟨a | reason, after, calls⟩
  · rw [bind_none began] at ran
    cases ran
  · rw [bind_value began] at ran
    obtain ⟨later, continued, rfl⟩ := Option.map_eq_some_iff.1 ran
    exact .inr ⟨a, after, calls, later, rfl, continued, rfl⟩
  · rw [bind_error began] at ran
    exact .inl ⟨reason, after, calls, rfl, (Option.some.inj ran).symm⟩

theorem bind_quiet {after : Environment} {a : α} (ended : first env = some ⟨.value a, after, []⟩) :
    (first >>= next) env = next a after := by
  rw [bind_value ended]
  cases next a after <;> rfl

theorem map_id (step : Evaluation α) : id <$> step = step := by
  funext env
  rcases ran : step env with _ | ⟨a | reason, after, calls⟩
  · exact bind_none ran
  · refine (bind_value ran).trans ?_
    simp [Evaluation.pure]
  · exact bind_error ran

theorem value_bind (a : α) : (Evaluation.pure a >>= next) = next a := by
  funext env
  exact bind_quiet rfl

theorem bind_grouped (second : α → Evaluation β) (third : β → Evaluation γ) :
    first >>= second >>= third = first >>= fun a => second a >>= third := by
  funext env
  rcases ran : first env with _ | ⟨a | reason, after, calls⟩
  · rw [bind_none (bind_none ran), bind_none ran]
  · have grouped : (first >>= second) env = _ := bind_value ran
    rw [bind_value ran]
    rcases continued : second a after with _ | ⟨b | reason, later, more⟩
    · rw [continued] at grouped
      rw [bind_none grouped, bind_none continued]
      rfl
    · rw [continued] at grouped
      rw [bind_value grouped, bind_value continued]
      rcases third b later with _ | ended
      · rfl
      · simp
    · rw [continued] at grouped
      rw [bind_error grouped, bind_error continued]
      rfl
  · rw [bind_error (bind_error ran), bind_error ran]

instance : LawfulMonad Evaluation := LawfulMonad.mk' _ map_id (fun a _ => value_bind a)
  (fun _ second third => bind_grouped second third)

end Bind

variable {host : Host} {call : Caller}

theorem evaluateBlock_append (last : Value) (before after : List Node) :
    evaluateBlock host call last (before ++ after) =
      evaluateBlock host call last before >>= fun v => evaluateBlock host call v after := by
  induction before generalizing last with
  | nil => rw [List.nil_append, evaluateBlock, pure_bind]
  | cons node before ih =>
    rw [List.cons_append, evaluateBlock, evaluateBlock, bind_assoc]
    exact congrArg _ (funext ih)

theorem evaluateAll_append (before after : List Node) :
    evaluateAll host call (before ++ after) = do
      let values ← evaluateAll host call before
      let more ← evaluateAll host call after
      return values ++ more := by
  induction before with
  | nil => simp [evaluateAll]
  | cons node before ih => simp [evaluateAll, ih]

/-- The branch that a condition selects is evaluated as a block; without a second branch
    it is an empty one. -/
theorem evaluateNode_conditional (condition : Node) (yes : List Node) (no : Option (List Node)) :
    evaluateNode host call (.conditional condition yes no) =
      evaluateNode host call condition >>= fun v =>
        evaluateBlock host call .null (if v.truthy then yes else no.getD []) := by
  cases no with
  | none =>
    rw [evaluateNode]
    refine congrArg _ (funext fun v => ?_)
    cases v.truthy with
    | true => rfl
    | false => rw [if_neg (by decide), if_neg (by decide), Option.getD_none, evaluateBlock]
  | some no =>
    rw [evaluateNode]
    refine congrArg _ (funext fun v => ?_)
    cases v.truthy <;> rfl

def EvalError.node? : EvalError → Option Node
  | .evaluator _ node => node
  | _ => none

def conclude (reason : EvalError) (result : Option Integer) : Evaluation Value := do
  return .int (← orFail reason result)

/-- Between its two operands a binary operator checks that the left one is an integer. -/
theorem evaluateNode_binary {op : Node → Node → Node} (binary : op = .add ∨ op = .subtract) :
    ∃ (reason : Integer → Integer → EvalError) (result : Integer → Integer → Option Integer),
      (∀ i j, (reason i j).node? = none) ∧ ∀ host call left right, evaluateNode host call (op left right) = (do
        let i ← operand (← evaluateNode host call left)
        let j ← operand (← evaluateNode host call right)
        conclude (reason i j) (result i j)) := by
  rcases binary with rfl | rfl
  · exact ⟨.sumOverflow, Integer.add?, fun i j => rfl, fun host call left right => by rw [evaluateNode]; rfl⟩
  · exact ⟨.differenceOverflow, Integer.sub?, fun i j => rfl, fun host call left right => by rw [evaluateNode]; rfl⟩

theorem evaluateNode_unary {op : Node → Node} (unary : op = .plus ∨ op = .minus) :
    ∃ (reason : Integer → EvalError) (result : Integer → Option Integer),
      (∀ i, (reason i).node? = none) ∧ ∀ host call value, evaluateNode host call (op value) = (do
        let i ← signed (← evaluateNode host call value)
        conclude (reason i) (result i)) := by
  rcases unary with rfl | rfl
  · exact ⟨.negationOverflow, some, fun i => rfl, fun host call value => by simp [evaluateNode, conclude, orFail]⟩
  · exact ⟨.negationOverflow, Integer.neg?, fun i => rfl, fun host call value => by rw [evaluateNode]; rfl⟩

section Callee
variable {env : Environment} {f : String} {function : Callable} {actual : Nat}

theorem callee_unbound (unbound : env.functions[f]? = none) :
    callee f actual env = some ⟨.error (.undefinedFunction f), env, []⟩ := by
  unfold callee
  rw [unbound]
  rfl

theorem callee_bound (bound : env.functions[f]? = some function) (accepted : function.arity = actual) :
    callee f actual env = some ⟨.value function, env, []⟩ := by
  unfold callee
  rw [bound]
  exact if_pos accepted

theorem callee_refused (bound : env.functions[f]? = some function) (refused : function.arity ≠ actual) :
    callee f actual env = some ⟨.error (.argumentCount f function.arity actual), env, []⟩ := by
  unfold callee
  rw [bound]
  exact if_neg refused

theorem callee_cases (f : String) (actual : Nat) (env : Environment) :
    (∃ reason, reason.node? = none ∧ callee f actual env = some ⟨.error reason, env, []⟩) ∨
    ∃ function, env.functions[f]? = some function ∧ function.arity = actual ∧
      callee f actual env = some ⟨.value function, env, []⟩ := by
  rcases found : env.functions[f]? with _ | function
  · exact .inl ⟨_, rfl, callee_unbound found⟩
  · by_cases accepted : function.arity = actual
    · exact .inr ⟨function, rfl, accepted, callee_bound found accepted⟩
    · exact .inl ⟨_, rfl, callee_refused found accepted⟩

theorem callee_still {ended : Evaluated Callable} (ran : callee f actual env = some ended) :
    ended.environment = env ∧ ended.calls = [] := by
  rcases callee_cases f actual env with ⟨reason, _, failed⟩ | ⟨other, _, _, found⟩
  · rw [failed] at ran
    cases ran
    exact ⟨rfl, rfl⟩
  · rw [found] at ran
    cases ran
    exact ⟨rfl, rfl⟩

theorem callee_eq_value {after : Environment} {calls : List HostCall}
    (ran : callee f actual env = some ⟨.value function, after, calls⟩) :
    env.functions[f]? = some function ∧ function.arity = actual := by
  rcases callee_cases f actual env with ⟨reason, _, failed⟩ | ⟨other, bound, accepted, found⟩
  · rw [failed] at ran
    cases ran
  · rw [found] at ran
    cases ran
    exact ⟨bound, accepted⟩

end Callee

/-- A function of the host answers alike in every environment and leaves it as it is. An
    error of it carries no node, and the call is on record. -/
theorem callHost_eq (host : Host) (name : String) (function : HostFunction) (values : List Value) :
    ∃ outcome : Outcome Value, (∀ reason, outcome = .error reason → reason.node? = none) ∧
      ∀ env, callHost host name function values env = some ⟨outcome, env, [⟨function, values⟩]⟩ := by
  rcases answered : function.run host values with refusal | value
  · refine ⟨.error (.rejected name refusal.message), ?_, fun env => by rw [callHost, answered]⟩
    rintro _ ⟨⟩
    rfl
  · exact ⟨.value value, nofun, fun env => by rw [callHost, answered]⟩

/-- A call one level deeper is the evaluation of the body in the frame, but for the
    environment, which is the caller's. -/
theorem callDefined_succ {depth : Nat} {parameters : List String} {body : List Node} {values : List Value}
    {env : Environment} : callDefined host (depth + 1) parameters body values env =
      (evaluate host depth (.source body) (env.callFrame (parameters.zip (values.map .value)))).map fun inner =>
        ⟨inner.outcome, env, inner.calls⟩ := rfl

/-- The last step of a call, when the function and the values of the arguments are
    known. -/
def apply (host : Host) (call : Caller) (name : String) (function : Callable) (values : List Value) :
    Evaluation Value :=
  match function with
  | .host function => callHost host name function values
  | .defined parameters body => call parameters body values

theorem evaluateNode_call (name : String) (arguments : List Node) :
    evaluateNode host call (.call name arguments) = (do
      let function ← callee name arguments.length
      let values ← evaluateAll host call arguments
      apply host call name function values) := by
  rw [evaluateNode]
  refine congrArg _ (funext fun function => congrArg _ (funext fun values => ?_))
  cases function <;> rfl

end Scriptlet

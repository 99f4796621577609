import Scriptlet.Proofs.Evaluation.Visits

namespace Scriptlet
open Evaluation

/-- The evaluation of the node in the environment makes this call of the host, whether it
    ends or not: it comes to a call of a function that is found and is the host's, and the
    arguments have values. -/
inductive Invokes (host : Host) (node : Node) (env : Environment) : HostCall → Prop
  | intro {depth f arguments there function values after calls}
    (visits : Visits host node env (.call f arguments) there)
    (found : callee f arguments.length there = some ⟨.value (.host function), there, []⟩)
    (ran : evaluateAll host (callDefined host depth) arguments there = some ⟨.value values, after, calls⟩) :
    Invokes host node env ⟨function, values⟩

section Invokes
variable {host : Host} {depth : Nat} {node part : Node} {env middle : Environment} {call : HostCall}
  {calls : List HostCall}

theorem Invokes.inside (enters : Enters host (callDefined host depth) node env part middle calls)
    (invokes : Invokes host part middle call) : Invokes host node env call := by
  cases invokes with
  | intro visits found ran => exact .intro (.inside enters visits) found ran

theorem Invokes.body {f : String} {arguments body : List Node} {parameters : List String} {values : List Value}
    (found : callee f arguments.length env = some ⟨.value (.defined parameters body), env, []⟩)
    (ran : evaluateAll host (callDefined host depth) arguments env = some ⟨.value values, middle, calls⟩)
    (invokes : Invokes host (.source body) (middle.callFrame (parameters.zip (values.map .value))) call) :
    Invokes host (.call f arguments) env call := by
  cases invokes with
  | intro visits found' ran' => exact .intro (.body found ran visits) found' ran'

end Invokes

/-- The step ends in the environment, and the call is on its record. -/
def Makes {α : Type} (step : Evaluation α) (env : Environment) (made : HostCall) : Prop :=
  ∃ ended, step env = some ended ∧ made ∈ ended.calls

def Silent {α : Type} (step : Evaluation α) : Prop := ∀ env ended, step env = some ended → ended.calls = []

section Makes
variable {α β : Type} {first : Evaluation α} {next : α → Evaluation β} {env : Environment} {made : HostCall}

theorem Makes.bind_cases (makes : Makes (first >>= next) env made) :
    Makes first env made ∨
      ∃ a middle calls, first env = some ⟨.value a, middle, calls⟩ ∧ Makes (next a) middle made := by
  obtain ⟨ended, ran, within⟩ := makes
  rcases bind_eq_some ran with ⟨reason, after, calls, began, rfl⟩ | ⟨a, middle, calls, later, began, continued, rfl⟩
  · exact .inl ⟨_, began, within⟩
  · rcases List.mem_append.1 within with early | late
    · exact .inl ⟨_, began, early⟩
    · exact .inr ⟨a, middle, calls, began, later, continued, late⟩

theorem Silent.not_makes (silent : Silent first) : ¬ Makes first env made := by
  rintro ⟨ended, ran, within⟩
  rw [silent env ended ran] at within
  cases within

theorem Silent.bind (front : Silent first) (back : ∀ a, Silent (next a)) : Silent (first >>= next) := by
  intro env ended ran
  rcases bind_eq_some ran with ⟨reason, after, calls, began, rfl⟩ | ⟨a, middle, calls, later, began, continued, rfl⟩
  · exact front env _ began
  · have none : calls ++ later.calls = [] := by
      rw [back a middle later continued, List.append_nil]
      exact front env _ began
    exact none

theorem Makes.of_silent (makes : Makes (first >>= next) env made) (silent : Silent first) :
    ∃ a middle calls, first env = some ⟨.value a, middle, calls⟩ ∧ Makes (next a) middle made :=
  makes.bind_cases.resolve_left silent.not_makes

end Makes

theorem silent_kept (host : Host) (call : Caller) (parts : List Node) (none : ∀ f arguments, .call f arguments ∉ parts) :
    Kept (fun step _ => Silent step) host call call parts where
  result a := by rintro env _ ⟨⟩; rfl
  sequence := Silent.bind
  failure reason _ := by rintro env _ ⟨⟩; rfl
  syntaxError message _ := by rintro env _ ⟨⟩; rfl
  lookup x _ := by rintro env _ ⟨⟩; rfl
  assignment x e v _ := by rintro env _ ⟨⟩; rfl
  definition f ps body _ := by rintro env _ ⟨⟩; rfl
  functionCall f arguments within := absurd within (none f arguments)

theorem callee_silent (f : String) (actual : Nat) : Silent (callee f actual) := by
  intro env ended ran
  exact (callee_still ran).2

theorem operand_eq_value {v : Value} {i : Integer} {env after : Environment} {calls : List HostCall}
    (ran : operand v env = some ⟨.value i, after, calls⟩) : v = .int i ∧ after = env := by
  cases v with
  | int j =>
    cases ran
    exact ⟨rfl, rfl⟩
  | _ => cases ran

section Origin
variable {host : Host} {call : Caller} {env : Environment} {made : HostCall}

theorem not_makes_of_no_call {node : Node} (none : ∀ f arguments, .call f arguments ∉ node.parts) :
    ¬ Makes (evaluateNode host call node) env made :=
  ((silent_kept host call node.parts none).node node fun _ => id).not_makes

theorem makes_block {nodes : List Node} {last : Value} (makes : Makes (evaluateBlock host call last nodes) env made) :
    ∃ before part after v there calls, nodes = before ++ part :: after ∧
      evaluateBlock host call last before env = some ⟨.value v, there, calls⟩ ∧
      Makes (evaluateNode host call part) there made := by
  induction nodes generalizing last env with
  | nil => exact absurd makes ((silent_kept host call [] nofun).block last [] fun _ => id).not_makes
  | cons node nodes ih =>
    rw [evaluateBlock] at makes
    rcases makes.bind_cases with here | ⟨v, middle, calls, began, later⟩
    · exact ⟨[], node, nodes, last, env, [], rfl, rfl, here⟩
    · obtain ⟨before, part, after, w, there, more, rfl, ran, here⟩ := ih later
      refine ⟨node :: before, part, after, w, there, calls ++ more, rfl, ?_, here⟩
      rw [evaluateBlock, bind_value began, ran]
      rfl

theorem makes_all {nodes : List Node} (makes : Makes (evaluateAll host call nodes) env made) :
    ∃ before part after values there calls, nodes = before ++ part :: after ∧
      evaluateAll host call before env = some ⟨.value values, there, calls⟩ ∧
      Makes (evaluateNode host call part) there made := by
  induction nodes generalizing env with
  | nil => exact absurd makes ((silent_kept host call [] nofun).all [] fun _ => id).not_makes
  | cons node nodes ih =>
    rw [evaluateAll] at makes
    rcases makes.bind_cases with here | ⟨v, middle, calls, began, later⟩
    · exact ⟨[], node, nodes, [], env, [], rfl, rfl, here⟩
    · rcases later.bind_cases with others | ⟨values, after, more, _, finished⟩
      · obtain ⟨before, part, after, values, there, more, rfl, ran, here⟩ := ih others
        exact ⟨node :: before, part, after, v :: values, there, calls ++ more, rfl, evaluateAll_cons began ran, here⟩
      · exact absurd finished ((silent_kept host call [] nofun).result _).not_makes

theorem makes_binary {op : Node → Node → Node} (binary : op = .add ∨ op = .subtract) {left right : Node}
    (makes : Makes (evaluateNode host call (op left right)) env made) :
    ∃ part there calls, Enters host call (op left right) env part there calls ∧
      Makes (evaluateNode host call part) there made := by
  have silent := silent_kept host call [] nofun
  obtain ⟨reason, result, plain, evaluated⟩ := evaluateNode_binary binary
  rw [evaluated] at makes
  rcases makes.bind_cases with here | ⟨v, middle, calls, began, later⟩
  · exact ⟨left, env, [], .left binary, here⟩
  · obtain ⟨i, after, none, checked, behind⟩ := later.of_silent (silent.operand v)
    obtain ⟨rfl, rfl⟩ := operand_eq_value checked
    rcases behind.bind_cases with here | ⟨w, _, _, _, finished⟩
    · exact ⟨right, after, calls, .right binary began, here⟩
    · have rest := Silent.bind (silent.operand w) fun j => silent.conclude (plain i j) (result i j)
      exact absurd finished rest.not_makes

theorem makes_unary {op : Node → Node} (unary : op = .plus ∨ op = .minus) {value : Node}
    (makes : Makes (evaluateNode host call (op value)) env made) :
    ∃ part there calls, Enters host call (op value) env part there calls ∧
      Makes (evaluateNode host call part) there made := by
  have silent := silent_kept host call [] nofun
  obtain ⟨reason, result, plain, evaluated⟩ := evaluateNode_unary unary
  rw [evaluated] at makes
  rcases makes.bind_cases with here | ⟨v, _, _, _, finished⟩
  · exact ⟨value, env, [], .operand unary, here⟩
  · have rest := Silent.bind (silent.signed v) fun i => silent.conclude (plain i) (result i)
    exact absurd finished rest.not_makes

/-- A call on the record of a node was made in a part that the evaluation enters, or by the
    function that the node itself calls. -/
theorem makes_cases {node : Node} (makes : Makes (evaluateNode host call node) env made) :
    (∃ part there calls, Enters host call node env part there calls ∧ Makes (evaluateNode host call part) there made) ∨
    ∃ f arguments function values there calls, node = .call f arguments ∧
      callee f arguments.length env = some ⟨.value function, env, []⟩ ∧
      evaluateAll host call arguments env = some ⟨.value values, there, calls⟩ ∧
      Makes (apply host call f function values) there made := by
  cases node with
  | source statements =>
    rw [evaluateNode] at makes
    obtain ⟨before, part, after, v, there, calls, rfl, ran, here⟩ := makes_block makes
    exact .inl ⟨part, there, calls, .statement ran, here⟩
  | assignment x e =>
    rw [evaluateNode] at makes
    rcases makes.bind_cases with here | ⟨v, middle, calls, _, _, bound, within⟩
    · exact .inl ⟨e, env, [], .assigned, here⟩
    · cases bound
      cases within
  | conditional c yes no =>
    rw [evaluateNode_conditional] at makes
    rcases makes.bind_cases with here | ⟨v, middle, calls, decided, later⟩
    · exact .inl ⟨c, env, [], .condition, here⟩
    · obtain ⟨before, part, after, w, there, more, selected, ran, here⟩ := makes_block later
      exact .inl ⟨part, there, calls ++ more, .branch decided selected ran, here⟩
  | add l r => exact .inl (makes_binary (.inl rfl) makes)
  | subtract l r => exact .inl (makes_binary (.inr rfl) makes)
  | plus e => exact .inl (makes_unary (.inl rfl) makes)
  | minus e => exact .inl (makes_unary (.inr rfl) makes)
  | call f arguments =>
    rw [evaluateNode_call] at makes
    obtain ⟨function, after, none, found, later⟩ := makes.of_silent (callee_silent f _)
    obtain ⟨bound, accepted⟩ := callee_eq_value found
    obtain ⟨rfl, rfl⟩ := callee_still found
    rcases later.bind_cases with here | ⟨values, there, calls, ran, applied⟩
    · obtain ⟨before, part, behind, values, there, calls, rfl, ran, here⟩ := makes_all here
      exact .inl ⟨part, there, calls, .argument bound accepted ran, here⟩
    · exact .inr ⟨f, arguments, function, values, there, calls, rfl, found, ran, applied⟩
  | _ => exact absurd makes (not_makes_of_no_call (by simp [Node.parts]))

end Origin

theorem makes_callHost {host : Host} {f : String} {function : HostFunction} {values : List Value} {env : Environment}
    {made : HostCall} (makes : Makes (callHost host f function values) env made) : made = ⟨function, values⟩ := by
  obtain ⟨ended, ran, within⟩ := makes
  obtain ⟨outcome, _, answered⟩ := callHost_eq host f function values
  rw [answered] at ran
  cases ran
  exact List.mem_singleton.1 within

theorem invokes_of_bodies {host : Host} {depth : Nat} {made : HostCall}
    (bodies : ∀ {parameters body values env}, Makes (callDefined host depth parameters body values) env made →
      Invokes host (.source body) (env.callFrame (parameters.zip (values.map .value))) made)
    {node : Node} {env : Environment} (makes : Makes (evaluate host depth node) env made) :
    Invokes host node env made := by
  rcases makes_cases makes with ⟨part, there, calls, enters, here⟩ | ⟨f, arguments, function, values, there, calls, rfl,
    found, ran, applied⟩
  · have smaller := enters.smaller
    exact .inside enters (invokes_of_bodies bodies here)
  · cases function with
    | host function =>
      obtain rfl := makes_callHost applied
      exact .intro .here found ran
    | defined parameters body => exact .body found ran (bodies applied)
termination_by sizeOf node

theorem invokes_of_makes {host : Host} {depth : Nat} {node : Node} {env : Environment} {made : HostCall}
    (makes : Makes (evaluate host depth node) env made) : Invokes host node env made := by
  induction depth generalizing node env with
  | zero =>
    refine invokes_of_bodies ?_ makes
    rintro parameters body values env ⟨_, deep, _⟩
    cases deep
  | succ depth ih =>
    refine invokes_of_bodies ?_ makes
    rintro parameters body values env ⟨_, called, within⟩
    rw [callDefined_succ] at called
    obtain ⟨inner, entered, rfl⟩ := Option.map_eq_some_iff.1 called
    exact ih ⟨inner, entered, within⟩

theorem evaluates_call_host {host : Host} {depth : Nat} {f : String} {arguments : List Node} {env after : Environment}
    {function : HostFunction} {values : List Value} {calls : List HostCall}
    (found : callee f arguments.length env = some ⟨.value (.host function), env, []⟩)
    (ran : evaluateAll host (callDefined host depth) arguments env = some ⟨.value values, after, calls⟩) :
    ∃ outcome, Evaluates host (.call f arguments) env ⟨outcome, after, calls ++ [⟨function, values⟩]⟩ := by
  obtain ⟨outcome, _, answered⟩ := callHost_eq host f function values
  refine ⟨outcome, depth, ?_⟩
  rw [evaluate, evaluateNode_call, bind_quiet found, bind_value ran, apply, answered]
  rfl

/-- Where an evaluation ends, the calls on its record are those that it makes at the places
    that it comes to. -/
theorem Evaluates.mem_calls_iff {host : Host} {node : Node} {env : Environment} {ended : Evaluated Value}
    (ends : Evaluates host node env ended) (call : HostCall) : call ∈ ended.calls ↔ Invokes host node env call := by
  constructor
  · intro made
    obtain ⟨depth, ran⟩ := ends
    exact invokes_of_makes ⟨ended, ran, made⟩
  · rintro ⟨visits, found, ran⟩
    obtain ⟨within, reached, included⟩ := visits.ends ends
    obtain ⟨outcome, called⟩ := evaluates_call_host found ran
    refine included ?_
    rw [reached.unique called]
    exact List.mem_append_right _ List.mem_cons_self

/-- A builtin function that is given as many arguments as it takes finds each of them. -/
theorem Builtin.run_ne_missing (function : Builtin) {arguments : List Value}
    (accepted : arguments.length = function.arity) (position : Nat) :
    function.run arguments ≠ .error (.missingArgument position) := by
  match function, arguments, accepted with
  | .eq, [left, right], _ => nofun
  | .lt, [left, right], _ => cases left <;> cases right <;> nofun
  | .gt, [left, right], _ => cases left <;> cases right <;> nofun
  | .not, [only], _ => nofun
  | .isZero, [only], _ => cases only <;> nofun
  | .print, [only], _ => nofun

/-- Every call of the host that an evaluation makes, in whatever environment, passes as many
    arguments as the function was registered with. They are what the arguments of a call in
    the program have come to, none of them an error, so nothing is lost on the way to the
    host; and a builtin function, whatever name it is bound to, finds each argument that it
    looks for. Where the evaluation ends, these calls are the ones on its record, but it
    does not have to end. -/
theorem invokes_accepted {host : Host} {node : Node} {env : Environment} :
    (∀ ended, Evaluates host node env ended → ∀ call, call ∈ ended.calls ↔ Invokes host node env call) ∧
    ∀ call, Invokes host node env call →
      call.arguments.length = call.function.arity ∧
      (∃ f arguments there outcomes after calls, Visits host node env (.call f arguments) there ∧
        there.functions[f]? = some (.host call.function) ∧ EvaluatesEach host arguments there outcomes after calls ∧
        call.arguments = outcomes.map Outcome.toValue ∧
        ∀ outcome ∈ outcomes, outcome.isError = false ∧ .value outcome.toValue = outcome) ∧
      ∀ function, call.function = .builtin function → ∀ position,
        function.run call.arguments ≠ .error (.missingArgument position) := by
  refine ⟨fun ended ends => ends.mem_calls_iff, ?_⟩
  rintro _ ⟨visits, found, ran⟩
  rename_i f arguments there function values after calls
  have each := EvaluatesEach.of_evaluateAll ran
  obtain ⟨bound, accepted⟩ := callee_eq_value found
  have length : values.length = function.arity := by
    rw [← List.length_map (Outcome.value : Value → Outcome Value), each.length]
    exact accepted.symm
  refine ⟨length, ⟨f, arguments, there, _, after, calls, visits, bound, each, ?_, ?_⟩, ?_⟩
  · simp [Function.comp_def, Outcome.toValue]
  · intro outcome within
    obtain ⟨v, _, rfl⟩ := List.mem_map.1 within
    exact ⟨rfl, rfl⟩
  · rintro builtin rfl position
    exact builtin.run_ne_missing length position

/-- A variable that is bound to an error, a builtin function under another name, and a
    function that calls it and then itself, without end. -/
def Environment.restless : Environment :=
  ((empty.withFunction "less" (.host (.builtin .lt))).withFunction "f"
    (.defined ["n"] [.call "less" [.var "n", .int 1], .call "f" [.var "n"]])).withVariable "x" (.error (.type "no"))

def Environment.restlessFrame : Environment := restless.callFrame [("n", .value (.int 3))]

/-- A call of the builtin function that ends is on its record; and in the second of the
    calls that never end the builtin function is called with both its arguments. -/
theorem invokes_accepted_restless :
    Evaluates .bare (.call "less" [.int 0, .int 1]) .restless
        ⟨.value (.bool true), .restless, [⟨.builtin .lt, [.int 0, .int 1]⟩]⟩ ∧
      Invokes .bare (.call "less" [.int 0, .int 1]) .restless ⟨.builtin .lt, [.int 0, .int 1]⟩ ∧
      Invokes .bare (.call "f" [.int 3]) .restless ⟨.builtin .lt, [.int 3, .int 1]⟩ ∧
      ([.int 3, .int 1] : List Value).length = (HostFunction.builtin .lt).arity := by
  obtain ⟨recorded, _⟩ := @invokes_accepted .bare (.call "less" [.int 0, .int 1]) .restless
  obtain ⟨_, accepted⟩ := @invokes_accepted .bare (.call "f" [.int 3]) .restless
  have ends : Evaluates .bare (.call "less" [.int 0, .int 1]) .restless
      ⟨.value (.bool true), .restless, [⟨.builtin .lt, [.int 0, .int 1]⟩]⟩ := ⟨0, rfl⟩
  have three : evaluateAll .bare (callDefined .bare 0) [.int 3] .restless = some ⟨.value [.int 3], .restless, []⟩ := rfl
  have again : evaluateAll .bare (callDefined .bare 0) [.var "n"] .restlessFrame =
      some ⟨.value [.int 3], .restlessFrame, []⟩ := rfl
  have both : evaluateAll .bare (callDefined .bare 0) [.var "n", .int 1] .restlessFrame =
      some ⟨.value [.int 3, .int 1], .restlessFrame, []⟩ := rfl
  have compared : evaluateBlock .bare (callDefined .bare 0) .null [.call "less" [.var "n", .int 1]] .restlessFrame =
      some ⟨.value (.bool false), .restlessFrame, [⟨.builtin .lt, [.int 3, .int 1]⟩]⟩ := rfl
  have nothing : evaluateBlock .bare (callDefined .bare 0) .null [] .restlessFrame =
      some ⟨.value .null, .restlessFrame, []⟩ := rfl
  have first : Invokes .bare (.source [.call "less" [.var "n", .int 1], .call "f" [.var "n"]]) .restlessFrame
      ⟨.builtin .lt, [.int 3, .int 1]⟩ := .inside (.statement nothing) (.intro .here rfl both)
  have second : Invokes .bare (.source [.call "less" [.var "n", .int 1], .call "f" [.var "n"]]) .restlessFrame
      ⟨.builtin .lt, [.int 3, .int 1]⟩ := .inside (.statement compared) (.body rfl again first)
  have invokes : Invokes .bare (.call "f" [.int 3]) .restless ⟨.builtin .lt, [.int 3, .int 1]⟩ := .body rfl three second
  exact ⟨ends, (recorded _ ends _).1 List.mem_cons_self, invokes, (accepted _ invokes).1⟩

end Scriptlet

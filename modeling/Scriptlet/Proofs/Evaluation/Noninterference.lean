import Scriptlet.Proofs.Evaluation.Places

namespace Scriptlet
open Evaluation

/-- The environments have the same functions, and the variables with these names are
    bound alike in them. -/
structure Agree (S : String → Prop) (env env' : Environment) : Prop where
  functions : env'.functions = env.functions
  values : ∀ x, S x → env'.values[x]? = env.values[x]?

theorem Agree.symm {S : String → Prop} {env env' : Environment} (agree : Agree S env env') : Agree S env' env :=
  ⟨agree.functions.symm, fun x within => (agree.values x within).symm⟩

theorem Agree.callFrame {S : String → Prop} {env env' : Environment} (agree : Agree S env env')
    (bindings : List (String × Outcome Value)) : env'.callFrame bindings = env.callFrame bindings := by
  unfold Environment.callFrame
  rw [agree.functions]

/-- If the step ends in the environment, it ends in the same way, with the same host
    calls, in every environment that agrees with it on the first names, and the
    environments afterwards agree on the second names. -/
def Repeats (S T : String → Prop) {α : Type} (step : Evaluation α) (env : Environment) : Prop :=
  ∀ env', Agree S env env' → ∀ ended, step env = some ended →
    ∃ after, step env' = some ⟨ended.outcome, after, ended.calls⟩ ∧ Agree T ended.environment after

section Repeats
variable {S T : String → Prop} {α β : Type} {env : Environment}

theorem Repeats.front {first : Evaluation α} {next : α → Evaluation β} (begins : Repeats S T first env)
    (goesOn : ∀ a env, Repeats T T (next a) env) : Repeats S T (first >>= next) env := by
  intro env' agree ended ran
  rcases bind_eq_some ran with ⟨reason, after, calls, began, rfl⟩ | ⟨a, middle, calls, later, began, continued, rfl⟩
  · obtain ⟨after, again, agree⟩ := begins env' agree _ began
    exact ⟨after, bind_error again, agree⟩
  · obtain ⟨middle', again, agree⟩ := begins env' agree _ began
    obtain ⟨after, continued, agree⟩ := goesOn a _ _ agree _ continued
    refine ⟨after, ?_, agree⟩
    rw [bind_value again, continued]
    rfl

theorem Repeats.back {first : Evaluation α} {next : α → Evaluation β} {middle : Environment} {a : α}
    {calls : List HostCall} (began : first env = some ⟨.value a, middle, calls⟩) (begins : Repeats S S first env)
    (goesOn : Repeats S T (next a) middle) : Repeats S T (first >>= next) env := by
  intro env' agree ended ran
  obtain ⟨middle', again, agree⟩ := begins env' agree _ began
  rw [bind_value began] at ran
  obtain ⟨later, continued, rfl⟩ := Option.map_eq_some_iff.1 ran
  obtain ⟨after, continued, agree⟩ := goesOn _ agree _ continued
  refine ⟨after, ?_, agree⟩
  rw [bind_value again, continued]
  rfl

theorem Repeats.of_constant {step : Evaluation α} (outcome : Outcome α) (calls : List HostCall)
    (constant : ∀ env, step env = some ⟨outcome, env, calls⟩) : Repeats S S step env := by
  intro env' agree ended ran
  rw [constant env] at ran
  obtain rfl := Option.some.inj ran
  exact ⟨env', constant env', agree⟩

theorem callee_repeats (f : String) (actual : Nat) : Repeats S S (callee f actual) env := by
  intro env' agree ended ran
  have functions := agree.functions
  rcases found : env.functions[f]? with _ | function
  · rw [callee_unbound found] at ran
    cases ran
    exact ⟨env', callee_unbound (by rw [functions, found]), agree⟩
  · by_cases accepted : function.arity = actual
    · rw [callee_bound found accepted] at ran
      cases ran
      exact ⟨env', callee_bound (by rw [functions, found]) accepted, agree⟩
    · rw [callee_refused found accepted] at ran
      cases ran
      exact ⟨env', callee_refused (by rw [functions, found]) accepted, agree⟩

theorem callHost_repeats (host : Host) (f : String) (function : HostFunction) (values : List Value) :
    Repeats S S (callHost host f function values) env := by
  obtain ⟨outcome, _, answered⟩ := callHost_eq host f function values
  exact .of_constant outcome _ answered

theorem callDefined_repeats (host : Host) (depth : Nat) (ps : List String) (body : List Node) (values : List Value) :
    Repeats S S (callDefined host depth ps body values) env := by
  intro env' agree ended ran
  rcases depth with _ | depth
  · cases ran
  · rw [callDefined_succ] at ran
    obtain ⟨inner, entered, rfl⟩ := Option.map_eq_some_iff.1 ran
    refine ⟨env', ?_, agree⟩
    rw [callDefined_succ, agree.callFrame, entered]
    rfl

theorem apply_repeats (host : Host) (depth : Nat) (f : String) (function : Callable) (values : List Value) :
    Repeats S S (apply host (callDefined host depth) f function values) env := by
  cases function with
  | host function => exact callHost_repeats host f function values
  | defined ps body => exact callDefined_repeats host depth ps body values

theorem repeats_kept (host : Host) (depth : Nat) {nodes : List Node} (reads : ∀ x, .var x ∈ nodes → S x) :
    Kept (fun step _ => ∀ env, Repeats S S step env) host (callDefined host depth) (callDefined host depth) nodes where
  result a _ := .of_constant (.value a) [] fun _ => rfl
  sequence begins goesOn env := (begins env).front goesOn
  failure reason _ _ := .of_constant (.error reason) [] fun _ => rfl
  syntaxError message _ _ := .of_constant (.error (.cannotEvaluate (.syntaxError message))) [] fun _ => rfl
  lookup x within env := by
    rintro env' agree _ ⟨⟩
    refine ⟨env', ?_, agree⟩
    rw [lookup, agree.values x (reads x within)]
  assignment x e v _ env := by
    rintro env' agree _ ⟨⟩
    refine ⟨env'.withVariable x (.value v), rfl, agree.functions, fun y within => ?_⟩
    rw [Environment.values_withVariable, Environment.values_withVariable, agree.values y within]
  definition f ps body _ env := by
    rintro env' agree _ ⟨⟩
    refine ⟨env'.withFunction f (.defined ps body), rfl, ?_, agree.values⟩
    change env'.functions.insert f _ = env.functions.insert f _
    rw [agree.functions]
  functionCall f arguments _ all :=
    Kept.functionCall_of_steps (R := fun step _ => ∀ env, Repeats S S step env) (callDefined host depth)
      (callDefined host depth) (fun begins goesOn env => (begins env).front goesOn) (fun _ => callee_repeats f _)
      (fun function values _ => apply_repeats host depth f function values) all

theorem evaluate_repeats (host : Host) (depth : Nat) {node : Node} (reads : ∀ x, .var x ∈ node.parts → S x)
    (env : Environment) : Repeats S S (evaluate host depth node) env :=
  (repeats_kept host depth reads).node node (fun _ => id) env

end Repeats

/-- The evaluation of the node in the environment comes to an assignment of the variable
    in the node, and the expression of the assignment has a value there. -/
def Assigns (host : Host) (node : Node) (env : Environment) (x : String) : Prop :=
  ∃ depth e there calls v after later, Reaches host (callDefined host depth) node env (.assignment x e) there calls ∧
    evaluate host depth e there = some ⟨.value v, after, later⟩

/-- Where the evaluation comes to an assignment of a variable, the variable joins those
    that the environments afterwards agree on. -/
theorem Reaches.repeats {host : Host} {depth : Nat} {node inner : Node} {env there : Environment} {calls : List HostCall}
    (reaches : Reaches host (callDefined host depth) node env inner there calls) {x : String} {e : Node}
    (target : inner = .assignment x e) {v : Value} {after : Environment} {later : List HostCall}
    (valued : evaluate host depth e there = some ⟨.value v, after, later⟩) {S : String → Prop}
    (reads : ∀ y, .var y ∈ node.parts → S y) :
    Repeats S (fun y => S y ∨ y = x) (evaluate host depth node) env := by
  -- up to the assignment the environments agree on `S` only, from there on also on `x`
  induction reaches with
  | here =>
    subst target
    change Repeats _ _ (evaluateNode host (callDefined host depth) (.assignment x e)) _
    rw [evaluateNode]
    have valueReads : ∀ y, .var y ∈ e.parts → S y := fun y within => reads y (List.mem_cons_of_mem _ within)
    refine Repeats.back valued (evaluate_repeats host depth valueReads _) ?_
    rintro env' agree _ ⟨⟩
    refine ⟨env'.withVariable x (.value v), rfl, agree.functions, fun y within => ?_⟩
    rw [Environment.values_withVariable, Environment.values_withVariable]
    rcases within with within | rfl
    · rw [agree.values y within]
    · rw [if_pos rfl, if_pos rfl]
  | @inside node env part middle calls inner there later enters reaches ih =>
    have carried : Carried (fun step _ => ∀ env, Repeats S S step env)
        (fun step _ => ∀ env, Repeats (fun y => S y ∨ y = x) (fun y => S y ∨ y = x) step env)
        (fun step env _ => Repeats S (fun y => S y ∨ y = x) step env) :=
      ⟨Repeats.front, fun began begins goesOn => Repeats.back began (begins _) goesOn⟩
    exact enters.carried carried (repeats_kept host depth reads)
      (repeats_kept host depth fun y within => .inl (reads y within)) (fun f actual _ => callee_repeats f actual)
      (fun f function values _ => apply_repeats host depth f function values)
      (fun _ => id) [] (ih target valued fun y within => reads y (enters.parts (fun _ => id) within))

section Two
variable {host : Host} {node : Node} {S : String → Prop} {env env' : Environment} {ended ended' : Evaluated Value}

theorem Evaluates.repeats (reads : ∀ x, .var x ∈ node.parts → S x) (agree : Agree S env env')
    (ends : Evaluates host node env ended) :
    ∃ after, Evaluates host node env' ⟨ended.outcome, after, ended.calls⟩ ∧ Agree S ended.environment after := by
  obtain ⟨depth, ran⟩ := ends
  obtain ⟨after, again, agree⟩ := evaluate_repeats host depth reads env env' agree ended ran
  exact ⟨after, ⟨depth, again⟩, agree⟩

theorem Assigns.agree (reads : ∀ x, .var x ∈ node.parts → S x) (agree : Agree S env env') {x : String}
    (assigns : Assigns host node env x) (ends : Evaluates host node env ended) (ends' : Evaluates host node env' ended') :
    ended'.environment.values[x]? = ended.environment.values[x]? := by
  obtain ⟨depth, e, there, calls, v, after, later, reaches, valued⟩ := assigns
  obtain ⟨further, ran⟩ := ends
  -- both the evaluation and the way to the assignment are found with the greater of the two bounds
  have le := Nat.le_max_left depth further
  have le' := Nat.le_max_right depth further
  have reaches := reaches.mono (callDefined_mono host le)
  have valued := evaluate_mono le valued
  obtain ⟨other, again, agree⟩ := reaches.repeats rfl valued reads env' agree ended (evaluate_mono le' ran)
  rw [ends'.unique ⟨_, again⟩]
  exact agree.values x (.inr rfl)

/-- Two evaluations of a tree in environments that agree in their functions and on names
    that include all variables read in the tree outside function bodies: if one of them
    ends, so does the other, with the same value or error and the same host calls, and
    afterwards the environments agree in their functions, on those names and on all that
    assignments of the tree itself have assigned on the way. -/
theorem evaluates_noninterference (reads : ∀ x, .var x ∈ node.parts → S x) (functions : env'.functions = env.functions)
    (values : ∀ x, S x → env'.values[x]? = env.values[x]?) :
    ((∃ ended, Evaluates host node env ended) ↔ ∃ ended', Evaluates host node env' ended') ∧
    ∀ ended ended', Evaluates host node env ended → Evaluates host node env' ended' →
      ended'.outcome = ended.outcome ∧ ended'.calls = ended.calls ∧
      ended'.environment.functions = ended.environment.functions ∧
      ∀ x, S x ∨ Assigns host node env x ∨ Assigns host node env' x →
        ended'.environment.values[x]? = ended.environment.values[x]? := by
  have agree : Agree S env env' := ⟨functions, values⟩
  refine ⟨⟨?_, ?_⟩, ?_⟩
  · rintro ⟨ended, ends⟩
    obtain ⟨after, again, _⟩ := ends.repeats reads agree
    exact ⟨_, again⟩
  · rintro ⟨ended', ends'⟩
    obtain ⟨after, again, _⟩ := ends'.repeats reads agree.symm
    exact ⟨_, again⟩
  · intro ended ended' ends ends'
    obtain ⟨after, again, afterwards⟩ := ends.repeats reads agree
    obtain rfl := ends'.unique again
    refine ⟨rfl, rfl, afterwards.functions, ?_⟩
    rintro x (within | assigns | assigns)
    · exact afterwards.values x within
    · exact assigns.agree reads agree ends ends'
    · exact (assigns.agree reads agree.symm ends' ends).symm

end Two

/-- A variable, and a function that looks for it. -/
def Environment.seeking (w : Value) : Environment :=
  (empty.withFunction "f" (.defined ["x"] [.var "w"])).withVariable "w" (.value w)

/-- The function does not find the variable of its caller, whose value therefore has no
    influence on the result of the call. -/
theorem evaluates_noninterference_seeking :
    Evaluates .bare (.assignment "z" (.call "f" [.null])) (.seeking (.bool true))
        ⟨.value .null, (Environment.seeking (.bool true)).withVariable "z" (.value .null), []⟩ ∧
      Evaluates .bare (.assignment "z" (.call "f" [.null])) (.seeking (.bool false))
        ⟨.value .null, (Environment.seeking (.bool false)).withVariable "z" (.value .null), []⟩ ∧
      Assigns .bare (.assignment "z" (.call "f" [.null])) (.seeking (.bool true)) "z" ∧
      ((Environment.seeking (.bool false)).withVariable "z" (.value .null)).values["z"]? =
        ((Environment.seeking (.bool true)).withVariable "z" (.value .null)).values["z"]? := by
  have ends : Evaluates .bare (.assignment "z" (.call "f" [.null])) (.seeking (.bool true))
      ⟨.value .null, (Environment.seeking (.bool true)).withVariable "z" (.value .null), []⟩ := ⟨1, rfl⟩
  have ends' : Evaluates .bare (.assignment "z" (.call "f" [.null])) (.seeking (.bool false))
      ⟨.value .null, (Environment.seeking (.bool false)).withVariable "z" (.value .null), []⟩ := ⟨1, rfl⟩
  have assigns : Assigns .bare (.assignment "z" (.call "f" [.null])) (.seeking (.bool true)) "z" :=
    ⟨1, _, _, _, .null, _, _, .here, rfl⟩
  have reads : ∀ x, .var x ∈ (Node.assignment "z" (.call "f" [.null])).parts → False := by
    intro x within
    simp [Node.parts, Node.partsOfAll] at within
  obtain ⟨_, alike⟩ := @evaluates_noninterference .bare _ (fun _ => False) (.seeking (.bool true))
    (.seeking (.bool false)) reads rfl nofun
  exact ⟨ends, ends', assigns, (alike _ _ ends ends').2.2.2 "z" (.inr (.inl assigns))⟩

end Scriptlet

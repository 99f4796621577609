import Scriptlet.Proofs.Evaluation.Ending

namespace Scriptlet
open Evaluation

/-- Where the step ends, the environment after it is related to the one before it. -/
def Moves (Q : Environment → Environment → Prop) {α : Type} (step : Evaluation α) : Prop :=
  ∀ env ended, step env = some ended → Q env ended.environment

/-- A way of going from one environment to another on which any number of bindings that
    the nodes make can be gone. -/
structure Respected (Q : Environment → Environment → Prop) (nodes : List Node) : Prop where
  refl : ∀ env, Q env env
  trans : ∀ {env middle after}, Q env middle → Q middle after → Q env after
  assignment : ∀ {x e}, .assignment x e ∈ nodes → ∀ env v, Q env (env.withVariable x (.value v))
  definition : ∀ {f ps body}, .functionDef f ps body ∈ nodes → ∀ env, Q env (env.withFunction f (.defined ps body))

section Moves
variable {Q : Environment → Environment → Prop} {α β : Type}

theorem Moves.of_unmoved (refl : ∀ env, Q env env) {step : Evaluation α} (unmoved : Moves Eq step) : Moves Q step := by
  intro env ended ran
  rw [← unmoved env ended ran]
  exact refl env

theorem Moves.bind (trans : ∀ {env middle after}, Q env middle → Q middle after → Q env after)
    {first : Evaluation α} {next : α → Evaluation β} (front : Moves Q first) (back : ∀ a, Moves Q (next a)) :
    Moves Q (first >>= next) := by
  intro env ended ran
  rcases bind_eq_some ran with ⟨reason, after, calls, began, rfl⟩ | ⟨a, middle, calls, later, began, continued, rfl⟩
  · exact front _ _ began
  · have further : Q middle later.environment := back a _ _ continued
    exact trans (front _ _ began) further

theorem callee_unmoved (f : String) (actual : Nat) : Moves Eq (callee f actual) := by
  intro env ended ran
  exact (callee_still ran).1.symm

theorem callHost_unmoved (host : Host) (f : String) (function : HostFunction) (values : List Value) :
    Moves Eq (callHost host f function values) := by
  intro env ended ran
  obtain ⟨outcome, _, answered⟩ := callHost_eq host f function values
  rw [answered] at ran
  cases ran
  rfl

theorem apply_unmoved (host : Host) {call : Caller} (unmoved : ∀ ps body values, Moves Eq (call ps body values))
    (f : String) (function : Callable) (values : List Value) : Moves Eq (apply host call f function values) := by
  rcases function with function | ⟨ps, body⟩
  · exact callHost_unmoved host f function values
  · exact unmoved ps body values

theorem callDefined_unmoved (host : Host) (depth : Nat) (ps : List String) (body : List Node) (values : List Value) :
    Moves Eq (callDefined host depth ps body values) := by
  intro env ended ran
  rcases depth with _ | depth
  · cases ran
  · obtain ⟨inner, _, rfl⟩ := Option.map_eq_some_iff.1 ran
    rfl

theorem Respected.kept {nodes : List Node} (respected : Respected Q nodes) (host : Host) {call : Caller}
    (unmoved : ∀ ps body values, Moves Eq (call ps body values)) :
    Kept (fun step _ => Moves Q step) host call call nodes where
  result a := .of_unmoved respected.refl (by rintro env _ ⟨⟩; rfl)
  sequence := Moves.bind (Q := Q) respected.trans
  failure reason _ := .of_unmoved respected.refl (by rintro env _ ⟨⟩; rfl)
  syntaxError message _ := .of_unmoved respected.refl (by rintro env _ ⟨⟩; rfl)
  lookup x _ := .of_unmoved respected.refl (by rintro env _ ⟨⟩; rfl)
  assignment x e v within := by
    rintro env _ ⟨⟩
    exact respected.assignment within env v
  definition f ps body within := by
    rintro env _ ⟨⟩
    exact respected.definition within env
  functionCall f arguments _ all :=
    Kept.functionCall_of_steps (R := fun step _ => Moves Q step) call call (Moves.bind (Q := Q) respected.trans)
      (.of_unmoved respected.refl (callee_unmoved f _))
      (fun function values => .of_unmoved respected.refl (apply_unmoved host unmoved f function values)) all

/-- What the bindings of a tree respect, its evaluations respect, whatever functions they
    call. -/
theorem Evaluates.respects {host : Host} {node : Node} {env : Environment} {ended : Evaluated Value}
    (respected : Respected Q node.parts) (ends : Evaluates host node env ended) : Q env ended.environment := by
  obtain ⟨depth, ran⟩ := ends
  exact (respected.kept host (callDefined_unmoved host depth)).node node (fun _ => id) env ended ran

end Moves

theorem respected_value {x : String} {nodes : List Node} (unassigned : ∀ e, .assignment x e ∉ nodes) :
    Respected (fun env after => after.values[x]? = env.values[x]?) nodes where
  refl _ := rfl
  trans first second := second.trans first
  assignment {y e} within env v := by
    have other : y ≠ x := by
      rintro rfl
      exact unassigned e within
    rw [Environment.values_withVariable, if_neg other]
  definition _ _ := rfl

theorem respected_function (f : String) (nodes : List Node) :
    Respected (fun env after => after.functions[f]? = env.functions[f]? ∨
      ∃ ps body, .functionDef f ps body ∈ nodes ∧ after.functions[f]? = some (.defined ps body)) nodes where
  refl _ := .inl rfl
  trans := by
    rintro env middle after first (same | new)
    · rwa [same]
    · exact .inr new
  assignment _ _ _ := .inl rfl
  definition {g ps body} within env := by
    rw [Environment.functions_withFunction]
    by_cases same : g = f
    · subst same
      exact .inr ⟨ps, body, within, if_pos rfl⟩
    · exact .inl (if_neg same)

theorem respected_bound (nodes : List Node) :
    Respected (fun env after => (∀ x ∈ env.values, x ∈ after.values) ∧ ∀ f ∈ env.functions, f ∈ after.functions)
      nodes where
  refl _ := ⟨fun _ => id, fun _ => id⟩
  trans first second := ⟨fun x bound => second.1 x (first.1 x bound), fun f bound => second.2 f (first.2 f bound)⟩
  assignment _ _ _ := ⟨fun _ bound => Std.ExtTreeMap.mem_insert.2 (.inr bound), fun _ => id⟩
  definition _ _ := ⟨fun _ => id, fun _ bound => Std.ExtTreeMap.mem_insert.2 (.inr bound)⟩

theorem respected_eq {node : Node} (expression : node.IsExpression) : Respected Eq node.parts where
  refl _ := rfl
  trans := Eq.trans
  assignment within := absurd rfl (expression _ within)
  definition within := absurd rfl (expression _ within)

/-- What an evaluation that ends may have changed in the environment, whatever functions
    it called: variables that the tree assigns and functions that the tree defines, both
    outside function bodies, a function only into one that the tree defines under that
    name, and nothing bound becomes unbound. What the parser reads as an expression
    changes nothing. -/
theorem evaluates_frame {host : Host} {node : Node} {env : Environment} {ended : Evaluated Value}
    (ends : Evaluates host node env ended) :
    (∀ x, (∀ e, .assignment x e ∉ node.parts) → ended.environment.values[x]? = env.values[x]?) ∧
    (∀ f, (∀ ps body, .functionDef f ps body ∉ node.parts) →
      ended.environment.functions[f]? = env.functions[f]?) ∧
    (∀ f, ended.environment.functions[f]? ≠ env.functions[f]? →
      ∃ ps body, .functionDef f ps body ∈ node.parts ∧ ended.environment.functions[f]? = some (.defined ps body)) ∧
    (∀ x ∈ env.values, x ∈ ended.environment.values) ∧
    (∀ f ∈ env.functions, f ∈ ended.environment.functions) ∧
    (∀ tokens (reading : Parsing.Reading Node tokens), Parsing.expression tokens = some reading →
      reading.phrase = node → ended.environment = env) := by
  have functions := fun f => ends.respects (respected_function f node.parts)
  obtain ⟨valuesBound, functionsBound⟩ := ends.respects (respected_bound node.parts)
  refine ⟨fun x unassigned => ends.respects (respected_value unassigned), ?_, ?_, valuesBound, functionsBound, ?_⟩
  · intro f undefined
    rcases functions f with same | ⟨ps, body, within, _⟩
    · exact same
    · exact absurd within (undefined ps body)
  · intro f changed
    exact (functions f).resolve_left changed
  · rintro tokens reading read rfl
    exact (ends.respects (respected_eq (isExpression_of_expression read))).symm

/-- A variable, and a function that assigns the same variable and another one and defines
    a function. -/
def Environment.meddling : Environment :=
  (empty.withVariable "x" (.value .null)).withFunction "f"
    (.defined ["x"] [.assignment "x" (.bool true), .assignment "y" (.var "x"), .functionDef "g" [] []])

/-- A call of that function changes nothing for its caller, who assigns the result. -/
theorem evaluates_frame_meddling :
    Evaluates .bare (.assignment "z" (.call "f" [.null])) .meddling
        ⟨.value .null, Environment.meddling.withVariable "z" (.value .null), []⟩ ∧
      (Environment.meddling.withVariable "z" (.value .null)).values["x"]? = Environment.meddling.values["x"]? ∧
      (Environment.meddling.withVariable "z" (.value .null)).functions["g"]? = Environment.meddling.functions["g"]? := by
  have ends : Evaluates .bare (.assignment "z" (.call "f" [.null])) .meddling
      ⟨.value .null, Environment.meddling.withVariable "z" (.value .null), []⟩ := ⟨1, rfl⟩
  obtain ⟨values, functions, _⟩ := evaluates_frame ends
  refine ⟨ends, values "x" fun e within => ?_, functions "g" fun ps body within => ?_⟩
  · simp [Node.parts, Node.partsOfAll] at within
  · simp [Node.parts, Node.partsOfAll] at within

end Scriptlet

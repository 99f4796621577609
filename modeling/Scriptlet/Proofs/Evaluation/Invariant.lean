import Scriptlet.Proofs.Evaluation.Steps
import Scriptlet.Proofs.WellFormed

/-!
What programs can bind: values, and functions whose bodies are well formed. The
evaluation of well-formed statements keeps an environment well formed, also where it ends
with an error, and its errors carry no nodes (`evaluateBlock_keeps`). The bodies of
called functions come out of the environment, so neither holds without the other.
-/
namespace Scriptlet
open Evaluation

/-- A defined function has names for parameters, and a body that can be written down. -/
def Callable.WellFormed : Callable → Prop
  | host _ => True
  | defined parameters body => (∀ x ∈ parameters, IsName x) ∧ Node.WellFormedBlock body

/-- All that is bound is bound under a name, variables to values and functions to
    well-formed ones. -/
structure Environment.WellFormed (env : Environment) : Prop where
  values : ∀ x outcome, env.values[x]? = some outcome → IsName x ∧ ∃ v, outcome = .value v
  functions : ∀ f function, env.functions[f]? = some function → IsName f ∧ function.WellFormed

namespace Environment.WellFormed
variable {env : Environment}

theorem withVariable (wellFormed : env.WellFormed) {x : String} (name : IsName x) (v : Value) :
    (env.withVariable x (.value v)).WellFormed where
  values y outcome bound := by
    rw [values_withVariable] at bound
    by_cases same : x = y
    · subst same
      rw [if_pos rfl] at bound
      exact ⟨name, v, (Option.some.inj bound).symm⟩
    · rw [if_neg same] at bound
      exact wellFormed.values y outcome bound
  functions := wellFormed.functions

theorem withFunction (wellFormed : env.WellFormed) {f : String} (name : IsName f) {function : Callable}
    (written : function.WellFormed) : (env.withFunction f function).WellFormed where
  values := wellFormed.values
  functions g other bound := by
    rw [functions_withFunction] at bound
    by_cases same : f = g
    · subst same
      rw [if_pos rfl] at bound
      obtain rfl := Option.some.inj bound
      exact ⟨name, written⟩
    · rw [if_neg same] at bound
      exact wellFormed.functions g other bound

theorem withBuiltin (wellFormed : env.WellFormed) (function : Builtin) : (env.withBuiltin function).WellFormed :=
  wellFormed.withFunction (by cases function <;> decide) trivial

theorem callFrame (wellFormed : env.WellFormed) {parameters : List String} (names : ∀ x ∈ parameters, IsName x)
    (values : List Value) : (env.callFrame (parameters.zip (values.map .value))).WellFormed := by
  suffices ∀ frame : Environment, frame.WellFormed → ((parameters.zip (values.map Outcome.value)).foldl
      (fun frame binding => frame.withVariable binding.1 binding.2) frame).WellFormed from
    this _ ⟨by simp, wellFormed.functions⟩
  induction parameters generalizing values with
  | nil => exact fun frame wellFormed => wellFormed
  | cons x parameters ih =>
    intro frame wellFormed
    obtain ⟨name, names⟩ := List.forall_mem_cons.1 names
    cases values with
    | nil => exact wellFormed
    | cons v values => exact ih names values _ (wellFormed.withVariable name v)

end Environment.WellFormed

/-- What a step has left behind is in order: a result with the property or an error that
    carries no node, and a well-formed environment. -/
inductive Sound {α : Type} (P : α → Prop) : Evaluated α → Prop
  | value {a env calls} (wellFormed : env.WellFormed) (holds : P a) : Sound P ⟨.value a, env, calls⟩
  | error {reason env calls} (wellFormed : env.WellFormed) (plain : reason.node? = none) :
    Sound P ⟨.error reason, env, calls⟩

theorem Sound.environment {α : Type} {P : α → Prop} {ended : Evaluated α} (sound : Sound P ended) :
    ended.environment.WellFormed := by
  cases sound with
  | value wellFormed => exact wellFormed
  | error wellFormed => exact wellFormed

def Keeps {α : Type} (P : α → Prop) (step : Evaluation α) : Prop :=
  ∀ env ended, env.WellFormed → step env = some ended → Sound P ended

section Keeps
variable {α β : Type} {P : α → Prop} {Q : β → Prop}

theorem Keeps.bind {first : Evaluation α} {next : α → Evaluation β} (front : Keeps P first)
    (back : ∀ a, P a → Keeps Q (next a)) : Keeps Q (first >>= next) := by
  intro env ended wellFormed ran
  rcases bind_eq_some ran with ⟨reason, after, calls, began, rfl⟩ | ⟨a, middle, calls, later, began, continued, rfl⟩
  · cases front env _ wellFormed began with
    | error between plain => exact .error between plain
  · cases front env _ wellFormed began with
    | value between holds =>
      cases back a holds middle later between continued with
      | value after holds => exact .value after holds
      | error after plain => exact .error after plain

theorem callee_keeps (f : String) (actual : Nat) : Keeps Callable.WellFormed (callee f actual) := by
  intro env ended wellFormed ran
  rcases callee_cases f actual env with ⟨reason, plain, found⟩ | ⟨function, bound, _, found⟩
  · rw [found] at ran
    cases ran
    exact .error wellFormed plain
  · rw [found] at ran
    cases ran
    exact .value wellFormed (wellFormed.functions f function bound).2

theorem callHost_keeps (host : Host) (f : String) (function : HostFunction) (values : List Value) :
    Keeps (fun _ => True) (callHost host f function values) := by
  intro env ended wellFormed ran
  obtain ⟨outcome, plain, answered⟩ := callHost_eq host f function values
  rw [answered] at ran
  cases ran
  cases outcome with
  | value v => exact .value wellFormed trivial
  | error reason => exact .error wellFormed (plain reason rfl)

def Enclosing (call : Caller) : Prop :=
  ∀ parameters body values, (Callable.defined parameters body).WellFormed →
    Keeps (fun _ => True) (call parameters body values)

theorem apply_keeps (host : Host) {call : Caller} (enclosing : Enclosing call) (f : String) {function : Callable}
    (written : function.WellFormed) (values : List Value) : Keeps (fun _ => True) (apply host call f function values) := by
  cases function with
  | host function => exact callHost_keeps host f function values
  | defined parameters body => exact enclosing parameters body values written

theorem keeps_kept (host : Host) {call : Caller} (enclosing : Enclosing call) {parts : List Node}
    (wellFormed : ∀ part ∈ parts, part.WellFormed) :
    Kept (fun step _ => Keeps (fun _ => True) step) host call call parts where
  result a := by
    rintro env _ wellFormed ⟨⟩
    exact .value wellFormed trivial
  sequence front back := front.bind fun a _ => back a
  failure reason plain := by
    rintro env _ wellFormed ⟨⟩
    exact .error wellFormed plain
  syntaxError message within := by
    cases wellFormed _ within with
    | expression expression => cases expression
  lookup x _ := by
    rintro env _ inOrder ⟨⟩
    rcases found : env.values[x]? with _ | outcome
    · exact .value inOrder trivial
    · obtain ⟨_, v, rfl⟩ := inOrder.values x outcome found
      exact .value inOrder trivial
  assignment x e v within := by
    rintro env _ inOrder ⟨⟩
    cases wellFormed _ within with
    | expression expression => cases expression
    | assignment name => exact .value (inOrder.withVariable name v) trivial
  definition f parameters body within := by
    rintro env _ inOrder ⟨⟩
    cases wellFormed _ within with
    | expression expression => cases expression
    | definition name names each => exact .value (inOrder.withFunction name ⟨names, each⟩) trivial
  functionCall f arguments _ all := by
    rw [evaluateNode_call]
    exact (callee_keeps f _).bind fun function written => all.bind fun values _ =>
      apply_keeps host enclosing f written values

end Keeps

theorem callDefined_enclosing (host : Host) (depth : Nat) : Enclosing (callDefined host depth) := by
  induction depth with
  | zero => nofun
  | succ depth ih =>
    rintro parameters body values ⟨names, each⟩ env ended wellFormed ran
    obtain ⟨inner, entered, rfl⟩ := Option.map_eq_some_iff.1 ran
    have kept := keeps_kept host ih (Node.WellFormedBlock.parts each)
    have inOrder := kept.block .null body (fun _ => id) _ inner (wellFormed.callFrame names values) entered
    cases inOrder with
    | value _ holds => exact .value wellFormed holds
    | error _ plain => exact .error wellFormed plain

theorem evaluateBlock_keeps (host : Host) (depth : Nat) {nodes : List Node} (wellFormed : Node.WellFormedBlock nodes)
    (last : Value) : Keeps (fun _ => True) (evaluateBlock host (callDefined host depth) last nodes) :=
  (keeps_kept host (callDefined_enclosing host depth) (Node.WellFormedBlock.parts wellFormed)).block last nodes
    fun _ => id

end Scriptlet

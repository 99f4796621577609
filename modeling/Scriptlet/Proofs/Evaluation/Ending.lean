import Scriptlet.Proofs.Evaluation.Steps

namespace Scriptlet
open Evaluation

/-- Where the first evaluation answers, the second one gives the same answer. -/
def Extends {α : Type} (first second : Evaluation α) : Prop :=
  ∀ env ended, first env = some ended → second env = some ended

theorem Extends.bind {α β : Type} {first first' : Evaluation α} {next next' : α → Evaluation β}
    (front : Extends first first') (back : ∀ a, Extends (next a) (next' a)) :
    Extends (first >>= next) (first' >>= next') := by
  intro env ended answered
  rcases bind_eq_some answered with ⟨reason, after, calls, began, rfl⟩ | ⟨a, middle, calls, later, began, continued, rfl⟩
  · exact bind_error (front _ _ began)
  · rw [bind_value (front _ _ began), back a _ _ continued]
    rfl

def Further (call call' : Caller) : Prop :=
  ∀ ps body values, Extends (call ps body values) (call' ps body values)

theorem extends_kept (host : Host) {call call' : Caller} (further : Further call call') (parts : List Node) :
    Kept Extends host call call' parts where
  result _ _ _ := id
  sequence := Extends.bind
  failure _ _ _ _ := id
  syntaxError _ _ _ _ := id
  lookup _ _ _ _ := id
  assignment _ _ _ _ _ _ := id
  definition _ _ _ _ _ _ := id
  functionCall _ _ _ all :=
    Kept.functionCall_of_steps call call' Extends.bind (fun _ _ => id)
      (fun function values => match function with
        | .host _ => fun _ _ => id
        | .defined ps body => further ps body values) all

theorem callDefined_further (host : Host) (depth : Nat) :
    Further (callDefined host depth) (callDefined host (depth + 1)) := by
  induction depth with
  | zero => nofun
  | succ depth ih =>
    intro ps body values env ended answered
    rw [callDefined_succ] at answered ⊢
    obtain ⟨inner, ran, rfl⟩ := Option.map_eq_some_iff.1 answered
    have deeper : evaluate host (depth + 1) (.source body) _ = some inner :=
      (extends_kept host ih (Node.source body).parts).node (.source body) (fun _ => id) _ _ ran
    rw [deeper]
    rfl

theorem callDefined_mono (host : Host) {depth deeper : Nat} (le : depth ≤ deeper) :
    Further (callDefined host depth) (callDefined host deeper) := by
  induction le with
  | refl => exact fun _ _ _ _ _ => id
  | @step deeper _ ih =>
    intro ps body values env ended answered
    have answered := ih ps body values env ended answered
    exact callDefined_further host deeper ps body values env ended answered

/-- What is answered with calls nested so deep is answered with calls nested deeper. -/
theorem evaluate_mono {host : Host} {depth deeper : Nat} (le : depth ≤ deeper) {node : Node} {env : Environment}
    {ended : Evaluated Value} (answered : evaluate host depth node env = some ended) :
    evaluate host deeper node env = some ended :=
  (extends_kept host (callDefined_mono host le) node.parts).node node (fun _ => id) env ended answered

/-- The evaluation of the node in the environment ends with this result: it does so with
    some bound on the nesting of calls. -/
def Evaluates (host : Host) (node : Node) (env : Environment) (ended : Evaluated Value) : Prop :=
  ∃ depth, evaluate host depth node env = some ended

theorem Evaluates.unique {host : Host} {node : Node} {env : Environment} {ended other : Evaluated Value}
    (one : Evaluates host node env ended) (two : Evaluates host node env other) : ended = other := by
  obtain ⟨depth, one⟩ := one
  obtain ⟨depth', two⟩ := two
  have first := evaluate_mono (Nat.le_max_left depth depth') one
  have second := evaluate_mono (Nat.le_max_right depth depth') two
  rw [first] at second
  exact Option.some.inj second

end Scriptlet

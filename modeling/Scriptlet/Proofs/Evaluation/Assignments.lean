import Scriptlet.Proofs.Evaluation.Frame
import Scriptlet.Proofs.Evaluation.Noninterference

namespace Scriptlet
open Evaluation

section Values
variable {host : Host} {env after : Environment} {v : Value} {calls : List HostCall}

theorem evaluates_pair_iff {a b : Node} :
    Evaluates host (.source [a, b]) env ⟨.value v, after, calls⟩ ↔
      ∃ w middle first second, Evaluates host a env ⟨.value w, middle, first⟩ ∧
        Evaluates host b middle ⟨.value v, after, second⟩ ∧ calls = first ++ second := by
  have sequence : ∀ depth, evaluate host depth (.source [a, b]) = evaluate host depth a >>= fun _ => evaluate host depth b := by
    intro depth
    rw [evaluate, evaluateNode]
    simp only [evaluateBlock, bind_pure]
    rfl
  constructor
  · rintro ⟨depth, ran⟩
    rw [sequence] at ran
    rcases bind_eq_some ran with ⟨_, _, _, _, failed⟩ | ⟨w, middle, first, ⟨_, _, second⟩, began, continued, same⟩
    · cases failed
    · cases same
      exact ⟨w, middle, first, second, ⟨depth, began⟩, ⟨depth, continued⟩, rfl⟩
  · rintro ⟨w, middle, first, second, ⟨depth, began⟩, ⟨further, continued⟩, rfl⟩
    refine ⟨max depth further, ?_⟩
    rw [sequence, bind_value (evaluate_mono (Nat.le_max_left depth further) began),
      evaluate_mono (Nat.le_max_right depth further) continued]
    rfl

theorem evaluates_assignment_iff {x : String} {e : Node} :
    Evaluates host (.assignment x e) env ⟨.value v, after, calls⟩ ↔
      v = .null ∧ ∃ w middle, Evaluates host e env ⟨.value w, middle, calls⟩ ∧ after = middle.withVariable x (.value w) := by
  constructor
  · rintro ⟨depth, ran⟩
    rw [evaluate, evaluateNode] at ran
    rcases bind_eq_some ran with ⟨_, _, _, _, failed⟩ | ⟨w, middle, made, later, began, finished, same⟩
    · cases failed
    · cases finished
      cases same
      rw [List.append_nil]
      exact ⟨rfl, w, middle, ⟨depth, began⟩, rfl⟩
  · rintro ⟨rfl, w, middle, ⟨depth, ran⟩, rfl⟩
    refine ⟨depth, ?_⟩
    rw [evaluate, evaluateNode]
    refine (bind_value ran).trans ?_
    simp [assign]

end Values

section Unread
variable {host : Host} {env after : Environment} {e : Node} {x : String} {outcome : Outcome Value}
  {calls : List HostCall}

/-- An expression leaves the environment as it is. -/
theorem Evaluates.unmoved (expression : e.IsExpression) (ends : Evaluates host e env ⟨outcome, after, calls⟩) :
    after = env :=
  (ends.respects (respected_eq expression)).symm

/-- A variable that does not stand in an expression can be bound to anything. -/
theorem evaluates_withVariable_iff (expression : e.IsExpression) (unread : .var x ∉ e.parts) (bound : Outcome Value) :
    Evaluates host e (env.withVariable x bound) ⟨outcome, env.withVariable x bound, calls⟩ ↔
      Evaluates host e env ⟨outcome, env, calls⟩ := by
  have reads : ∀ y, .var y ∈ e.parts → y ≠ x := by
    rintro y within rfl
    exact unread within
  have agree : Agree (· ≠ x) env (env.withVariable x bound) := by
    refine ⟨rfl, fun y other => ?_⟩
    rw [Environment.values_withVariable, if_neg other.symm]
  constructor
  · intro ends
    obtain ⟨after, again, _⟩ := ends.repeats reads agree.symm
    rwa [again.unmoved expression] at again
  · intro ends
    obtain ⟨after, again, _⟩ := ends.repeats reads agree
    rwa [again.unmoved expression] at again

end Unread

theorem Environment.withVariable_comm {x y : String} (distinct : x ≠ y) (env : Environment) (v w : Outcome Value) :
    (env.withVariable x v).withVariable y w = (env.withVariable y w).withVariable x v := by
  refine Environment.ext (fun z => ?_) fun _ => rfl
  simp only [values_withVariable]
  split
  · subst z
    rw [if_neg distinct]
  · rfl

section Two
variable {host : Host} {env after : Environment} {x y : String} {e e' : Node} {v : Value} {calls : List HostCall}

/-- Two assignments of expressions, of which the second one does not read what the first one
    assigns, have values if both expressions have values where none of the two is assigned. -/
theorem evaluates_assignments_iff (expression : e.IsExpression) (expression' : e'.IsExpression)
    (unread : .var x ∉ e'.parts) :
    Evaluates host (.source [.assignment x e, .assignment y e']) env ⟨.value v, after, calls⟩ ↔
      v = .null ∧ ∃ w w' first second, Evaluates host e env ⟨.value w, env, first⟩ ∧
        Evaluates host e' env ⟨.value w', env, second⟩ ∧ calls = first ++ second ∧
        after = (env.withVariable x (.value w)).withVariable y (.value w') := by
  rw [evaluates_pair_iff]
  constructor
  · rintro ⟨_, _, first, second, one, two, rfl⟩
    obtain ⟨rfl, w, middle, ends, rfl⟩ := evaluates_assignment_iff.1 one
    obtain ⟨rfl, w', middle', ends', rfl⟩ := evaluates_assignment_iff.1 two
    obtain rfl := ends.unmoved expression
    obtain rfl := ends'.unmoved expression'
    exact ⟨rfl, w, w', first, second, ends, (evaluates_withVariable_iff expression' unread _).1 ends', rfl, rfl⟩
  · rintro ⟨rfl, w, w', first, second, ends, ends', rfl, rfl⟩
    have later := (evaluates_withVariable_iff expression' unread (.value w)).2 ends'
    exact ⟨.null, _, first, second, evaluates_assignment_iff.2 ⟨rfl, w, env, ends, rfl⟩,
      evaluates_assignment_iff.2 ⟨rfl, w', _, later, rfl⟩, rfl⟩

/-- Two assignments of expressions to different variables, of which neither reads the
    variable of the other, can be made in either order: if they have a value in one order,
    which is null, they have it in the other, and both orders leave the same environment.
    What the two expressions call of the host is the same, in the order of the two. -/
theorem evaluates_assignments_comm (distinct : x ≠ y) (expression : e.IsExpression) (expression' : e'.IsExpression)
    (unread : .var x ∉ e'.parts) (unread' : .var y ∉ e.parts)
    (ends : Evaluates host (.source [.assignment x e, .assignment y e']) env ⟨.value v, after, calls⟩) :
    v = .null ∧ ∃ first second, calls = first ++ second ∧
      Evaluates host (.source [.assignment y e', .assignment x e]) env ⟨.value .null, after, second ++ first⟩ := by
  obtain ⟨rfl, w, w', first, second, one, two, rfl, rfl⟩ := (evaluates_assignments_iff expression expression' unread).1 ends
  refine ⟨rfl, first, second, rfl, (evaluates_assignments_iff expression' expression unread').2 ?_⟩
  exact ⟨rfl, w', w, second, first, two, one, rfl, Environment.withVariable_comm distinct env _ _⟩

end Two

/-- A function that assigns both variables and defines a function, and a function of the
    host. -/
def Environment.shuffling : Environment :=
  withBuiltin (empty.withFunction "f" (.defined ["y"] [.assignment "x" (.var "y"), .assignment "y" (.bool true),
    .functionDef "f" [] [], .var "x"])) .not

def Environment.shuffled : Environment :=
  (shuffling.withVariable "x" (.value (.int 1))).withVariable "y" (.value (.bool true))

/-- The two assignments call the functions, and make the same environment in either
    order. -/
theorem evaluates_assignments_comm_shuffled :
    Evaluates .bare (.source [.assignment "x" (.call "f" [.int 1]), .assignment "y" (.call "not" [.var "y"])])
        .shuffling ⟨.value .null, .shuffled, [⟨.builtin .not, [.null]⟩]⟩ ∧
      ∃ calls, Evaluates .bare (.source [.assignment "y" (.call "not" [.var "y"]), .assignment "x" (.call "f" [.int 1])])
        .shuffling ⟨.value .null, .shuffled, calls⟩ := by
  have ends : Evaluates .bare (.source [.assignment "x" (.call "f" [.int 1]), .assignment "y" (.call "not" [.var "y"])])
      .shuffling ⟨.value .null, .shuffled, [⟨.builtin .not, [.null]⟩]⟩ := ⟨1, rfl⟩
  obtain ⟨_, first, second, _, swapped⟩ := evaluates_assignments_comm (by decide) (by decide) (by decide)
    (by simp [Node.parts, Node.partsOfAll]) (by simp [Node.parts, Node.partsOfAll]) ends
  exact ⟨ends, second ++ first, swapped⟩

end Scriptlet

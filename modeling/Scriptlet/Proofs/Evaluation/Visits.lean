import Scriptlet.Proofs.Evaluation.Calls
import Scriptlet.Proofs.Evaluation.Places

namespace Scriptlet
open Evaluation

/-- The evaluation of a node in an environment comes to the evaluation of a node in the
    second environment, at a place of the tree or of the body of a function that is
    called on the way. Neither of the two has to end. -/
inductive Visits (host : Host) : Node → Environment → Node → Environment → Prop
  | here {node env} : Visits host node env node env
  | inside {depth node env part middle calls inner there}
    (enters : Enters host (callDefined host depth) node env part middle calls)
    (visits : Visits host part middle inner there) : Visits host node env inner there
  | body {depth f arguments parameters body env middle calls inner there} {values : List Value}
    (found : callee f arguments.length env = some ⟨.value (.defined parameters body), env, []⟩)
    (ran : evaluateAll host (callDefined host depth) arguments env = some ⟨.value values, middle, calls⟩)
    (visits : Visits host (.source body) (middle.callFrame (parameters.zip (values.map .value))) inner there) :
    Visits host (.call f arguments) env inner there

theorem ended_carried (part : Evaluation Value) (there : Environment) :
    Carried (fun _ _ => True) (fun _ _ => True) (fun step env _ => ∀ ended, step env = some ended →
      ∃ within, part there = some within ∧ within.calls ⊆ ended.calls) where
  front holds _ ended ran := by
    rcases bind_eq_some ran with ⟨reason, after, calls, began, rfl⟩ | ⟨a, middle, calls, later, began, continued, rfl⟩
    · exact holds _ began
    · obtain ⟨within, reached, included⟩ := holds _ began
      exact ⟨within, reached, fun call made => List.mem_append_left _ (included made)⟩
  back began _ holds ended ran := by
    rw [bind_value began] at ran
    obtain ⟨later, continued, rfl⟩ := Option.map_eq_some_iff.1 ran
    obtain ⟨within, reached, included⟩ := holds later continued
    exact ⟨within, reached, fun call made => List.mem_append_right _ (included made)⟩

theorem Enters.ends {host : Host} {call : Caller} {node part : Node} {env there : Environment} {calls : List HostCall}
    (enters : Enters host call node env part there calls) {ended : Evaluated Value}
    (ran : evaluateNode host call node env = some ended) :
    ∃ within, evaluateNode host call part there = some within ∧ within.calls ⊆ ended.calls :=
  enters.carried (ended_carried _ there) (kept_always host call node.parts) (kept_always host call node.parts)
    (fun _ _ => trivial) (fun _ _ _ => trivial) (fun _ => id) [] (fun ended ran => ⟨ended, ran, fun _ => id⟩) ended ran

/-- Where an evaluation ends, so does all that it comes to, and its record has the calls of
    all that. -/
theorem Visits.ends {host : Host} {node inner : Node} {env there : Environment} (visits : Visits host node env inner there)
    {ended : Evaluated Value} (ends : Evaluates host node env ended) :
    ∃ within, Evaluates host inner there within ∧ within.calls ⊆ ended.calls := by
  induction visits generalizing ended with
  | here => exact ⟨ended, ends, fun _ => id⟩
  | @inside depth node env part middle calls inner there enters visits ih =>
    obtain ⟨further, ran⟩ := ends
    have enters := enters.mono (callDefined_mono host (Nat.le_max_left depth further))
    obtain ⟨part, reached, included⟩ := enters.ends (evaluate_mono (Nat.le_max_right depth further) ran)
    obtain ⟨deepest, reached, included'⟩ := ih ⟨_, reached⟩
    exact ⟨deepest, reached, fun call made => included (included' made)⟩
  | body found ran visits ih =>
    obtain ⟨within, entered, rfl⟩ := (evaluates_call_body_iff found (.of_evaluateAll ran) ended).1 ends
    obtain ⟨deepest, reached, included⟩ := ih entered
    exact ⟨deepest, reached, fun call made => List.mem_append_right _ (included made)⟩

end Scriptlet

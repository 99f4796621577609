import Scriptlet.Proofs.Evaluation.Ending

namespace Scriptlet
open Evaluation

/-- A function with this name and body is defined by one of the nodes, or inside the body
    of such a definition, at any depth. -/
inductive Defines : List Node → String → List Node → Prop
  | here {nodes f ps body} (within : .functionDef f ps body ∈ nodes) : Defines nodes f body
  | inside {nodes f ps body g inner} (within : .functionDef f ps body ∈ nodes)
    (defines : Defines (Node.partsOfAll body) g inner) : Defines nodes g inner

/-- A function of this name that has this body calls only functions of lower ranks. What
    the functions call that it defines does not count here. -/
def Descends (rank : String → Nat) (f : String) (body : List Node) : Prop :=
  ∀ g arguments, .call g arguments ∈ Node.partsOfAll body → rank g < rank f

/-- All functions descend that are defined by the nodes, or inside what they define. -/
def Ranked (rank : String → Nat) (nodes : List Node) : Prop := ∀ f body, Defines nodes f body → Descends rank f body

/-- All functions descend that programs have defined in the environment, and all that are
    defined inside them. -/
def Environment.Ranked (rank : String → Nat) (env : Environment) : Prop :=
  ∀ f ps body, env.functions[f]? = some (.defined ps body) →
    Descends rank f body ∧ Scriptlet.Ranked rank (Node.partsOfAll body)

section Ranked
variable {rank : String → Nat} {nodes body : List Node} {env : Environment} {f : String} {ps : List String}

theorem ranked_iff : Ranked rank nodes ↔ ∀ f ps body, .functionDef f ps body ∈ nodes →
    Descends rank f body ∧ Ranked rank (Node.partsOfAll body) := by
  constructor
  · intro ranked f ps body within
    exact ⟨ranked f body (.here within), fun g inner defines => ranked g inner (.inside within defines)⟩
  · intro each f body defines
    cases defines with
    | here within => exact (each f _ body within).1
    | inside within defines => exact (each _ _ _ within).2 f body defines

theorem Environment.Ranked.withFunction (ranked : env.Ranked rank) (descends : Descends rank f body)
    (inner : Scriptlet.Ranked rank (Node.partsOfAll body)) : (env.withFunction f (.defined ps body)).Ranked rank := by
  intro g qs other bound
  rw [functions_withFunction] at bound
  by_cases same : f = g
  · subst same
    rw [if_pos rfl] at bound
    cases bound
    exact ⟨descends, inner⟩
  · rw [if_neg same] at bound
    exact ranked g qs other bound

theorem Environment.Ranked.callFrame (ranked : env.Ranked rank) (bindings : List (String × Outcome Value)) :
    (env.callFrame bindings).Ranked rank := by
  intro g qs other bound
  rw [functions_callFrame] at bound
  exact ranked g qs other bound

end Ranked

/-- In ranked environments the step ends, with a value that has the property or with an
    error, and leaves a ranked environment. -/
def Ends (rank : String → Nat) {α : Type} (P : α → Prop) (step : Evaluation α) : Prop :=
  ∀ env, env.Ranked rank → ∃ ended, step env = some ended ∧ ended.environment.Ranked rank ∧
    ∀ a, ended.outcome = .value a → P a

section Ends
variable {rank : String → Nat} {α β : Type} {P : α → Prop} {Q : β → Prop}

theorem Ends.of_still {step : Evaluation α} (still : ∀ env, ∃ outcome calls, step env = some ⟨outcome, env, calls⟩) :
    Ends rank (fun _ => True) step := by
  intro env ranked
  obtain ⟨outcome, calls, ran⟩ := still env
  exact ⟨_, ran, ranked, fun _ _ => trivial⟩

theorem Ends.bind {first : Evaluation α} {next : α → Evaluation β} (front : Ends rank P first)
    (back : ∀ a, P a → Ends rank Q (next a)) : Ends rank Q (first >>= next) := by
  intro env ranked
  obtain ⟨⟨a | reason, middle, calls⟩, began, between, holds⟩ := front env ranked
  · obtain ⟨later, continued, after, property⟩ := back a (holds a rfl) middle between
    refine ⟨{ later with calls := calls ++ later.calls }, ?_, after, property⟩
    rw [bind_value began, continued]
    rfl
  · exact ⟨_, bind_error began, between, nofun⟩

theorem callee_ends (f : String) (actual : Nat) :
    Ends rank (fun function => ∀ ps body, function = .defined ps body →
      Descends rank f body ∧ Ranked rank (Node.partsOfAll body)) (callee f actual) := by
  intro env ranked
  rcases callee_cases f actual env with ⟨reason, _, failed⟩ | ⟨function, bound, _, found⟩
  · exact ⟨_, failed, ranked, nofun⟩
  · refine ⟨_, found, ranked, ?_⟩
    rintro _ ⟨⟩ ps body rfl
    exact ranked f ps body bound

theorem callHost_ends (host : Host) (f : String) (function : HostFunction) (values : List Value) :
    Ends rank (fun _ => True) (callHost host f function values) := by
  obtain ⟨outcome, _, answered⟩ := callHost_eq host f function values
  exact .of_still fun env => ⟨outcome, _, answered env⟩

/-- Calls of functions whose names have ranks below the bound end, if the functions
    descend. -/
def Answers (rank : String → Nat) (depth : Nat) (call : Caller) : Prop :=
  ∀ f ps body values, rank f < depth → Descends rank f body → Ranked rank (Node.partsOfAll body) →
    Ends rank (fun _ => True) (call ps body values)

theorem apply_ends (host : Host) {depth : Nat} {call : Caller} (answers : Answers rank depth call) {f : String}
    (below : rank f < depth) {function : Callable}
    (descends : ∀ ps body, function = .defined ps body → Descends rank f body ∧ Ranked rank (Node.partsOfAll body))
    (values : List Value) : Ends rank (fun _ => True) (apply host call f function values) := by
  cases function with
  | host function => exact callHost_ends host f function values
  | defined ps body =>
    obtain ⟨descends, inner⟩ := descends ps body rfl
    exact answers f ps body values below descends inner

theorem ends_kept (host : Host) {depth : Nat} {call : Caller} (answers : Answers rank depth call) {parts : List Node}
    (ranked : Ranked rank parts) (below : ∀ f arguments, .call f arguments ∈ parts → rank f < depth) :
    Kept (fun step _ => Ends rank (fun _ => True) step) host call call parts where
  result a := .of_still fun env => ⟨_, _, rfl⟩
  sequence front back := front.bind fun a _ => back a
  failure reason _ := .of_still fun env => ⟨_, _, rfl⟩
  syntaxError message _ := .of_still fun env => ⟨_, _, rfl⟩
  lookup x _ := .of_still fun env => ⟨_, _, rfl⟩
  assignment x e v _ := fun env orderly => ⟨_, rfl, orderly, fun _ _ => trivial⟩
  definition f ps body within := by
    intro env orderly
    obtain ⟨descends, inner⟩ := ranked_iff.1 ranked f ps body within
    exact ⟨_, rfl, orderly.withFunction descends inner, fun _ _ => trivial⟩
  functionCall f arguments within all := by
    rw [evaluateNode_call]
    exact (callee_ends f _).bind fun function descends => all.bind fun values _ =>
      apply_ends host answers (below f arguments within) descends values

/-- With every level of calls the bound on the ranks goes up by one: what a function calls
    has a lower rank than the function. -/
theorem callDefined_answers (host : Host) (depth : Nat) : Answers rank depth (callDefined host depth) := by
  induction depth with
  | zero => exact fun f _ _ _ below => absurd below (Nat.not_lt_zero _)
  | succ depth ih =>
    intro f ps body values below descends inner env orderly
    have lower : ∀ g arguments, .call g arguments ∈ Node.partsOfAll body → rank g < depth :=
      fun g arguments called => Nat.lt_of_lt_of_le (descends g arguments called) (Nat.le_of_lt_succ below)
    obtain ⟨ended, entered, _⟩ := (ends_kept host ih inner lower).block .null body (fun _ => id) _
      (orderly.callFrame (ps.zip (values.map .value)))
    have entered : evaluate host depth (.source body) _ = some ended := entered
    refine ⟨⟨ended.outcome, env, ended.calls⟩, ?_, orderly, fun _ _ => trivial⟩
    rw [callDefined_succ, entered]
    rfl

end Ends

theorem exists_rank_bound (rank : String → Nat) (nodes : List Node) :
    ∃ depth, ∀ f arguments, .call f arguments ∈ nodes → rank f < depth := by
  induction nodes with
  | nil => exact ⟨0, nofun⟩
  | cons node nodes ih =>
    obtain ⟨depth, below⟩ := ih
    by_cases called : ∃ f arguments, node = .call f arguments
    · obtain ⟨f, arguments, rfl⟩ := called
      refine ⟨max depth (rank f + 1), fun g others within => ?_⟩
      rcases List.mem_cons.1 within with same | later
      · cases same
        exact Nat.le_max_right _ _
      · exact Nat.lt_of_lt_of_le (below g others later) (Nat.le_max_left _ _)
    · refine ⟨depth, fun g others within => ?_⟩
      rcases List.mem_cons.1 within with same | later
      · exact absurd ⟨g, others, same.symm⟩ called
      · exact below g others later

/-- If functions can be given ranks by name in such a way that every function, in the
    environment or defined anywhere in the tree or inside another one, calls functions of
    lower ranks only, then the evaluation of the tree ends, with a value or an error,
    whichever functions are given new bodies on the way. Its calls nest no deeper than any
    bound above the ranks of the functions that the tree itself calls. -/
theorem evaluates_of_ranked (host : Host) {rank : String → Nat} {node : Node} {env : Environment}
    (tree : Ranked rank node.parts) (table : env.Ranked rank) :
    (∃ ended, Evaluates host node env ended) ∧
      ∀ depth, (∀ f arguments, .call f arguments ∈ node.parts → rank f < depth) →
        ∃ ended, evaluate host depth node env = some ended := by
  have within : ∀ depth, (∀ f arguments, .call f arguments ∈ node.parts → rank f < depth) →
      ∃ ended, evaluate host depth node env = some ended := by
    intro depth below
    obtain ⟨ended, ran, _⟩ := (ends_kept host (callDefined_answers host depth) tree below).node node (fun _ => id) env table
    exact ⟨ended, ran⟩
  obtain ⟨depth, below⟩ := exists_rank_bound rank node.parts
  obtain ⟨ended, ran⟩ := within depth below
  exact ⟨⟨ended, depth, ran⟩, within⟩

def Environment.layered : Environment :=
  empty.withFunction "f" (.defined [] [.functionDef "g" [] [.call "h" []], .call "g" []])

def Node.relayered : Node :=
  .source [.functionDef "h" [] [.int 1], .conditional (.call "f" []) [.functionDef "f" [] [.call "h" []]] none,
    .call "f" []]

/-- How many functions there are below each of the three. -/
def layer (name : String) : Nat := if name = "f" then 2 else if name = "g" then 1 else 0

/-- The functions descend in all their bodies, and so the program ends, with calls nested
    three deep. -/
theorem evaluates_of_ranked_layered :
    Ranked layer Node.relayered.parts ∧ Environment.layered.Ranked layer ∧
      (∃ ended, Evaluates .bare .relayered .layered ended) ∧ ∃ ended, evaluate .bare 3 .relayered .layered = some ended := by
  have descends : ∀ f g, layer g < layer f → Descends layer f [.call g []] := by
    intro f g lower h arguments called
    simp only [Node.partsOfAll, Node.parts, List.append_nil, List.mem_singleton, Node.call.injEq] at called
    rwa [called.1]
  have tree : Ranked layer Node.relayered.parts := by
    refine ranked_iff.2 fun f ps body within => ?_
    simp only [Node.relayered, Node.parts, Node.partsOfAll, List.cons_append, List.nil_append, List.mem_cons,
      List.not_mem_nil, reduceCtorEq, Node.functionDef.injEq, false_or, or_false] at within
    rcases within with ⟨rfl, rfl, rfl⟩ | ⟨rfl, rfl, rfl⟩
    · exact ⟨by simp [Descends, Node.partsOfAll, Node.parts], ranked_iff.2 (by simp [Node.partsOfAll, Node.parts])⟩
    · exact ⟨descends _ _ (by decide), ranked_iff.2 (by simp [Node.partsOfAll, Node.parts])⟩
  have table : Environment.layered.Ranked layer := by
    refine Environment.Ranked.withFunction (by simp [Environment.Ranked, Environment.empty]) ?_ (ranked_iff.2 ?_)
    · simp [Descends, Node.partsOfAll, Node.parts, layer]
    · intro f ps body within
      simp only [Node.partsOfAll, Node.parts, List.cons_append, List.nil_append, List.mem_cons, List.not_mem_nil,
        reduceCtorEq, Node.functionDef.injEq, or_false] at within
      obtain ⟨rfl, rfl, rfl⟩ := within
      exact ⟨descends _ _ (by decide), ranked_iff.2 (by simp [Node.partsOfAll, Node.parts])⟩
  obtain ⟨ends, within⟩ := evaluates_of_ranked .bare tree table
  exact ⟨tree, table, ends, within 3 (by simp [Node.relayered, Node.parts, Node.partsOfAll, layer])⟩

end Scriptlet

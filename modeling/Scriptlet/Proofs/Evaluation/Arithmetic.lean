import Scriptlet.Proofs.Evaluation.Sequences

namespace Scriptlet
open Evaluation

theorem Integer.text_eq_toString (i : Integer) : i.text = toString i.toInt := by
  rw [text]
  cases i.toInt with
  | ofNat n => rfl
  | negSucc n => exact if_pos (Int.negSucc_lt_zero n)

inductive Arithmetic where
  | int (value : Integer)
  | var (name : String)
  | plus (operand : Arithmetic)
  | minus (operand : Arithmetic)
  | add (left right : Arithmetic)
  | subtract (left right : Arithmetic)

namespace Arithmetic

def node : Arithmetic → Node
  | int i => .int i
  | var x => .var x
  | plus e => .plus e.node
  | minus e => .minus e.node
  | add l r => .add l.node r.node
  | subtract l r => .subtract l.node r.node

def names : Arithmetic → List String
  | int _ => []
  | var x => [x]
  | plus e => e.names
  | minus e => e.names
  | add l r => l.names ++ r.names
  | subtract l r => l.names ++ r.names

/-- The term and all terms in it, in the order in which they are evaluated: operands
    before the operation, and the left one before the right one. -/
def subterms : Arithmetic → List Arithmetic
  | int i => [int i]
  | var x => [var x]
  | plus e => e.subterms ++ [plus e]
  | minus e => e.subterms ++ [minus e]
  | add l r => l.subterms ++ r.subterms ++ [add l r]
  | subtract l r => l.subterms ++ r.subterms ++ [subtract l r]

variable (numbers : String → Integer)

/-- The exact value of a term, in range or not, where the variables are these numbers. -/
def exact : Arithmetic → Int
  | int i => i.toInt
  | var x => (numbers x).toInt
  | plus e => e.exact
  | minus e => -e.exact
  | add l r => l.exact + r.exact
  | subtract l r => l.exact - r.exact

/-- The last operation of a term, with the exact values of its operands. -/
def operation : Arithmetic → String
  | int i => toString i.toInt
  | var x => toString (numbers x).toInt
  | plus e => toString (e.exact numbers)
  | minus e => "-(" ++ toString (e.exact numbers) ++ ")"
  | add l r => toString (l.exact numbers) ++ " + " ++ toString (r.exact numbers)
  | subtract l r => toString (l.exact numbers) ++ " - " ++ toString (r.exact numbers)

def overflow (e : Arithmetic) : EvalError := .evaluator ("integer overflow in " ++ e.operation numbers) none

def Fits (e : Arithmetic) : Prop := Integer.InRange (e.exact numbers)

/-- The first of the terms whose exact value is no integer. -/
def FirstBeyond (terms : List Arithmetic) (part : Arithmetic) : Prop :=
  ∃ before after, terms = before ++ part :: after ∧ (∀ earlier ∈ before, earlier.Fits numbers) ∧ ¬ part.Fits numbers

variable {numbers}

theorem FirstBeyond.append {terms : List Arithmetic} {part : Arithmetic} (first : FirstBeyond numbers terms part)
    (later : List Arithmetic) : FirstBeyond numbers (terms ++ later) part := by
  obtain ⟨before, after, rfl, earlier, beyond⟩ := first
  exact ⟨before, after ++ later, by simp, earlier, beyond⟩

theorem FirstBeyond.after {terms earlier : List Arithmetic} {part : Arithmetic} (fit : ∀ e ∈ earlier, e.Fits numbers)
    (first : FirstBeyond numbers terms part) : FirstBeyond numbers (earlier ++ terms) part := by
  obtain ⟨before, after, rfl, earlier', beyond⟩ := first
  exact ⟨earlier ++ before, after, by simp, List.forall_mem_append.2 ⟨fit, earlier'⟩, beyond⟩

theorem firstBeyond_singleton {part : Arithmetic} (beyond : ¬ part.Fits numbers) : FirstBeyond numbers [part] part :=
  ⟨[], [], rfl, nofun, beyond⟩

/-- How the evaluation of a term should end: with its exact value if all subterms fit,
    and otherwise with the report of the first one that does not. -/
inductive Settled (numbers : String → Integer) (host : Host) (call : Caller) (env : Environment) (e : Arithmetic) : Prop
  | value {i : Integer} (fit : ∀ part ∈ e.subterms, part.Fits numbers) (same : i.toInt = e.exact numbers)
    (ran : evaluateNode host call e.node env = some ⟨.value (.int i), env, []⟩)
  | overflow {part : Arithmetic} (first : FirstBeyond numbers e.subterms part)
    (ran : evaluateNode host call e.node env = some ⟨.error (part.overflow numbers), env, []⟩)

section Steps
variable {host : Host} {call : Caller} {env : Environment} {e l r : Arithmetic}

theorem Settled.of_conclude {reason : EvalError} {operands : List Arithmetic}
    (ran : evaluateNode host call e.node env = conclude reason (Integer.ofInt? (e.exact numbers)) env)
    (subterms : e.subterms = operands ++ [e]) (fit : ∀ part ∈ operands, part.Fits numbers)
    (message : ¬ e.Fits numbers → reason = e.overflow numbers) : Settled numbers host call env e := by
  cases found : Integer.ofInt? (e.exact numbers) with
  | some i =>
    have same : i.toInt = e.exact numbers := Integer.ofInt?_eq_some_iff.1 found
    have fits : e.Fits numbers := by
      rw [Fits, ← same]
      exact i.inRange_toInt
    have all : ∀ part ∈ e.subterms, part.Fits numbers := by
      rw [subterms]
      exact List.forall_mem_append.2 ⟨fit, List.forall_mem_singleton.2 fits⟩
    refine .value all same ?_
    rw [ran, found]
    rfl
  | none =>
    have beyond : ¬ e.Fits numbers := Integer.ofInt?_eq_none_iff.1 found
    have first : FirstBeyond numbers e.subterms e := by
      rw [subterms]
      exact (firstBeyond_singleton beyond).after fit
    refine .overflow first ?_
    rw [ran, found, ← message beyond]
    rfl

theorem Settled.unary (reason : Integer → EvalError) (result : Int → Int)
    (evaluated : evaluateNode host call e.node = (do
      let i ← signed (← evaluateNode host call l.node)
      conclude (reason i) (Integer.ofInt? (result i.toInt))))
    (subterms : e.subterms = l.subterms ++ [e]) (exact : e.exact numbers = result (l.exact numbers))
    (message : ∀ i : Integer, i.toInt = l.exact numbers → ¬ e.Fits numbers → reason i = e.overflow numbers)
    (operand : Settled numbers host call env l) : Settled numbers host call env e := by
  cases operand with
  | @overflow part first ran =>
    have first : FirstBeyond numbers e.subterms part := by
      rw [subterms]
      exact first.append _
    refine .overflow first ?_
    rw [evaluated, bind_error ran]
  | @value i fit same ran =>
    refine .of_conclude ?_ subterms fit (message i same)
    rw [evaluated, bind_quiet ran, signed, pure_bind, same, exact]

theorem Settled.binary (reason : Integer → Integer → EvalError) (result : Int → Int → Int)
    (evaluated : evaluateNode host call e.node = (do
      let i ← operand (← evaluateNode host call l.node)
      let j ← operand (← evaluateNode host call r.node)
      conclude (reason i j) (Integer.ofInt? (result i.toInt j.toInt))))
    (subterms : e.subterms = l.subterms ++ r.subterms ++ [e])
    (exact : e.exact numbers = result (l.exact numbers) (r.exact numbers))
    (message : ∀ i j : Integer, i.toInt = l.exact numbers → j.toInt = r.exact numbers → reason i j = e.overflow numbers)
    (left : Settled numbers host call env l) (right : Settled numbers host call env r) :
    Settled numbers host call env e := by
  cases left with
  | @overflow part first ran =>
    have first : FirstBeyond numbers e.subterms part := by
      rw [subterms, List.append_assoc]
      exact first.append _
    refine .overflow first ?_
    rw [evaluated, bind_error ran]
  | @value i fit same ran =>
    cases right with
    | @overflow part first ran' =>
      have first : FirstBeyond numbers e.subterms part := by
        rw [subterms]
        exact (first.after fit).append _
      refine .overflow first ?_
      rw [evaluated, bind_quiet ran, operand, pure_bind, bind_error ran']
    | @value j fit' same' ran' =>
      refine .of_conclude ?_ subterms (List.forall_mem_append.2 ⟨fit, fit'⟩) fun _ => message i j same same'
      rw [evaluated, bind_quiet ran, operand, pure_bind, bind_quiet ran', operand, pure_bind, same, same', exact]

end Steps

theorem settled (host : Host) (call : Caller) {env : Environment} (e : Arithmetic)
    (bound : ∀ x ∈ e.names, env.values[x]? = some (.value (.int (numbers x)))) :
    Settled numbers host call env e := by
  induction e with
  | int i =>
    have fits : (int i).Fits numbers := i.inRange_toInt
    exact .value (List.forall_mem_singleton.2 fits) rfl rfl
  | var x =>
    have fits : (var x).Fits numbers := (numbers x).inRange_toInt
    have found : env.values[x]? = some (.value (.int (numbers x))) := bound x List.mem_cons_self
    refine .value (List.forall_mem_singleton.2 fits) rfl ?_
    rw [node, evaluateNode, lookup, found]
    rfl
  | plus e ih =>
    -- the sign does nothing, so there is nothing to report
    refine .unary .negationOverflow id ?_ rfl rfl ?_ (ih bound)
    · rw [node, evaluateNode]
      simp [conclude, orFail]
    · intro i same beyond
      refine absurd ?_ beyond
      rw [Fits, exact, ← same]
      exact i.inRange_toInt
  | minus e ih =>
    refine .unary .negationOverflow (- ·) ?_ rfl rfl ?_ (ih bound)
    · rw [node, evaluateNode]
      rfl
    · intro i same _
      have joined : "integer overflow in -(" = "integer overflow in " ++ "-(" := by decide
      rw [EvalError.negationOverflow, overflow, operation, i.text_eq_toString, same, joined]
      simp only [String.append_assoc]
  | add l r ihl ihr =>
    obtain ⟨left, right⟩ := List.forall_mem_append.1 bound
    refine .binary .sumOverflow (· + ·) ?_ rfl rfl ?_ (ihl left) (ihr right)
    · rw [node, evaluateNode]
      rfl
    · intro i j same same'
      rw [EvalError.sumOverflow, overflow, operation, i.text_eq_toString, j.text_eq_toString, same, same']
      simp only [String.append_assoc]
  | subtract l r ihl ihr =>
    obtain ⟨left, right⟩ := List.forall_mem_append.1 bound
    refine .binary .differenceOverflow (· - ·) ?_ rfl rfl ?_ (ihl left) (ihr right)
    · rw [node, evaluateNode]
      rfl
    · intro i j same same'
      rw [EvalError.differenceOverflow, overflow, operation, i.text_eq_toString, j.text_eq_toString, same, same']
      simp only [String.append_assoc]

end Arithmetic

/-- A term of integers, of variables that are integers, of signs, sums and differences has
    its exact value, if the exact values of all its subterms are in range. Otherwise there
    is a first subterm, operands before the operation and left before right, whose exact
    value is not, and it is reported with the exact values of its operands, by an error
    without a node. The environment stays as it is. -/
theorem evaluate_arithmetic (host : Host) (depth : Nat) (e : Arithmetic) {numbers : String → Integer} {env : Environment}
    (bound : ∀ x ∈ e.names, env.values[x]? = some (.value (.int (numbers x)))) :
    ((∀ part ∈ e.subterms, Integer.InRange (part.exact numbers)) ∧
      ∃ i : Integer, i.toInt = e.exact numbers ∧ evaluate host depth e.node env = some ⟨.value (.int i), env, []⟩) ∨
    ∃ before part after, e.subterms = before ++ part :: after ∧
      (∀ earlier ∈ before, Integer.InRange (earlier.exact numbers)) ∧ ¬ Integer.InRange (part.exact numbers) ∧
      evaluate host depth e.node env =
        some ⟨.error (.evaluator ("integer overflow in " ++ part.operation numbers) none), env, []⟩ := by
  cases e.settled host (callDefined host depth) bound with
  | @value i fit same ran => exact .inl ⟨fit, i, same, ran⟩
  | overflow first ran =>
    obtain ⟨before, after, split, earlier, beyond⟩ := first
    exact .inr ⟨before, _, after, split, earlier, beyond, ran⟩

/-- Sums of the opposite of the least integer and that integer itself, with a variable for
    it. -/
def Arithmetic.balanced : Arithmetic := .add (.int 1) (.add (.minus (.var "x")) (.plus (.var "x")))

def Environment.least : Environment := empty.withVariable "x" (.value (.int Int64.minValue))

/-- The exact value of the whole is 1, but that of an operand in it is out of range, and
    this operand is reported. -/
theorem evaluate_arithmetic_balanced :
    (∀ x ∈ Arithmetic.balanced.names, Environment.least.values[x]? = some (.value (.int Int64.minValue))) ∧
      Arithmetic.balanced.exact (fun _ => Int64.minValue) = 1 ∧
      evaluate .bare 0 Arithmetic.balanced.node .least =
        some ⟨.error (.evaluator "integer overflow in -(-9223372036854775808)" none), .least, []⟩ := by
  have bound : ∀ x ∈ Arithmetic.balanced.names,
      Environment.least.values[x]? = some (.value (.int Int64.minValue)) := by
    simp [Arithmetic.balanced, Arithmetic.names, Environment.least]
  have beyondRange : ¬ Integer.InRange ((Arithmetic.minus (.var "x")).exact fun _ => Int64.minValue) := by decide
  have text : "integer overflow in " ++ (Arithmetic.minus (.var "x")).operation (fun _ => Int64.minValue) =
      "integer overflow in -(-9223372036854775808)" := by decide +kernel
  refine ⟨bound, by decide, ?_⟩
  rcases evaluate_arithmetic .bare 0 .balanced bound with ⟨fit, _⟩ | ⟨before, part, after, split, earlier, beyond, ran⟩
  · exact absurd (fit (.minus (.var "x")) (by simp [Arithmetic.balanced, Arithmetic.subterms])) beyondRange
  · simp only [Arithmetic.balanced, Arithmetic.subterms, List.cons_append, List.nil_append] at split
    rcases before with _ | ⟨first, _ | ⟨second, _ | ⟨third, before⟩⟩⟩
    · cases split
      exact absurd (by decide) beyond
    · cases split
      exact absurd (by decide) beyond
    · cases split
      rw [ran, text]
    · simp only [List.cons_append, List.cons.injEq] at split
      obtain ⟨_, _, rfl, _⟩ := split
      exact absurd (earlier _ (by simp)) beyondRange

end Scriptlet

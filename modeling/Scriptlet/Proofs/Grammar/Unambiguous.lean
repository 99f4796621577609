import Scriptlet.Proofs.Grammar.Completeness

/-!
A list of tokens has at most one derivation. Where a production puts one phrase behind
another, a rule that reads the first one tells where it ends (`split_of_read`), so the
two parts of the tokens are determined and with them the two subtrees.
-/
namespace Scriptlet.Grammar
open Parsing

/-- If a rule reads either front and stops behind it, the same tokens have the same
    front. -/
theorem split_of_read {α : Type} (rule : List Token → Option (α × List Token)) {front front' rest rest' : List Token}
    {phrase phrase' : α} (read : rule (front ++ rest) = some (phrase, rest))
    (read' : rule (front' ++ rest') = some (phrase', rest')) (same : front ++ rest = front' ++ rest') :
    front = front' ∧ rest = rest' := by
  rw [same, read'] at read
  cases read
  exact ⟨List.append_cancel_right same, rfl⟩

theorem Signed.split {s s' : Signed} {o o' : Operands} (same : s.tokens ++ o.tokens = s'.tokens ++ o'.tokens) :
    s.tokens = s'.tokens ∧ o.tokens = o'.tokens := by
  have stops : ∀ o : Operands, o.tokens.head? ≠ some .leftParen := by
    intro o
    rw [← List.append_nil o.tokens]
    exact o.noParen nofun
  exact split_of_read (fun tokens => plain (signed tokens)) (s.read (stops o)) (s'.read (stops o')) same

theorem Expression.split {e e' : Expression} {rest rest' : List Token} (ends : Ends rest) (ends' : Ends rest')
    (same : e.tokens ++ rest = e'.tokens ++ rest') : e.tokens = e'.tokens ∧ rest = rest' :=
  split_of_read (fun tokens => plain (expression tokens)) (e.read ends) (e'.read ends') same

theorem MoreArguments.split {e e' : Expression} {m m' : MoreArguments}
    (same : e.tokens ++ m.tokens = e'.tokens ++ m'.tokens) : e.tokens = e'.tokens ∧ m.tokens = m'.tokens := by
  have stops : ∀ m : MoreArguments, Ends m.tokens := by
    intro m
    rw [← List.append_nil m.tokens]
    exact m.ends {}
  exact Expression.split (stops m) (stops m') same

theorem Statements.split {b b' : Statements} {rest rest' : List Token}
    (same : b.tokens ++ .rightBrace :: rest = b'.tokens ++ .rightBrace :: rest') :
    b.tokens = b'.tokens ∧ rest = rest' := by
  have split := split_of_read (fun tokens => some (statements tokens).plain) (congrArg some (b.read rest))
    (congrArg some (b'.read rest')) same
  simpa using split

theorem Statement.split {s s' : Statement} {b b' : Statements} (same : s.tokens ++ b.tokens = s'.tokens ++ b'.tokens) :
    s.tokens = s'.tokens ∧ b.tokens = b'.tokens := by
  have stops : ∀ b : Statements, NoAlternative b.tokens := by
    intro b
    rw [← List.append_nil b.tokens]
    exact b.noAlternative noAlternative_nil
  exact split_of_read (fun tokens => plain (statement tokens)) (s.read (stops b)) (s'.read (stops b')) same

theorem Value.unique {v w : Value} (same : v.tokens = w.tokens) : v = w := by
  rcases v with x | l <;> rcases w with y | k
  · cases same
    rfl
  · cases k <;> cases same
  · cases l <;> cases same
  · cases l <;> cases k <;> cases same <;> rfl

theorem FunctionCall.no_sign (c : FunctionCall) {token : Token} (other : ¬ beginsOperand token) (rest : List Token) :
    c.tokens ≠ token :: rest := by
  rw [← List.append_nil c.tokens]
  exact c.ne_cons other [] rest

theorem Expression.ne_nil (e : Expression) (rest : List Token) : e.tokens ++ rest ≠ [] := by
  obtain ⟨first, more, front, _⟩ := e.begins
  simp [front]

theorem Parenthesized.no_call (p : Parenthesized) (f : String) (after : List Token) :
    p.tokens ≠ .name f :: .leftParen :: after := by
  cases p with
  | inParens inner => simp [Parenthesized.tokens]
  | value v =>
    have noParen : ([] : List Token).head? ≠ some .leftParen := nofun
    simpa [Parenthesized.tokens] using v.no_call noParen f after

mutual
theorem Parenthesized.unique {p q : Parenthesized} (same : p.tokens = q.tokens) : p = q := by
  cases p with
  | inParens inner =>
    cases q with
    | inParens inner' =>
      simp only [Parenthesized.tokens, List.cons.injEq, true_and] at same
      rw [inner.unique (List.append_cancel_right same)]
    | value w =>
      have paren := congrArg List.head? same
      exact absurd paren.symm (by simpa [Parenthesized.tokens] using w.no_paren [])
  | value v =>
    cases q with
    | inParens inner =>
      have paren := congrArg List.head? same
      exact absurd paren (by simpa [Parenthesized.tokens] using v.no_paren [])
    | value w => rw [Value.unique same]
termination_by structural p

theorem FunctionCall.unique {c d : FunctionCall} (same : c.tokens = d.tokens) : c = d := by
  cases c with
  | call f a =>
    cases d with
    | call g b =>
      simp only [FunctionCall.tokens, List.cons.injEq, Token.name.injEq, true_and] at same
      rw [same.1, a.unique (List.append_cancel_right same.2)]
    | parenthesized q => exact absurd same.symm (q.no_call _ _)
  | parenthesized p =>
    cases d with
    | call g b => exact absurd same (p.no_call _ _)
    | parenthesized q => rw [Parenthesized.unique same]
termination_by structural c

theorem Signed.unique {s t : Signed} (same : s.tokens = t.tokens) : s = t := by
  cases s with
  | plus s =>
    cases t with
    | plus t => rw [s.unique (List.tail_eq_of_cons_eq same)]
    | minus t => simp [Signed.tokens] at same
    | unsigned d => exact absurd same.symm (d.no_sign (by decide) _)
  | minus s =>
    cases t with
    | plus t => simp [Signed.tokens] at same
    | minus t => rw [s.unique (List.tail_eq_of_cons_eq same)]
    | unsigned d => exact absurd same.symm (d.no_sign (by decide) _)
  | unsigned c =>
    cases t with
    | plus t => exact absurd same (c.no_sign (by decide) _)
    | minus t => exact absurd same (c.no_sign (by decide) _)
    | unsigned d => rw [c.unique same]
termination_by structural s

theorem Expression.unique {e f : Expression} (same : e.tokens = f.tokens) : e = f := by
  obtain ⟨first, more⟩ := e
  obtain ⟨first', more'⟩ := f
  obtain ⟨front, back⟩ := Signed.split same
  rw [first.unique front, more.unique back]
termination_by structural e

theorem Operands.unique {o p : Operands} (same : o.tokens = p.tokens) : o = p := by
  cases o with
  | done => cases p <;> simp [Operands.tokens] at same ⊢
  | plus s o =>
    cases p with
    | plus t p =>
      obtain ⟨front, back⟩ := Signed.split (List.tail_eq_of_cons_eq same)
      rw [s.unique front, o.unique back]
    | _ => simp [Operands.tokens] at same
  | minus s o =>
    cases p with
    | minus t p =>
      obtain ⟨front, back⟩ := Signed.split (List.tail_eq_of_cons_eq same)
      rw [s.unique front, o.unique back]
    | _ => simp [Operands.tokens] at same
termination_by structural o

theorem Arguments.unique {a b : Arguments} (same : a.tokens = b.tokens) : a = b := by
  cases a with
  | none =>
    cases b with
    | none => rfl
    | some e m => exact absurd same.symm (Expression.ne_nil e m.tokens)
  | some e m =>
    cases b with
    | none => exact absurd same (Expression.ne_nil e m.tokens)
    | some f n =>
      obtain ⟨front, back⟩ := MoreArguments.split same
      rw [e.unique front, m.unique back]
termination_by structural a

theorem MoreArguments.unique {m n : MoreArguments} (same : m.tokens = n.tokens) : m = n := by
  cases m with
  | done => cases n <;> simp [MoreArguments.tokens] at same ⊢
  | comma e m =>
    cases n with
    | done => simp [MoreArguments.tokens] at same
    | comma f n =>
      obtain ⟨front, back⟩ := MoreArguments.split (List.tail_eq_of_cons_eq same)
      rw [e.unique front, m.unique back]
termination_by structural m
end

theorem parameters_split {xs ys : List String} {rest rest' : List Token}
    (same : parameterTokens xs ++ .rightParen :: rest = parameterTokens ys ++ .rightParen :: rest') :
    xs = ys ∧ rest = rest' := by
  have read := plain_names xs rest
  rw [same, plain_names ys rest'] at read
  cases read
  exact ⟨rfl, rfl⟩

theorem Expression.not_assignment (e : Expression) (x : String) (rest : List Token) :
    e.tokens ++ [.semicolon] ≠ .name x :: .equals :: rest := by
  intro same
  have stops : Ends (.equals :: rest) := {}
  have split := Expression.split {} stops (same.trans (by rfl : _ = (Expression.ofName x).tokens ++ .equals :: rest))
  cases split.2

theorem Statement.ne_nil (s : Statement) (rest : List Token) : s.tokens ++ rest ≠ [] := by
  obtain ⟨first, more, front, _⟩ := s.begins
  simp [front]

mutual
theorem Statement.unique {s t : Statement} (same : s.tokens = t.tokens) : s = t := by
  cases s with
  | expression e =>
    cases t with
    | expression f => rw [Expression.unique (List.append_cancel_right same)]
    | assignment x f => exact absurd same (e.not_assignment x _)
    | _ => exact absurd same (e.ne_cons (by decide) _ _)
  | assignment x e =>
    cases t with
    | expression f => exact absurd same.symm (f.not_assignment x _)
    | assignment y f =>
      simp only [Statement.tokens, List.cons.injEq, Token.name.injEq, true_and] at same
      rw [same.1, Expression.unique (List.append_cancel_right same.2)]
    | _ => simp [Statement.tokens] at same
  | conditional c yes no =>
    cases t with
    | expression f => exact absurd same.symm (f.ne_cons (by decide) _ _)
    | conditional d yes' no' =>
      have stops : ∀ rest, Ends (.rightParen :: rest) := fun rest => {}
      simp only [Statement.tokens, List.cons.injEq, true_and] at same
      obtain ⟨front, same⟩ := Expression.split (stops _) (stops _) same
      simp only [List.cons.injEq, true_and] at same
      obtain ⟨middle, back⟩ := Statements.split same
      rw [Expression.unique front, yes.unique middle, no.unique back]
    | _ => simp [Statement.tokens] at same
  | definition f ps body =>
    cases t with
    | expression e => exact absurd same.symm (e.ne_cons (by decide) _ _)
    | definition g qs body' =>
      simp only [Statement.tokens, List.cons.injEq, Token.name.injEq, true_and] at same
      obtain ⟨rfl, same⟩ := same
      obtain ⟨rfl, back⟩ := parameters_split same
      rw [body.unique (List.append_cancel_right (List.tail_eq_of_cons_eq back))]
    | _ => simp [Statement.tokens] at same
termination_by structural s

theorem Alternative.unique {a b : Alternative} (same : a.tokens = b.tokens) : a = b := by
  cases a with
  | none => cases b <;> simp [Alternative.tokens] at same ⊢
  | block body =>
    cases b with
    | none => simp [Alternative.tokens] at same
    | block body' =>
      simp only [Alternative.tokens, List.cons.injEq, true_and] at same
      rw [body.unique (List.append_cancel_right same)]
termination_by structural a

theorem Statements.unique {b b' : Statements} (same : b.tokens = b'.tokens) : b = b' := by
  cases b with
  | done =>
    cases b' with
    | done => rfl
    | more s others => exact absurd same.symm (s.ne_nil _)
  | more s others =>
    cases b' with
    | done => exact absurd same (s.ne_nil _)
    | more s' others' =>
      obtain ⟨front, back⟩ := Statement.split same
      rw [s.unique front, others.unique back]
termination_by structural b
end

end Scriptlet.Grammar

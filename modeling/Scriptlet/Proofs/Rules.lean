import Scriptlet.Parsing

/-!
What each rule reads, stated on phrases and remaining tokens alone, without the record
that the rest is shorter (`plain`). The equations say for every list of tokens which
alternative gets its turn; nothing else opens the rules.
-/
namespace Scriptlet.Parsing
variable {α β : Type} {tokens rest : List Token}

/-- The phrase that was read and the tokens that follow it. -/
def plain : Option (Reading α tokens) → Option (α × List Token) :=
  Option.map fun reading => (reading.phrase, reading.rest)

def Extent.plain (extent : Extent α tokens) : α × List Token := (extent.phrase, extent.rest)

/-- The phrase, if this token follows it, and the tokens that follow the token. -/
def closes (closing : Token) (read : α × List Token) : Option (α × List Token) :=
  match read.2 with
  | token :: rest => if token = closing then some (read.1, rest) else none
  | [] => none

@[simp] theorem plain_none : plain (none : Option (Reading α tokens)) = none := rfl
@[simp] theorem plain_some (reading : Reading α tokens) : plain (some reading) = some (reading.phrase, reading.rest) := rfl
@[simp] theorem closes_same (closing : Token) (phrase : α) (rest : List Token) :
    closes closing (phrase, closing :: rest) = some (phrase, rest) := by
  simp [closes]

theorem closes_eq_some_iff {closing : Token} {read after : α × List Token} :
    closes closing read = some after ↔ read = (after.1, closing :: after.2) := by
  rcases read with ⟨phrase, _ | ⟨token, rest⟩⟩
  · simp [closes]
  · by_cases same : token = closing
    · simp [closes, same, Prod.ext_iff]
    · simp [closes, same]

theorem closes_eq_none {closing : Token} {phrase : α} {rest : List Token} (other : rest.head? ≠ some closing) :
    closes closing (phrase, rest) = none := by
  cases rest with
  | nil => rfl
  | cons token rest => simpa [closes] using other

theorem plain_shorter {reading : Option (Reading α tokens)} {phrase : α}
    (read : plain reading = some (phrase, rest)) : rest.length < tokens.length := by
  cases reading with
  | none => cases read
  | some reading =>
    cases read
    exact reading.shorter

@[simp] theorem plain_map (f : α → β) {later : List Token} (reading : Option (Reading α later))
    (longer : later.length ≤ tokens.length) :
    plain (reading.map fun r => r.map f longer : Option (Reading β tokens)) =
      (plain reading).map fun read => (f read.1, read.2) := by
  cases reading <;> rfl

@[simp] theorem plain_closedBy (closing : Token) (reading : Option (Reading α tokens)) :
    plain (reading.bind (·.closedBy closing)) = (plain reading).bind (closes closing) := by
  rcases reading with _ | ⟨phrase, _ | ⟨token, rest⟩, shorter⟩
  · rfl
  · rfl
  · by_cases same : token = closing <;> simp [Reading.closedBy, closes, same]

@[simp] theorem Extent.plain_closedBy (closing : Token) (extent : Extent α tokens) :
    Parsing.plain (extent.closedBy closing) = closes closing extent.plain := by
  rcases extent with ⟨phrase, _ | ⟨token, rest⟩, noLonger⟩
  · rfl
  · by_cases same : token = closing <;> simp [Extent.closedBy, Extent.plain, closes, same]

@[simp] theorem Extent.plain_map (f : α → β) {later : List Token} (extent : Extent α later)
    (longer : later.length ≤ tokens.length) :
    (extent.map f longer : Extent β tokens).plain = (f extent.plain.1, extent.plain.2) := rfl

theorem plain_orElse (first second : Option (Reading α tokens)) :
    plain (first <|> second) = (plain first).or (plain second) := by
  cases first <;> rfl

theorem plain_expression (tokens : List Token) :
    plain (expression tokens) = (plain (signed tokens)).map fun read => (operands read.1 read.2).plain := by
  rw [expression]
  cases signed tokens <;> rfl

theorem plain_operands_plus (left : Node) (rest : List Token) :
    (operands left (.plus :: rest)).plain =
      match plain (signed rest) with
      | some (right, after) => (operands (.add left right) after).plain
      | none => (left, .plus :: rest) := by
  rw [operands]
  cases signed rest <;> rfl

theorem plain_operands_minus (left : Node) (rest : List Token) :
    (operands left (.minus :: rest)).plain =
      match plain (signed rest) with
      | some (right, after) => (operands (.subtract left right) after).plain
      | none => (left, .minus :: rest) := by
  rw [operands]
  cases signed rest <;> rfl

theorem plain_operands_other (left : Node) (noPlus : rest.head? ≠ some .plus) (noMinus : rest.head? ≠ some .minus) :
    (operands left rest).plain = (left, rest) := by
  unfold operands
  split <;> simp_all [Extent.plain]

theorem plain_signed_plus (rest : List Token) :
    plain (signed (.plus :: rest)) = (plain (signed rest)).map fun read => (.plus read.1, read.2) := by
  rw [signed]
  cases signed rest <;> rfl

theorem plain_signed_minus (rest : List Token) :
    plain (signed (.minus :: rest)) = (plain (signed rest)).map fun read => (.minus read.1, read.2) := by
  rw [signed]
  cases signed rest <;> rfl

theorem plain_signed_other (noPlus : tokens.head? ≠ some .plus) (noMinus : tokens.head? ≠ some .minus) :
    plain (signed tokens) = plain (functionCall tokens) := by
  unfold signed
  split <;> simp_all

theorem plain_functionCall_call (f : String) (rest : List Token) :
    plain (functionCall (.name f :: .leftParen :: rest)) =
      ((closes .rightParen (arguments rest).plain).map fun read => (.call f read.1, read.2)).or
        (plain (parenthesized (.name f :: .leftParen :: rest))) := by
  rw [functionCall, plain_orElse]
  congr 1
  rw [← Extent.plain_closedBy]
  cases (arguments rest).closedBy .rightParen <;> rfl

theorem plain_functionCall_other (noCall : ∀ f after, tokens ≠ .name f :: .leftParen :: after) :
    plain (functionCall tokens) = plain (parenthesized tokens) := by
  unfold functionCall
  split
  · exact absurd rfl (noCall _ _)
  · rfl

theorem plain_parenthesized_paren (rest : List Token) :
    plain (parenthesized (.leftParen :: rest)) = (plain (expression rest)).bind (closes .rightParen) := by
  rw [parenthesized, ← plain_closedBy]
  cases (expression rest).bind (·.closedBy .rightParen) <;> rfl

theorem plain_parenthesized_other (noParen : tokens.head? ≠ some .leftParen) :
    plain (parenthesized tokens) = plain (value tokens) := by
  unfold parenthesized
  split <;> simp_all

theorem plain_arguments (tokens : List Token) :
    (arguments tokens).plain =
      match plain (expression tokens) with
      | some (first, rest) => (first :: (moreArguments rest).plain.1, (moreArguments rest).plain.2)
      | none => ([], tokens) := by
  rw [arguments]
  cases expression tokens <;> rfl

theorem plain_moreArguments_comma (rest : List Token) :
    (moreArguments (.comma :: rest)).plain =
      match plain (expression rest) with
      | some (next, after) => (next :: (moreArguments after).plain.1, (moreArguments after).plain.2)
      | none => ([], .comma :: rest) := by
  rw [moreArguments]
  cases expression rest <;> rfl

theorem plain_moreArguments_other (noComma : rest.head? ≠ some .comma) :
    (moreArguments rest).plain = ([], rest) := by
  unfold moreArguments
  split <;> simp_all [Extent.plain]

theorem plain_moreNames_comma (x : String) (rest : List Token) :
    (moreNames (.comma :: .name x :: rest)).plain = (x :: (moreNames rest).plain.1, (moreNames rest).plain.2) := rfl

theorem plain_names_name (x : String) (rest : List Token) :
    (names (.name x :: rest)).plain = (x :: (moreNames rest).plain.1, (moreNames rest).plain.2) := rfl

theorem plain_assignment (x : String) (rest : List Token) :
    plain (assignment (.name x :: .equals :: rest)) =
      (plain (expression rest)).map fun read => (.assignment x read.1, read.2) := by
  rw [assignment]
  cases expression rest <;> rfl

theorem plain_assignment_other (noEquals : ∀ x after, tokens ≠ .name x :: .equals :: after) :
    plain (assignment tokens) = none := by
  unfold assignment
  split
  · exact absurd rfl (noEquals _ _)
  · rfl

/-- The four kinds of statement, in the order in which they are tried. -/
theorem plain_statement (tokens : List Token) :
    plain (statement tokens) =
      ((plain (expression tokens)).bind (closes .semicolon)).or
        (((plain (assignment tokens)).bind (closes .semicolon)).or
          ((plain (conditional tokens)).or (plain (definition tokens)))) := by
  rw [statement, plain_orElse, plain_orElse, plain_orElse, plain_closedBy, plain_closedBy]

theorem plain_conditional (rest : List Token) :
    plain (conditional (.ifWord :: .leftParen :: rest)) =
      ((plain (expression rest)).bind (closes .rightParen)).bind fun condition =>
        (plain (block condition.2)).map fun yes =>
          (.conditional condition.1 yes.1 (alternative yes.2).plain.1, (alternative yes.2).plain.2) := by
  rw [conditional, ← plain_closedBy]
  rcases (expression rest).bind (·.closedBy .rightParen) with _ | ⟨condition, after, _⟩
  · rfl
  · simp only [plain_some, Option.bind_some, Option.bind_eq_bind]
    cases block after <;> rfl

theorem plain_conditional_other (noCondition : ∀ after, tokens ≠ .ifWord :: .leftParen :: after) :
    plain (conditional tokens) = none := by
  unfold conditional
  split
  · exact absurd rfl (noCondition _)
  · rfl

theorem plain_alternative_else (rest : List Token) :
    (alternative (.name "else" :: rest)).plain =
      match plain (block rest) with
      | some (no, after) => (some no, after)
      | none => (none, .name "else" :: rest) := by
  rw [alternative]
  cases block rest <;> rfl

theorem plain_alternative_other (noElse : tokens.head? ≠ some (.name "else")) :
    (alternative tokens).plain = (none, tokens) := by
  unfold alternative
  split <;> simp_all [Extent.plain]

theorem plain_definition (f : String) (rest : List Token) :
    plain (definition (.defWord :: .name f :: .leftParen :: rest)) =
      (closes .rightParen (names rest).plain).bind fun parameters =>
        (plain (block parameters.2)).map fun body => (.functionDef f parameters.1 body.1, body.2) := by
  rw [definition, ← Extent.plain_closedBy]
  rcases (names rest).closedBy .rightParen with _ | ⟨parameters, after, _⟩
  · rfl
  · simp only [plain_some, Option.bind_some, Option.bind_eq_bind]
    cases block after <;> rfl

theorem plain_definition_other (noName : ∀ f after, tokens ≠ .defWord :: .name f :: .leftParen :: after) :
    plain (definition tokens) = none := by
  unfold definition
  split
  · exact absurd rfl (noName _ _)
  · rfl

theorem plain_block (rest : List Token) :
    plain (block (.leftBrace :: rest)) = closes .rightBrace (statements rest).plain := by
  rw [block, ← Extent.plain_closedBy]
  cases (statements rest).closedBy .rightBrace <;> rfl

theorem plain_block_other (noBrace : tokens.head? ≠ some .leftBrace) : plain (block tokens) = none := by
  unfold block
  split <;> simp_all

theorem plain_statements (tokens : List Token) :
    (statements tokens).plain =
      match plain (statement tokens) with
      | some (first, rest) => (first :: (statements rest).plain.1, (statements rest).plain.2)
      | none => ([], tokens) := by
  rw [statements]
  cases statement tokens <;> rfl

theorem program_of_statement {first : Node} (read : plain (statement tokens) = some (first, rest)) :
    program tokens = (program rest).map (first :: ·) := by
  cases tokens with
  | nil => exact absurd (plain_shorter read) (Nat.not_lt_zero _)
  | cons token tokens =>
    cases reading : statement (token :: tokens) with
    | none => simp [reading] at read
    | some reading =>
      rw [reading] at read
      cases read
      rw [program, reading]
      rfl

theorem program_of_none {token : Token} (unread : plain (statement (token :: rest)) = none) :
    program (token :: rest) = .error ⟨token, rest.head?⟩ := by
  have unread : statement (token :: rest) = none := by simpa [plain] using unread
  rw [program, unread]
  rfl

end Scriptlet.Parsing

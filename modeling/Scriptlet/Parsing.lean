import Scriptlet.Token.Lexeme
import Scriptlet.Node

/-!
Recursive descent over a list of tokens. Alternatives that begin alike are tried in
order, the next one from the same place where the one before it failed, and what may be
repeated is repeated as long as it can be read. What a rule reads is shorter by at least
one token, which the type `Reading` records; this is why the rules end. The rules:

    program       = statement*
    statement     = expression ";" / assignment ";" / conditional / definition
    assignment    = name "=" expression
    conditional   = "if" "(" expression ")" block [ "else" block ]
    definition    = "def" name "(" [ name ("," name)* ] ")" block
    block         = "{" statement* "}"
    expression    = signed (("+" | "-") signed)*
    signed        = "+" signed / "-" signed / functionCall
    functionCall  = name "(" [ expression ("," expression)* ] ")" / parenthesized
    parenthesized = "(" expression ")" / value
    value         = name | number | truth value | "null"

The word "else" is an ordinary name everywhere but behind the block of an "if", and
even there if no complete block follows it.
-/
namespace Scriptlet

/-- Why a list of tokens is not a program: no statement begins at this token. The token
    after it is kept for the message. -/
structure SyntaxError where
  unexpected : Token
  next : Option Token
  deriving DecidableEq, Repr

def SyntaxError.message (error : SyntaxError) : String :=
  "Unexpected tokens `" ++ error.unexpected.kind ++ "`, `" ++
    (error.next.map Token.kind).getD "end of input" ++ "`"

namespace Parsing

/-- A phrase read from the front of `tokens`, and the tokens that follow it. At least
    one token was read. -/
structure Reading (α : Type) (tokens : List Token) where
  phrase : α
  rest : List Token
  shorter : rest.length < tokens.length := by grind

/-- A phrase that may be empty, read from the front of `tokens` as far as it goes, and
    the tokens that follow it. -/
structure Extent (α : Type) (tokens : List Token) where
  phrase : α
  rest : List Token
  noLonger : rest.length ≤ tokens.length := by grind

variable {α β : Type} {tokens later : List Token}

namespace Reading

def map (f : α → β) (reading : Reading α later) (longer : later.length ≤ tokens.length := by grind) :
    Reading β tokens :=
  ⟨f reading.phrase, reading.rest, Nat.lt_of_lt_of_le reading.shorter longer⟩

/-- The reading together with the token that has to follow. -/
def closedBy (closing : Token) : Reading α tokens → Option (Reading α tokens)
  | ⟨phrase, token :: rest, shorter⟩ =>
    if token = closing then some ⟨phrase, rest, Nat.lt_of_succ_lt shorter⟩ else none
  | _ => none

end Reading

namespace Extent

def map (f : α → β) (extent : Extent α later) (longer : later.length ≤ tokens.length := by grind) :
    Extent β tokens :=
  ⟨f extent.phrase, extent.rest, Nat.le_trans extent.noLonger longer⟩

def closedBy (closing : Token) : Extent α tokens → Option (Reading α tokens)
  | ⟨phrase, token :: rest, noLonger⟩ =>
    if token = closing then some ⟨phrase, rest, noLonger⟩ else none
  | _ => none

end Extent

/-- More names, each behind a comma. A comma that no name follows is left alone. -/
def moreNames : (tokens : List Token) → Extent (List String) tokens
  | .comma :: .name x :: rest => (moreNames rest).map (x :: ·)
  | tokens => { phrase := [], rest := tokens }

def names : (tokens : List Token) → Extent (List String) tokens
  | .name x :: rest => (moreNames rest).map (x :: ·)
  | tokens => { phrase := [], rest := tokens }

def value : (tokens : List Token) → Option (Reading Node tokens)
  | .name x :: rest => some { phrase := .var x, rest }
  | .int i :: rest => some { phrase := .int i, rest }
  | .bool b :: rest => some { phrase := .bool b, rest }
  | .null :: rest => some { phrase := .null, rest }
  | _ => none

mutual
def expression (tokens : List Token) : Option (Reading Node tokens) := do
  let ⟨first, rest, _⟩ ← signed tokens
  let ⟨phrase, rest, _⟩ := operands first rest
  return { phrase, rest }
termination_by (tokens.length, 3)

/-- More operands, each behind its sign. What stands to the left has been read, and the
    next operand is added to it or subtracted from it: sums lean to the left. A sign that
    no operand follows is left alone. -/
def operands (left : Node) (tokens : List Token) : Extent Node tokens :=
  match tokens with
  | .plus :: rest =>
    match signed rest with
    | some ⟨right, after, _⟩ => (operands (.add left right) after).map id
    | none => { phrase := left, rest := .plus :: rest }
  | .minus :: rest =>
    match signed rest with
    | some ⟨right, after, _⟩ => (operands (.subtract left right) after).map id
    | none => { phrase := left, rest := .minus :: rest }
  | tokens => { phrase := left, rest := tokens }
termination_by (tokens.length, 0)

def signed (tokens : List Token) : Option (Reading Node tokens) :=
  match tokens with
  | .plus :: rest => do return (← signed rest).map .plus
  | .minus :: rest => do return (← signed rest).map .minus
  | tokens => functionCall tokens
termination_by (tokens.length, 2)

/-- A call; what is no call may still be a name, a literal or stand in parentheses. -/
def functionCall (tokens : List Token) : Option (Reading Node tokens) :=
  (match tokens with
    | .name f :: .leftParen :: rest => do return (← (arguments rest).closedBy .rightParen).map (.call f)
    | _ => none)
    <|> parenthesized tokens
termination_by (tokens.length, 1)

def parenthesized (tokens : List Token) : Option (Reading Node tokens) :=
  match tokens with
  | .leftParen :: rest => do return (← (expression rest).bind (·.closedBy .rightParen)).map id
  | tokens => value tokens
termination_by (tokens.length, 0)

def arguments (tokens : List Token) : Extent (List Node) tokens :=
  match expression tokens with
  | some ⟨first, rest, _⟩ => (moreArguments rest).map (first :: ·)
  | none => { phrase := [], rest := tokens }
termination_by (tokens.length, 4)

def moreArguments (tokens : List Token) : Extent (List Node) tokens :=
  match tokens with
  | .comma :: rest =>
    match expression rest with
    | some ⟨next, after, _⟩ => (moreArguments after).map (next :: ·)
    | none => { phrase := [], rest := .comma :: rest }
  | tokens => { phrase := [], rest := tokens }
termination_by (tokens.length, 0)
end

def assignment (tokens : List Token) : Option (Reading Node tokens) :=
  match tokens with
  | .name x :: .equals :: rest => do return (← expression rest).map (.assignment x)
  | _ => none

mutual
/-- A statement. An expression is tried before an assignment: a name on its own is an
    expression, and only the missing semicolon gives the assignment its turn. -/
def statement (tokens : List Token) : Option (Reading Node tokens) :=
  (expression tokens).bind (·.closedBy .semicolon)
    <|> (assignment tokens).bind (·.closedBy .semicolon)
    <|> conditional tokens
    <|> definition tokens
termination_by (tokens.length, 1)

def conditional (tokens : List Token) : Option (Reading Node tokens) :=
  match tokens with
  | .ifWord :: .leftParen :: rest => do
    let ⟨condition, rest, _⟩ ← (expression rest).bind (·.closedBy .rightParen)
    let ⟨yes, rest, _⟩ ← block rest
    let ⟨no, rest, _⟩ := alternative rest
    return { phrase := .conditional condition yes no, rest }
  | _ => none
termination_by (tokens.length, 0)

def alternative (tokens : List Token) : Extent (Option (List Node)) tokens :=
  match tokens with
  | .name "else" :: rest =>
    match block rest with
    | some ⟨no, after, _⟩ => { phrase := some no, rest := after }
    | none => { phrase := none, rest := .name "else" :: rest }
  | tokens => { phrase := none, rest := tokens }
termination_by (tokens.length, 0)

def definition (tokens : List Token) : Option (Reading Node tokens) :=
  match tokens with
  | .defWord :: .name f :: .leftParen :: rest => do
    let ⟨parameters, rest, _⟩ ← (names rest).closedBy .rightParen
    return (← block rest).map (.functionDef f parameters)
  | _ => none
termination_by (tokens.length, 0)

def block (tokens : List Token) : Option (Reading (List Node) tokens) :=
  match tokens with
  | .leftBrace :: rest => do return (← (statements rest).closedBy .rightBrace).map id
  | _ => none
termination_by (tokens.length, 0)

def statements (tokens : List Token) : Extent (List Node) tokens :=
  match statement tokens with
  | some ⟨first, rest, _⟩ => (statements rest).map (first :: ·)
  | none => { phrase := [], rest := tokens }
termination_by (tokens.length, 2)
end

/-- The statements of a program. The first one that cannot be read decides the error,
    whatever comes after it. -/
def program (tokens : List Token) : Except SyntaxError (List Node) :=
  match tokens with
  | [] => .ok []
  | token :: rest => do
    match statement (token :: rest) with
    | some ⟨first, rest, _⟩ => return first :: (← program rest)
    | none => throw ⟨token, rest.head?⟩
termination_by tokens.length
decreasing_by assumption

end Parsing

/-- The tree of a program, or a node that stands for its syntax error. -/
def parse (tokens : List Token) : Node :=
  match Parsing.program tokens with
  | .ok statements => .source statements
  | .error error => .syntaxError error.message

def parseText (source : String) : Node := parse (tokenize source)

end Scriptlet

import Scriptlet.Parsing

/-!
The context-free grammar of the language as derivation trees. Each nonterminal is a type
and each of its productions a constructor, so every tree is a derivation. A tree derives
the tokens at its leaves (`tokens`) and stands for a syntax tree (`node`).

    Literal       ::= number | truth value | "null"
    Value         ::= name | Literal
    Parenthesized ::= "(" Expression ")" | Value
    FunctionCall  ::= name "(" Arguments ")" | Parenthesized
    Signed        ::= "+" Signed | "-" Signed | FunctionCall
    Expression    ::= Signed Operands
    Operands      ::= ε | "+" Signed Operands | "-" Signed Operands
    Arguments     ::= ε | Expression MoreArguments
    MoreArguments ::= ε | "," Expression MoreArguments
    Statement     ::= Expression ";" | name "=" Expression ";"
                    | "if" "(" Expression ")" "{" Statements "}" Alternative
                    | "def" name "(" [ name ("," name)* ] ")" "{" Statements "}"
    Alternative   ::= ε | "else" "{" Statements "}"
    Statements    ::= ε | Statement Statements

Nothing here is read from left to right, tried in order or taken greedily: which
derivations a list of tokens has is left to the trees.
-/
namespace Scriptlet.Grammar

inductive Literal where
  | int (value : Integer)
  | bool (value : Bool)
  | null

inductive Value where
  | name (spelling : String)
  | literal (literal : Literal)

mutual
inductive Parenthesized where
  | inParens (inner : Expression)
  | value (value : Value)

inductive FunctionCall where
  | call (function : String) (arguments : Arguments)
  | parenthesized (inner : Parenthesized)

inductive Signed where
  | plus (operand : Signed)
  | minus (operand : Signed)
  | unsigned (operand : FunctionCall)

inductive Expression where
  | chain (first : Signed) (more : Operands)

inductive Operands where
  | done
  | plus (next : Signed) (more : Operands)
  | minus (next : Signed) (more : Operands)

inductive Arguments where
  | none
  | some (first : Expression) (more : MoreArguments)

inductive MoreArguments where
  | done
  | comma (next : Expression) (more : MoreArguments)
end

mutual
inductive Statement where
  | expression (value : Expression)
  | assignment (name : String) (value : Expression)
  | conditional (condition : Expression) (yes : Statements) (no : Alternative)
  | definition (name : String) (parameters : List String) (body : Statements)

inductive Alternative where
  | none
  | block (statements : Statements)

inductive Statements where
  | done
  | more (first : Statement) (others : Statements)
end

/-- A program is a list of statements. -/
abbrev Program := Statements

def Literal.tokens : Literal → List Token
  | int i => [.int i]
  | bool b => [.bool b]
  | null => [.null]

def Value.tokens : Value → List Token
  | name x => [.name x]
  | literal l => l.tokens

mutual
def Parenthesized.tokens : Parenthesized → List Token
  | .inParens inner => .leftParen :: (inner.tokens ++ [.rightParen])
  | .value v => v.tokens

def FunctionCall.tokens : FunctionCall → List Token
  | .call f arguments => .name f :: .leftParen :: (arguments.tokens ++ [.rightParen])
  | .parenthesized inner => inner.tokens

def Signed.tokens : Signed → List Token
  | .plus operand => .plus :: operand.tokens
  | .minus operand => .minus :: operand.tokens
  | .unsigned operand => operand.tokens

def Expression.tokens : Expression → List Token
  | .chain first more => first.tokens ++ more.tokens

def Operands.tokens : Operands → List Token
  | .done => []
  | .plus next more => .plus :: (next.tokens ++ more.tokens)
  | .minus next more => .minus :: (next.tokens ++ more.tokens)

def Arguments.tokens : Arguments → List Token
  | .none => []
  | .some first more => first.tokens ++ more.tokens

def MoreArguments.tokens : MoreArguments → List Token
  | .done => []
  | .comma next more => .comma :: (next.tokens ++ more.tokens)
end

def parameterTokens : List String → List Token
  | [] => []
  | x :: xs => .name x :: xs.flatMap fun y => [.comma, .name y]

mutual
def Statement.tokens : Statement → List Token
  | .expression value => value.tokens ++ [.semicolon]
  | .assignment x value => .name x :: .equals :: (value.tokens ++ [.semicolon])
  | .conditional condition yes no =>
    .ifWord :: .leftParen :: (condition.tokens ++ .rightParen :: .leftBrace :: (yes.tokens ++ .rightBrace :: no.tokens))
  | .definition f parameters body =>
    .defWord :: .name f :: .leftParen ::
      (parameterTokens parameters ++ .rightParen :: .leftBrace :: (body.tokens ++ [.rightBrace]))

def Alternative.tokens : Alternative → List Token
  | .none => []
  | .block statements => .name "else" :: .leftBrace :: (statements.tokens ++ [.rightBrace])

def Statements.tokens : Statements → List Token
  | .done => []
  | .more first others => first.tokens ++ others.tokens
end

def Literal.node : Literal → Node
  | int i => .int i
  | bool b => .bool b
  | null => .null

def Value.node : Value → Node
  | name x => .var x
  | literal l => l.node

mutual
/-- Parentheses leave no trace. -/
def Parenthesized.node : Parenthesized → Node
  | .inParens inner => inner.node
  | .value v => v.node

def FunctionCall.node : FunctionCall → Node
  | .call f arguments => .call f arguments.nodes
  | .parenthesized inner => inner.node

def Signed.node : Signed → Node
  | .plus operand => .plus operand.node
  | .minus operand => .minus operand.node
  | .unsigned operand => operand.node

def Expression.node : Expression → Node
  | .chain first more => more.node first.node

/-- Chains lean to the left: the next operand joins all that stands before it. -/
def Operands.node (left : Node) : Operands → Node
  | .done => left
  | .plus next more => more.node (.add left next.node)
  | .minus next more => more.node (.subtract left next.node)

def Arguments.nodes : Arguments → List Node
  | .none => []
  | .some first more => first.node :: more.nodes

def MoreArguments.nodes : MoreArguments → List Node
  | .done => []
  | .comma next more => next.node :: more.nodes
end

mutual
def Statement.node : Statement → Node
  | .expression value => value.node
  | .assignment x value => .assignment x value.node
  | .conditional condition yes no => .conditional condition.node yes.nodes no.nodes
  | .definition f parameters body => .functionDef f parameters body.nodes

/-- An absent branch and an empty one are told apart. -/
def Alternative.nodes : Alternative → Option (List Node)
  | .none => none
  | .block statements => some statements.nodes

def Statements.nodes : Statements → List Node
  | .done => []
  | .more first others => first.node :: others.nodes
end

end Scriptlet.Grammar

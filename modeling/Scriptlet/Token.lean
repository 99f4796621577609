import Scriptlet.Integer
import Scriptlet.Token.Quoted

namespace Scriptlet

/-- A unit of program text. A character that begins nothing else, and the first digit
    of a number that is too large, stay in the list as `unknown`, for the parser to
    refuse. -/
inductive Token where
  | equals | plus | minus | times | divide
  | leftParen | rightParen | leftBrace | rightBrace | comma | semicolon
  | ifWord | defWord | null
  | bool (value : Bool)
  | int (value : Integer)
  | name (spelling : String)
  | string (content : String)
  | unknown (character : Char)
  deriving DecidableEq, Repr

namespace Token

def ofPunctuation? : Char → Option Token
  | '=' => some .equals
  | '+' => some .plus
  | '-' => some .minus
  | '*' => some .times
  | '/' => some .divide
  | '(' => some .leftParen
  | ')' => some .rightParen
  | '{' => some .leftBrace
  | '}' => some .rightBrace
  | ',' => some .comma
  | ';' => some .semicolon
  | _ => none

/-- The token of a word: five words are reserved, every other one is a name. -/
def ofWord : String → Token
  | "if" => .ifWord
  | "def" => .defWord
  | "true" => .bool true
  | "false" => .bool false
  | "null" => .null
  | word => .name word

def text : Token → String
  | equals => "="
  | plus => "+"
  | minus => "-"
  | times => "*"
  | divide => "/"
  | leftParen => "("
  | rightParen => ")"
  | leftBrace => "\x7b"
  | rightBrace => "\x7d"
  | comma => ","
  | semicolon => ";"
  | ifWord => "if"
  | defWord => "def"
  | null => "null"
  | bool true => "true"
  | bool false => "false"
  | int i => i.text
  | name spelling => spelling
  | string content => String.ofList (Quoted.quote content.toList)
  | unknown c => String.singleton c

def kind : Token → String
  | equals => "Equal"
  | plus => "Plus"
  | minus => "Minus"
  | times => "Mul"
  | divide => "Div"
  | leftParen => "LParen"
  | rightParen => "RParen"
  | leftBrace => "LBrace"
  | rightBrace => "RBrace"
  | comma => "Comma"
  | semicolon => "Semicolon"
  | ifWord => "If"
  | defWord => "Def"
  | null => "Null"
  | bool _ => "Bool"
  | int _ => "Int"
  | name _ => "Ident"
  | string _ => "StringLiteral"
  | unknown _ => "UnknownCharacter"

def listText (tokens : List Token) : String := " ".intercalate (tokens.map text)

end Token
end Scriptlet

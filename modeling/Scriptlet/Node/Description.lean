import Scriptlet.Node

namespace Scriptlet
namespace Description

def bracketed (items : List String) : String := "[" ++ ", ".intercalate items ++ "]"

def labelled (label : String) (parts : List String) : String :=
  label ++ "(" ++ ", ".intercalate parts ++ ")"

/-- Text in double quotes, as it is. -/
def inQuotes (text : String) : String := "\"" ++ text ++ "\""

def ofName (name : String) : String := labelled "Identifier" [inQuotes name]

end Description

namespace Node
open Description (bracketed labelled inQuotes)

mutual
/-- The description of a tree on one line: a node is its kind with its parts in parentheses,
    and lists stand in square brackets. -/
def describe : Node → String
  | source body => labelled "Source" [bracketed (describeList body)]
  | functionDef f ps body =>
    labelled "FuncDef" [Description.ofName f, bracketed (ps.map Description.ofName), bracketed (describeList body)]
  | assignment x e => labelled "Assignment" [Description.ofName x, e.describe]
  | conditional c yes none => labelled "If" [c.describe, bracketed (describeList yes), "None"]
  | conditional c yes (some no) =>
    labelled "If" [c.describe, bracketed (describeList yes), labelled "Some" [bracketed (describeList no)]]
  | add l r => labelled "Add" [l.describe, r.describe]
  | subtract l r => labelled "Sub" [l.describe, r.describe]
  | plus e => labelled "UnaryPlus" [e.describe]
  | minus e => labelled "UnaryMinus" [e.describe]
  | var x => labelled "Variable" [Description.ofName x]
  | call f args => labelled "FuncCall" [Description.ofName f, bracketed (describeList args)]
  | int i => labelled "IntLiteral" [i.text]
  | bool b => labelled "BoolLiteral" [if b then "true" else "false"]
  | null => "NullLiteral"
  | syntaxError m => labelled "SyntaxError" [inQuotes m]
def describeList : List Node → List String
  | [] => []
  | node :: nodes => node.describe :: describeList nodes
end

end Node
end Scriptlet

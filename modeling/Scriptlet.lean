import Scriptlet.Main
import Scriptlet.Proofs.Evaluation.Frame
import Scriptlet.Proofs.Evaluation.Noninterference
import Scriptlet.Proofs.Evaluation.Contexts
import Scriptlet.Proofs.Evaluation.HostCalls
import Scriptlet.Proofs.Evaluation.Arithmetic
import Scriptlet.Proofs.Evaluation.Ranks
import Scriptlet.Proofs.Evaluation.Assignments
import Scriptlet.Proofs.Lexemes.Split
import Scriptlet.Proofs.Printing
import Scriptlet.Proofs.Entries
import Scriptlet.Proofs.Reachable
import Scriptlet.Proofs.Lexemes.Ordered
import Scriptlet.Proofs.Lexemes.Printed
import Scriptlet.Proofs.Lexemes.Newline
import Scriptlet.Proofs.SyntaxErrors
import Scriptlet.Proofs.Values
import Scriptlet.Proofs.Braces
import Scriptlet.Proofs.Nesting

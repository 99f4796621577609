import Scriptlet.CommandLine

/-!
The program: arguments, files and streams, around `Scriptlet.CommandLine.run`. Entries
are taken one by one, so that each is answered before the next one is read.
-/
namespace Scriptlet.CommandLine

def Finished.print (finished : Finished) : IO UInt32 := do
  IO.print finished.output.out
  (← IO.getStdout).flush
  IO.eprint finished.output.err
  return finished.code

partial def enterInput (env : Environment) (lines : String) : IO UInt32 := do
  let line ← (← IO.getStdin).getLine
  if line.isEmpty then
    Finished.print ⟨0, farewell⟩
  else
    match Entry.read lines line with
    | .unfinished lines => enterInput env lines
    | .entry text =>
      let (output, env) := Console.enter defaultDepth env text
      let _ ← Finished.print ⟨0, output⟩
      enterInput env ""

def readContents (name : String) : IO FileContents := do
  try
    return .ofBytes (← IO.FS.readBinFile name)
  catch
    | .noFileOrDirectory .. => return .missing
    | failure => return .unreadable (toString failure)

end Scriptlet.CommandLine

open Scriptlet.CommandLine in
def main (arguments : List String) : IO UInt32 := do
  match command arguments with
  | .start ⟨_, prelude, none⟩ =>
    let _ ← Finished.print ⟨0, welcome⟩
    enterInput (Scriptlet.Console.environment prelude) ""
  | .start ⟨true, prelude, some name⟩ =>
    (runFile Scriptlet.defaultDepth prelude name (← readContents name)).print
  | _ => (run Scriptlet.defaultDepth (fun _ => .missing) arguments "").print

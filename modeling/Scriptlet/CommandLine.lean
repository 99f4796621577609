import Scriptlet.Console

namespace Scriptlet.CommandLine

/-- How a program is to be run: the contents are a program text, or the name of a file
    that holds one. Without contents, entries are read from the standard input. -/
structure Options where
  isFile : Bool
  prelude : Bool
  contents : Option String
  deriving DecidableEq, Repr

inductive Command where
  | version
  | start (options : Options)
  | unexpected (argument : String)
  deriving DecidableEq, Repr

/-- An argument that stands for itself. Only one is allowed. -/
def positional (options : Options) (argument : String) : Option Options :=
  if options.contents.isNone then some { options with contents := some argument } else none

def positionals (options : Options) : List String → Command
  | [] => .start options
  | argument :: arguments =>
    match positional options argument with
    | some options => positionals options arguments
    | none => .unexpected argument

/-- An argument that begins with a dash and is longer than that is meant as an option. -/
def looksLikeOption (argument : String) : Bool :=
  argument.toList.head? = some '-' && argument ≠ "-"

/-- What arguments ask for, after some that gave the options so far. Left out are the option
    for log lines, which show the time, the one for help, several short options in one
    argument and the refusal of an option that is given twice: the first three are
    unexpected here, and an option given twice counts once. -/
def commandFrom (options : Options) : List String → Command
  | [] => .start options
  | "--" :: arguments => positionals options arguments
  | "--version" :: _ => .version
  | "-V" :: _ => .version
  | "--file" :: arguments => commandFrom { options with isFile := true } arguments
  | "-f" :: arguments => commandFrom { options with isFile := true } arguments
  | "--no-prelude" :: arguments => commandFrom { options with prelude := false } arguments
  | argument :: arguments =>
    if looksLikeOption argument then .unexpected argument
    else match positional options argument with
      | some options => commandFrom options arguments
      | none => .unexpected argument

def command (arguments : List String) : Command := commandFrom ⟨false, true, none⟩ arguments

inductive FileContents where
  | text (contents : String)
  | unreadable (reason : String)
  deriving DecidableEq, Repr

namespace FileContents

def missing : FileContents := unreadable "No such file or directory (os error 2)"

def ofBytes (bytes : ByteArray) : FileContents :=
  match String.fromUTF8? bytes with
  | some contents => text contents
  | none => unreadable "stream did not contain valid UTF-8"

end FileContents

/-- What a finished program leaves: its exit code and what it printed. -/
structure Finished where
  code : UInt32
  output : Output

def versionText : String := "sprig 0.1.0"

def welcome : Output := Output.line "sprig v0.1.0" ++ Output.line "Press Ctrl-D to quit" ++ Output.line ""

def farewell : Output := Output.line "quit"

def unreadable (name reason : String) : Finished :=
  ⟨1, Output.errorLine ("Error: Failed to read " ++ name ++ "\n\nCaused by:\n    " ++ reason)⟩

def unexpected (argument : String) : Finished :=
  ⟨2, Output.errorLine ("error: unexpected argument '" ++ argument ++ "' found")⟩

def runScript (depth : Nat) (prelude : Bool) (source : String) : Finished :=
  let (output, failed) := Console.script depth (Console.environment prelude) source
  ⟨if failed then 1 else 0, output⟩

def runFile (depth : Nat) (prelude : Bool) (name : String) : FileContents → Finished
  | .text source => runScript depth prelude source
  | .unreadable reason => unreadable name reason

/-- A whole run of the program. -/
def run (depth : Nat) (files : String → FileContents) (arguments : List String) (input : String) : Finished :=
  match command arguments with
  | .version => ⟨0, Output.line versionText⟩
  | .unexpected argument => unexpected argument
  | .start ⟨false, prelude, some source⟩ => runScript depth prelude source
  | .start ⟨true, prelude, some name⟩ => runFile depth prelude name (files name)
  | .start ⟨_, prelude, none⟩ =>
    ⟨0, welcome ++ Console.enterAll depth (Console.environment prelude) (Entry.ofInput input) ++ farewell⟩

end Scriptlet.CommandLine

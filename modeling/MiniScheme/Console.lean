import MiniScheme.Console.Options
import MiniScheme.Console.Lines

/-!
# The console program

The program evaluates the files named on its command line and then reads inputs line by line. An
input is complete as soon as no parenthesis in it is left open; until then further lines are
added to it. Complete inputs are evaluated, and the answer to each is one line of output.

Between inputs, blank lines are skipped and the word `exit` ends the session. The session also
ends with the input, or at a line that cannot be read.
-/

namespace MiniScheme.Console

open Interpreter (State)

/-! ## Complete inputs -/

/-- Opening minus closing parentheses in the remaining characters, added to `count`; comments are
left out. -/
def balanceFrom (inComment : Bool) (count : Int) : List Char → Int
  | [] => count
  | c :: cs =>
      if inComment then balanceFrom (c != '\n') count cs
      else if c = '(' then balanceFrom false (count + 1) cs
      else if c = ')' then balanceFrom false (count - 1) cs
      else balanceFrom (c = ';') count cs

/-- Whether no parenthesis of a text is left open. -/
def isComplete (source : String) : Bool := balanceFrom false 0 source.toList ≤ 0

/-- Whether a line holds nothing but white space. -/
def isBlankLine (line : String) : Bool := line.toList.all Text.isBlank

/-- Whether a line is the word that ends the session, in any letter case. -/
def isExit (line : String) : Bool :=
  (Text.trimChars line.toList).map Char.toLower == "exit".toList

/-! ## One line after the other -/

/-- The interpreter and the lines of an input that is not complete yet. -/
structure Prompt where
  state : State
  pending : String

/-- What a line leads to. -/
inductive Turn where
  | quit
  | next (output : Option String) (prompt : Prompt)

/-- Reads one line. -/
def Prompt.line (p : Prompt) (line : String) : Turn :=
  if p.pending = "" ∧ isBlankLine line then .next none p
  else if p.pending = "" ∧ isExit line then .quit
  else
    let source := p.pending ++ line ++ "\n"
    if isComplete source then
      let answer := p.state.respond source
      .next answer.1 ⟨answer.2, ""⟩
    else .next none ⟨p.state, source⟩

/-- The last line of a session. -/
def farewell : String := "bye bye!"

/-- What is printed when a line is not valid text. -/
def invalidLine : String :=
  "Error: Io(Error \x7b kind: InvalidData, message: \"" ++ FileFault.notUtf8.message ++ "\" \x7d)"

/-- How a session ends. -/
inductive Ending where
  /-- At the end of the input, or because a line asks for it. -/
  | regular
  /-- At a line that is not valid text. -/
  | invalid
  /-- At a line whose backspaces would cut a character. -/
  | broken
  deriving DecidableEq, Repr

/-- The lines printed at the end of a session. -/
def Ending.output : Ending → List String
  | .regular => [farewell]
  | .invalid => [invalidLine, farewell]
  | .broken => []

/-- The exit code of a session. -/
def Ending.code : Ending → Nat
  | .regular | .invalid => 0
  | .broken => 1

/-- The lines printed for the remaining input, and how the session ends. An input that is not
complete by then is dropped. -/
def Prompt.answers (p : Prompt) : List Line → List String × Ending
  | [] => ([], .regular)
  | .invalid :: _ => ([], .invalid)
  | .broken :: _ => ([], .broken)
  | .text line :: lines =>
      match p.line line with
      | .quit => ([], .regular)
      | .next output p' =>
          let others := p'.answers lines
          (output.toList ++ others.1, others.2)

/-! ## The whole program -/

/-- The first line of a session. -/
def greeting : String := "framelisp version 0.1.0"

/-- The lines that explain the command line. -/
def help : List String :=
  ["Usage: framelisp [options] [FILE...]",
    "Evaluates each FILE, then starts an interactive session.",
    "Options:",
    "  -h, --help: Print this help message",
    "  --max-depth <n>: Maximum nesting of procedure calls (default: " ++ defaultLimit.repr ++ ")",
    "  --stack-size <bytes>: Interpreter thread stack size (default: 256m)"]

/-- Whether some argument asks for help. -/
def wantsHelp (arguments : List String) : Bool :=
  arguments.any fun argument => argument == "-h" || argument == "--help"

/-- What the command line makes the program do. -/
inductive Plan where
  | help
  | refuse (fault : OptionFault)
  | start (options : Options)

/-- Asking for help comes before everything else. -/
def Plan.ofArguments (arguments : List String) : Plan :=
  if wantsHelp arguments then .help
  else
    match Options.ofArguments arguments with
    | .error fault => .refuse fault
    | .ok options => .start options

/-- Evaluates one file; an error gives a line for the error output. -/
def load (state : State) (path : String) (content : FileContent) : Option String × State :=
  match state.evalFile content with
  | (.ok _, state') => (none, state')
  | (.error e, state') => (some (path ++ ": " ++ e.render), state')

/-- Evaluates files in order; the lines for the error output. -/
def loadAll (read : String → FileContent) (state : State) : List String → List String × State
  | [] => ([], state)
  | path :: paths =>
      let first := load state path (read path)
      let others := loadAll read first.2 paths
      (first.1.toList ++ others.1, others.2)

/-- Everything that a run of the program shows: its exit code and the lines it prints. -/
structure Transcript where
  code : Nat
  output : List String
  errors : List String

/-- Runs the program on arguments, readable files and an input. -/
def transcript (read : String → FileContent) (arguments : List String) (input : ByteArray) :
    Transcript :=
  match Plan.ofArguments arguments with
  | .help => ⟨0, help, []⟩
  | .refuse fault => ⟨2, [], [fault.message]⟩
  | .start options =>
      let loaded := loadAll read (State.initial options.limit) options.files
      let answers := (Prompt.mk loaded.2 "").answers (lines input)
      ⟨answers.2.code, greeting :: answers.1 ++ answers.2.output, loaded.1⟩

end MiniScheme.Console

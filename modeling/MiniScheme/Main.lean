import MiniScheme.Console

/-!
# The command line

Reads files and standard input and prints what `MiniScheme.Console` says.
-/

namespace MiniScheme.Console

/-- Whether the system reports a fault by a number; it may report the number negated. -/
def isFault (number reported : UInt32) : Bool := reported = number || reported = 0 - number

/-- The fault that an error of the system stands for. -/
def faultOf : IO.Error → FileFault
  | .noFileOrDirectory .. => .notFound
  | .inappropriateType _ reported _ => if isFault 20 reported then .notDirectory else .isDirectory
  | e@(.invalidArgument _ reported _) =>
      if isFault 36 reported then .nameTooLong else .other e.toString
  | e => .other e.toString

/-- Reads a file of the system. -/
def readSystemFile (path : String) : IO FileContent := do
  try
    let bytes ← IO.FS.readBinFile path
    return .ok bytes
  catch e => return .error (faultOf e)

/-- Reads the bytes of one line, without its end; none at the end of the input. -/
partial def readLine (input : IO.FS.Stream) (read : List UInt8) : IO (Option (List UInt8)) := do
  let bytes ← input.read 1
  match bytes.toList with
  | [] => return if read = [] then none else some read.reverse
  | b :: _ => if b = lineFeed then return some (endedLine read) else readLine input (b :: read)

/-- Evaluates files in order. -/
def loadFiles (state : Interpreter.State) : List String → IO Interpreter.State
  | [] => return state
  | path :: paths => do
      let content ← readSystemFile path
      let next := load state path content
      if let some message := next.1 then IO.eprintln message
      loadFiles next.2 paths

/-- Answers inputs until the session ends. -/
partial def converse (input : IO.FS.Stream) (prompt : Prompt) : IO Ending := do
  let some bytes ← readLine input [] | return .regular
  match Line.ofBytes bytes with
  | .invalid => return .invalid
  | .broken => return .broken
  | .text line =>
      match prompt.line line with
      | .quit => return .regular
      | .next output prompt' => do
          if let some message := output then IO.println message
          converse input prompt'

end MiniScheme.Console

open MiniScheme.Console in
/-- Runs the program on the command line's arguments. -/
def main (arguments : List String) : IO UInt32 := do
  match Plan.ofArguments arguments with
  | .help =>
      help.forM IO.println
      return 0
  | .refuse fault =>
      IO.eprintln fault.message
      return 2
  | .start options => do
      let state ← loadFiles (.initial options.limit) options.files
      IO.println greeting
      let ending ← converse (← IO.getStdin) ⟨state, ""⟩
      ending.output.forM IO.println
      return ending.code.toUInt32

import MiniScheme.Interpreter

/-!
# Command-line options

Two options take a size as their value, `--max-depth` and `--stack-size`. The value is the
argument behind the first occurrence of the option, whatever it looks like; both are taken out
before the next option is looked for. Everything that remains is the name of a file, and such a
name does not start with a minus sign.
-/

namespace MiniScheme.Console

/-- Why a text is not a size. -/
inductive SizeFault where
  | empty
  | invalidDigit
  | tooLarge
  deriving DecidableEq, Repr

/-- The wording of a fault. -/
def SizeFault.message : SizeFault → String
  | .empty => "cannot parse integer from empty string"
  | .invalidDigit => "invalid digit found in string"
  | .tooLarge => "number too large to fit in target type"

/-- Why a list of arguments is refused. -/
inductive OptionFault where
  | missingValue (key : String)
  | badValue (value : String) (fault : SizeFault)
  | unknownOption (argument : String)
  deriving DecidableEq, Repr

/-- The wording of a refusal. -/
def OptionFault.message : OptionFault → String
  | .missingValue key => "the '" ++ key ++ "' option doesn't have an associated value"
  | .badValue value fault => "failed to parse '" ++ value ++ "': " ++ fault.message
  | .unknownOption argument => "unknown option " ++ argument

/-- The greatest size. -/
def maxSize : Nat := Nat.pow 2 64 - 1

/-- Reads the digits of a size behind those that make up `n`. The first character that is no
digit, or that makes the size too large, decides. -/
def sizeFrom (n : Nat) : List Char → Except SizeFault Nat
  | [] => .ok n
  | c :: cs =>
      let next := 10 * n + (c.toNat - '0'.toNat)
      if c.isDigit = false then .error .invalidDigit
      else if maxSize < next then .error .tooLarge
      else sizeFrom next cs

/-- Reads a size: digits, with an optional plus sign in front of them. -/
def readSize (text : String) : Except SizeFault Nat :=
  match text.toList with
  | [] => .error .empty
  | ['+'] => .error .invalidDigit
  | '+' :: cs => sizeFrom 0 cs
  | cs => sizeFrom 0 cs

/-- Takes the first occurrence of `key` and the argument behind it out of a list. -/
def takeValue (key : String) : List String → Except OptionFault (Option String × List String)
  | [] => .ok (none, [])
  | argument :: arguments =>
      if argument = key then
        match arguments with
        | [] => .error (.missingValue key)
        | value :: others => .ok (some value, others)
      else (takeValue key arguments).map fun taken => (taken.1, argument :: taken.2)

/-- Takes an option and its size out of a list; without the option the size is `default`. -/
def takeSize (key : String) (default : Nat) (arguments : List String) :
    Except OptionFault (Nat × List String) :=
  match takeValue key arguments with
  | .error fault => .error fault
  | .ok (none, others) => .ok (default, others)
  | .ok (some value, others) =>
      match readSize value with
      | .ok size => .ok (size, others)
      | .error fault => .error (.badValue value fault)

/-- Whether an argument looks like an option. -/
def isOption (argument : String) : Bool := argument.toList.head? == some '-'

/-- What the command line asks for. -/
structure Options where
  files : List String
  limit : Nat
  stackSize : Nat
  deriving DecidableEq, Repr

namespace Options

/-- The key of the limit on active procedure bodies. -/
def limitKey : String := "--max-depth"

/-- The key of the stack size. -/
def stackSizeKey : String := "--stack-size"

/-- The stack size where none is given. -/
def defaultStackSize : Nat := 256 * 1024 * 1024

/-- Reads the arguments of a command line. -/
def ofArguments (arguments : List String) : Except OptionFault Options := do
  let (limit, arguments) ← takeSize limitKey defaultLimit arguments
  let (stackSize, files) ← takeSize stackSizeKey defaultStackSize arguments
  match files.find? isOption with
  | some argument => .error (.unknownOption argument)
  | none => .ok ⟨files, limit, stackSize⟩

end Options

end MiniScheme.Console

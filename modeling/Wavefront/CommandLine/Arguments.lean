/-
# Command-line arguments

The command line names a subcommand and its flags. A flag that takes a value takes
it after an equals sign or as the next argument, which then must not look like a
flag itself; its short form may also be followed by the value directly. No flag may
be given twice. Arguments are looked at from left to right, and the first that
decides does: a mistake, or a request for help or for the version.
-/

import Wavefront.CommandLine.Help
import Wavefront.Text.Numeral

namespace Wavefront.CommandLine

/-- A flag that takes a value. -/
inductive Flag where
  | maxX
  | maxY
  | maxSum
  | workers
  | pageSize
  | inMemoryPages
  | diskDirectory
  | localBacklog
  | pollMillis
deriving DecidableEq, Repr

/-- The value of a flag. -/
inductive Value where
  | number (n : Nat)
  | text (s : String)
deriving DecidableEq, Repr

/-- The flags of the grid subcommand, as far as they are given. -/
structure Given where
  values : List (Flag × Value)
  keepFiles : Bool
deriving DecidableEq, Repr

/-- What a command line asks for. -/
inductive Request where
  | version
  | help (topic : Topic)
  | grid (given : Given)
deriving DecidableEq, Repr

/-- Why a command line makes no sense. -/
inductive Mistake where
  | noSubcommand
  | unknownSubcommand (name : String)
  | unknownFlag (argument : String)
  | unexpected (argument : String)
  | noValue (flag : Flag)
  | badValue (flag : Flag) (value : String)
  | givenTwice (argument : String)
deriving DecidableEq, Repr

namespace Flag

/-- The long name of a flag. -/
def name : Flag → String
  | maxX => "max-x"
  | maxY => "max-y"
  | maxSum => "max-sum"
  | workers => "workers"
  | pageSize => "page-size"
  | inMemoryPages => "in-memory-pages"
  | diskDirectory => "disk-dir"
  | localBacklog => "local-backlog"
  | pollMillis => "poll-ms"

/-- All flags that take a value. -/
def all : List Flag :=
  [maxX, maxY, maxSum, workers, pageSize, inMemoryPages, diskDirectory, localBacklog, pollMillis]

/-- The flag with a long name. -/
def ofName? (name : String) : Option Flag := all.find? (·.name == name)

/-- A counter bound is a signed numeral in the range of 32-bit words. -/
def bound? (cs : List Char) : Option Nat :=
  (Text.signed? cs).bind fun n => if 0 ≤ n ∧ n < 0x100000000 then some n.toNat else none

/-- The value that a text stands for: a bound, a 64-bit word, or a path that is not empty. -/
def read? (flag : Flag) (cs : List Char) : Option Value :=
  match flag with
  | maxX | maxY | maxSum => (bound? cs).map .number
  | diskDirectory => if cs.isEmpty then none else some (.text (String.ofList cs))
  | _ => (Text.unsigned? Text.wordLimit cs).map .number

end Flag

namespace Mistake

/-- The text of a mistake. -/
def message : Mistake → String
  | noSubcommand => "a subcommand is needed"
  | unknownSubcommand name => "there is no subcommand " ++ Text.quote name
  | unknownFlag argument => "there is no flag " ++ Text.quote argument
  | unexpected argument => "there is no use for " ++ Text.quote argument
  | noValue flag => "--" ++ flag.name ++ " needs a value"
  | badValue flag value => Text.quote value ++ " is no value for --" ++ flag.name
  | givenTwice argument => argument ++ " is given twice"

end Mistake

namespace Given

/-- No flags at all. -/
def nothing : Given := ⟨[], false⟩

/-- Add a flag with the text of its value. -/
def add (given : Given) (flag : Flag) (argument : String) (cs : List Char) :
    Except Mistake Given :=
  if given.values.any (·.1 == flag) then .error (.givenTwice argument)
  else
    match flag.read? cs with
    | none => .error (.badValue flag (String.ofList cs))
    | some value => .ok { given with values := (flag, value) :: given.values }

/-- The number given for a flag. -/
def number? (given : Given) (flag : Flag) : Option Nat :=
  match given.values.lookup flag with
  | some (.number n) => some n
  | _ => none

/-- The text given for a flag. -/
def text? (given : Given) (flag : Flag) : Option String :=
  match given.values.lookup flag with
  | some (.text s) => some s
  | _ => none

end Given

/-- Whether an argument looks like a flag, and so is no value. A lone dash does not. -/
def looksLikeFlag (argument : String) : Bool :=
  match argument.toList with
  | '-' :: _ :: _ => true
  | _ => false

/-- What an argument says, up to the value that it may carry with it. -/
inductive Word where
  /-- Nothing but plain arguments follows. -/
  | endOfFlags
  | long (name : String) (value : Option (List Char))
  | short (letter : Char) (rest : List Char)
  | plain
deriving DecidableEq, Repr

/-- Take an argument apart. -/
def Word.ofArgument (argument : String) : Word :=
  match argument.toList with
  | ['-', '-'] => .endOfFlags
  | '-' :: '-' :: body =>
      let name := String.ofList (body.takeWhile (· ≠ '='))
      match body.dropWhile (· ≠ '=') with
      | [] => .long name none
      | _ :: value => .long name (some value)
  | '-' :: letter :: rest => .short letter rest
  | _ => .plain

/-- Read the arguments of the grid subcommand. -/
def readGrid : List String → Given → Except Mistake Request
  | [], given => .ok (.grid given)
  | argument :: rest, given =>
      let withValue (flag : Flag) (attached : Option (List Char)) : Except Mistake Request :=
        match attached with
        | some cs => given.add flag argument cs >>= readGrid rest
        | none =>
            match rest with
            | [] => .error (.noValue flag)
            | value :: rest =>
                if looksLikeFlag value then .error (.noValue flag)
                else given.add flag argument value.toList >>= readGrid rest
      match Word.ofArgument argument with
      | .endOfFlags =>
          match rest with
          | [] => .ok (.grid given)
          | extra :: _ => .error (.unexpected extra)
      | .long "keep-files" none =>
          if given.keepFiles then .error (.givenTwice argument)
          else readGrid rest { given with keepFiles := true }
      | .long "help" none => .ok (.help .grid)
      | .long name attached =>
          match Flag.ofName? name with
          | some flag => withValue flag attached
          | none => .error (.unknownFlag argument)
      | .short 'h' _ => .ok (.help .grid)
      | .short 'w' attached =>
          match attached with
          | [] => withValue .workers none
          | '=' :: cs => withValue .workers (some cs)
          | cs => withValue .workers (some cs)
      | .short _ _ => .error (.unknownFlag argument)
      | .plain => .error (.unexpected argument)

/-- The subcommands that help can be asked for, one below the other. -/
def readHelp : List String → Except Mistake Request
  | [] => .ok (.help .overview)
  | ["grid"] => .ok (.help .grid)
  | ["help"] => .ok (.help .overview)
  | "grid" :: name :: _ => .error (.unknownSubcommand name)
  | "help" :: name :: _ => .error (.unknownSubcommand name)
  | name :: _ => .error (.unknownSubcommand name)

/-- Read a whole command line, without the name of the program. -/
def read : List String → Except Mistake Request
  | [] => .error .noSubcommand
  | "grid" :: rest => readGrid rest .nothing
  | "help" :: rest => readHelp rest
  | argument :: _ =>
      match Word.ofArgument argument with
      | .long "version" none => .ok .version
      | .long "help" none => .ok (.help .overview)
      | .short 'V' _ => .ok .version
      | .short 'h' _ => .ok (.help .overview)
      | .plain => .error (.unknownSubcommand argument)
      | _ => .error (.unknownFlag argument)

end Wavefront.CommandLine

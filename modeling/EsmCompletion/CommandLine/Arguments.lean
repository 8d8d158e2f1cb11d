import EsmCompletion.Decimal
import EsmCompletion.Path

/-!
The arguments of the command line. Options may stand before and behind the file; `--` ends them. The
root may be given before the command and behind it, and then the one behind counts.
-/

namespace EsmCompletion.CommandLine

inductive Command where
  | complete (file : Path) (offsets : List Nat) (fromInput : Bool) (format : String)
  | exports (file : Path) (format : String)
  | serve
  deriving DecidableEq, Repr

/-- A command and the directory of its configuration, if one is given. -/
structure Invocation where
  root : Option Path
  command : Command
  deriving DecidableEq, Repr

inductive Request where
  | version
  | run (invocation : Invocation)
  deriving DecidableEq, Repr

inductive CommandName where
  | complete
  | exports
  | serve
  deriving DecidableEq, Repr

def CommandName.named? (name : String) : Option CommandName :=
  match name with
  | "complete" => some .complete
  | "exports" => some .exports
  | "serve" => some .serve
  | _ => none

inductive Flag where
  | root
  | offset
  | format
  | input
  | version
  deriving DecidableEq, Repr

namespace Flag

def long? (name : String) : Option Flag :=
  match name with
  | "root" => some .root
  | "offset" => some .offset
  | "format" => some .format
  | "stdin" => some .input
  | "version" => some .version
  | _ => none

def short? (name : Char) : Option Flag :=
  match name with
  | 'r' => some .root
  | 'o' => some .offset
  | 'f' => some .format
  | 'V' => some .version
  | _ => none

/-- Whether an option may stand behind a command, or before all commands. -/
def allowed : Flag → Option CommandName → Bool
  | root, _ => true
  | offset, command => command = some .complete
  | input, command => command = some .complete
  | format, command => command = some .complete || command = some .exports
  | version, command => command.isNone

end Flag

structure Given where
  outerRoot : Option Path := none
  command : Option CommandName := none
  innerRoot : Option Path := none
  file : Option Path := none
  offsets : List Nat := []
  format : Option String := none
  input : Bool := false
  deriving DecidableEq, Repr

/-- The offset that decimal digits write; a plus sign may stand before them. -/
def offset? (text : String) : Option Nat := signedWord? text.toList

/-- A path in an argument, which may not be empty. -/
def path? (text : String) : Option Path := if text = "" then none else some ⟨text⟩

namespace Given

/-- Takes an option and its value. Offsets may be given repeatedly, the others once. -/
def withValue? (given : Given) (flag : Flag) (value : String) : Option Given :=
  match flag with
  | .root =>
    match given.command, given.outerRoot, given.innerRoot with
    | none, none, _ => (path? value).map fun root => { given with outerRoot := some root }
    | some _, _, none => (path? value).map fun root => { given with innerRoot := some root }
    | _, _, _ => none
  | .offset => (offset? value).map fun offset => { given with offsets := given.offsets ++ [offset] }
  | .format => if given.format.isNone then some { given with format := some value } else none
  | .input | .version => none

/-- Takes an argument that is no option: first the name of the command, then the file. -/
def withPlain? (given : Given) (argument : String) : Option Given :=
  match given.command with
  | none => (CommandName.named? argument).map fun command => { given with command := some command }
  | some .serve => none
  | some _ =>
    if given.file.isNone then
      (path? argument).map fun file => { given with file := some file }
    else none

/-- Takes the arguments behind `--`, none of which is an option or a command. -/
def withRest? (given : Given) (arguments : List String) : Option Given :=
  if given.command.isNone then none else arguments.foldlM withPlain? given

def invocation? (given : Given) : Option Invocation := do
  let command ← match ← given.command with
    | .complete => do
      let file ← given.file
      pure (Command.complete file given.offsets given.input (given.format.getD "json"))
    | .exports => do
      let file ← given.file
      pure (Command.exports file (given.format.getD "list"))
    | .serve => pure Command.serve
  return ⟨given.innerRoot.or given.outerRoot, command⟩

end Given

inductive Step where
  | taken (given : Given)
  | awaiting (flag : Flag)
  | version

/-- Takes an option that is written out, with its value if there is an equals sign. -/
def longStep? (given : Given) (flag : Flag) (value : Option String) : Option Step :=
  if flag.allowed given.command then
    match flag, value with
    | .version, none => some .version
    | .input, none => if given.input then none else some (.taken { given with input := true })
    | flag, none => some (.awaiting flag)
    | flag, some value => (given.withValue? flag value).map .taken
  else none

/-- Takes an option of one letter, with the text behind it as its value. -/
def shortStep? (given : Given) (flag : Flag) (behind : List Char) : Option Step :=
  if flag.allowed given.command then
    match flag, behind with
    | .version, _ => some .version
    | flag, [] => some (.awaiting flag)
    | flag, '=' :: value => (given.withValue? flag (String.ofList value)).map .taken
    | flag, value => (given.withValue? flag (String.ofList value)).map .taken
  else none

/-- Takes an argument, unless it is `--`. A hyphen alone is no option. -/
def step? (given : Given) (argument : String) : Option Step :=
  match argument.toList with
  | '-' :: '-' :: text =>
    let name := text.takeWhile (· ≠ '=')
    let value := match text.dropWhile (· ≠ '=') with
      | [] => none
      | _ :: value => some (String.ofList value)
    (Flag.long? (String.ofList name)).bind (longStep? given · value)
  | '-' :: letter :: behind => (Flag.short? letter).bind (shortStep? given · behind)
  | _ => (given.withPlain? argument).map .taken

/-- Whether an argument can be the value of the option before it. -/
def isValue (argument : String) : Bool :=
  match argument.toList with
  | '-' :: _ :: _ => false
  | _ => true

def read? (given : Given) : List String → Option Request
  | [] => given.invocation?.map .run
  | argument :: rest =>
    if argument = "--" then
      ((given.withRest? rest).bind Given.invocation?).map .run
    else
      match step? given argument with
      | none => none
      | some .version => some .version
      | some (.taken given) => read? given rest
      | some (.awaiting flag) =>
        match rest with
        | [] => none
        | value :: rest =>
          if isValue value then (given.withValue? flag value).bind (read? · rest) else none

/-- What arguments ask for, or nothing if they are not understood. -/
def parse? (arguments : List String) : Option Request := read? {} arguments

end EsmCompletion.CommandLine

import Offside.Machine.Basic

/-!
# Invocations

What the arguments of a command line ask for. Options may stand in any order,
before or after the name of a file, and none may be given twice. An option with
a value takes it from its own argument, behind an equals sign, or from the next
one, which then must not look like an option. Arguments are read from the front;
the first thing that is wrong or that ends the program decides.
-/

namespace Offside

/-- The options of a run. -/
structure Options where
  json : Bool := false
  limits : Limits := {}
  deriving Repr, DecidableEq

/-- What a command line asks for. -/
inductive Invocation where
  | help
  | version
  | command (source : String) (options : Options)
  | file (path : String) (options : Options)
  | interactive (options : Options)
  deriving Repr, DecidableEq

/-- Why a command line asks for nothing that can be done. -/
inductive Misuse where
  | unknown (argument : String)
  | noValue (option : String)
  | unwantedValue (option : String)
  | badNumber (option value : String)
  | repeated (option : String)
  | emptyPath
  | commandAndFile
  deriving Repr, DecidableEq

/-- The wording of a misuse. -/
def Misuse.message : Misuse → String
  | unknown argument => s!"unexpected argument '{argument}' found"
  | noValue option => s!"a value is required for '{option}' but none was supplied"
  | unwantedValue option => s!"a value was given for '{option}', which takes none"
  | badNumber option value => s!"invalid value '{value}' for '{option}'"
  | repeated option => s!"the argument '{option}' cannot be used multiple times"
  | emptyPath => "a value is required for the input but none was supplied"
  | commandAndFile => "'--command' cannot be used with an input file"

namespace Invocation

/-- The options. -/
inductive Flag where
  | command
  | json
  | loopCap
  | maxDepth
  | help
  | version
  deriving Repr, DecidableEq

/-- The long spelling of an option, without its hyphens. -/
def Flag.name : Flag → String
  | command => "command"
  | json => "json"
  | loopCap => "loop-cap"
  | maxDepth => "max-depth"
  | help => "help"
  | version => "version"

/-- Every option. -/
def Flag.all : List Flag :=
  [command, json, loopCap, maxDepth, help, version]

/-- The option of a letter. -/
def Flag.ofLetter? : Char → Option Flag
  | 'c' => some command
  | 'h' => some help
  | 'V' => some version
  | _ => none

/-- Whether an option takes a value. -/
def Flag.takesValue : Flag → Bool
  | command => true
  | loopCap => true
  | maxDepth => true
  | _ => false

/-- A natural number of at most 64 bits, with an optional plus sign. -/
def readCount? (s : String) : Option Nat :=
  let digits :=
    match s.toList with
    | '+' :: cs => cs
    | cs => cs
  if !digits.isEmpty && digits.all Char.isDigit then
    let n := digits.foldl (fun n c => 10 * n + (c.toNat - '0'.toNat)) 0
    if n < 1 <<< 64 then some n else none
  else none

/-- What has been read of a command line so far. -/
structure Gathered where
  command : Option String := none
  path : Option String := none
  json : Bool := false
  loopCap : Option Nat := none
  maxDepth : Option Nat := none

namespace Gathered

/-- With a positional argument, of which there is at most one. -/
def addPath (g : Gathered) (argument : String) : Except Misuse Gathered :=
  if g.path.isSome then .error (.unknown argument)
  else if argument.isEmpty then .error .emptyPath
  else .ok { g with path := some argument }

/-- The value of an option as a number, if the option has none yet. -/
def count (flag : Flag) (old : Option Nat) (value : String) : Except Misuse (Option Nat) :=
  if old.isSome then .error (.repeated flag.name)
  else
    match readCount? value with
    | some n => .ok (some n)
    | none => .error (.badNumber flag.name value)

/-- With an option and its value. -/
def addValue (g : Gathered) (flag : Flag) (value : String) : Except Misuse Gathered :=
  match flag with
  | .command =>
    if g.command.isSome then .error (.repeated flag.name)
    else .ok { g with command := some value }
  | .loopCap => (count flag g.loopCap value).map fun n => { g with loopCap := n }
  | .maxDepth => (count flag g.maxDepth value).map fun n => { g with maxDepth := n }
  | _ => .error (.unwantedValue flag.name)

/-- What was asked for, once everything is read. -/
def invocation (g : Gathered) : Except Misuse Invocation :=
  let defaults : Limits := {}
  let limits : Limits :=
    { loopCap := g.loopCap.getD defaults.loopCap, maxDepth := g.maxDepth.getD defaults.maxDepth }
  let options : Options := { json := g.json, limits := limits }
  match g.command, g.path with
  | some _, some _ => .error .commandAndFile
  | some source, none => .ok (.command source options)
  | none, some path => .ok (.file path options)
  | none, none => .ok (.interactive options)

end Gathered

/-- Whether an argument looks like an option; a single hyphen does not. -/
def looksLikeOption (argument : String) : Bool :=
  match argument.toList with
  | '-' :: _ :: _ => true
  | _ => false

/-- The option that an argument names, and the value that it carries: behind an
equals sign, or right behind the letter. Behind the letter of an option without a
value stand further letters, which nothing reads: all such options end the
program. -/
def option? (argument : String) : Option (Flag × Option String) :=
  match argument.toList with
  | '-' :: '-' :: cs =>
    let name := cs.takeWhile (· != '=')
    let value :=
      match cs.dropWhile (· != '=') with
      | [] => none
      | _ :: v => some (String.ofList v)
    (Flag.all.find? (·.name.toList == name)).map fun flag => (flag, value)
  | '-' :: letter :: cs =>
    let value :=
      match cs with
      | [] => none
      | '=' :: v => some (String.ofList v)
      | v => some (String.ofList v)
    (Flag.ofLetter? letter).map fun flag => (flag, if flag.takesValue then value else none)
  | _ => none

/-- What is asked for by what has been read and the arguments after it. -/
def ofArguments (g : Gathered) : List String → Except Misuse Invocation
  | [] => g.invocation
  | "--" :: rest =>
    match rest.foldlM Gathered.addPath g with
    | .error misuse => .error misuse
    | .ok g => g.invocation
  | argument :: rest =>
    if looksLikeOption argument then
      match option? argument with
      | none => .error (.unknown argument)
      | some (flag, some value) =>
        match g.addValue flag value with
        | .error misuse => .error misuse
        | .ok g => ofArguments g rest
      | some (.help, none) => .ok .help
      | some (.version, none) => .ok .version
      | some (.json, none) =>
        if g.json then .error (.repeated Flag.json.name)
        else ofArguments { g with json := true } rest
      | some (flag, none) =>
        match rest with
        | [] => .error (.noValue flag.name)
        | value :: rest =>
          if looksLikeOption value then .error (.noValue flag.name)
          else
            match g.addValue flag value with
            | .error misuse => .error misuse
            | .ok g => ofArguments g rest
    else
      match g.addPath argument with
      | .error misuse => .error misuse
      | .ok g => ofArguments g rest

/-- What a command line asks for. -/
def parse (arguments : List String) : Except Misuse Invocation :=
  ofArguments {} arguments

end Invocation

end Offside

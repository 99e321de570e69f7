import ApiInventory.Text.Counter

/-!
# Command lines

A command line is read from left to right against a shape that lists what may stand in
it. Options have long names and some have short ones; a value follows its option as the
next argument or is attached to it. Short options may be put together. After two hyphens
alone every argument is an operand.

A value is checked when the next option or operand comes, so that of two faults
the earlier one counts, except that an argument which is not known counts first.
-/

namespace ApiInventory.Command

/-- Why a command line leads to no command. Asking for help or for the version is among
the reasons. -/
inductive Rejection where
  | unknownArgument
  | invalidValue
  | invalidNumber
  | repeatedArgument
  | unexpectedValue
  | invalidSubcommand
  | missingSubcommand
  | missingArgument
  | helpWanted
  | versionWanted
  | nothingGiven
deriving DecidableEq, Repr

def Rejection.message : Rejection → String
  | unknownArgument => "unexpected argument found"
  | invalidValue => "a value is required or invalid"
  | invalidNumber => "invalid number"
  | repeatedArgument => "an argument cannot be used multiple times"
  | unexpectedValue => "unexpected value for an argument"
  | invalidSubcommand => "unrecognized subcommand"
  | missingSubcommand => "a subcommand is required"
  | missingArgument => "a required argument was not provided"
  | helpWanted | versionWanted | nothingGiven => ""

/-- What values are fit for a parameter. -/
inductive ValueKind where
  | path
  | text
  | counter (least : Nat)
  | choice (words : List String)
deriving DecidableEq, Repr

/-- The fault of a value, if it has one. -/
def ValueKind.fault? (kind : ValueKind) (value : String) : Option Rejection :=
  match kind with
  | path => if value = "" then some .invalidValue else none
  | text => none
  | counter least =>
    match Text.counter? value.toList with
    | some n => if least ≤ n then none else some .invalidNumber
    | none => some .invalidNumber
  | choice words => if words.contains value then none else some .invalidValue

/-- What an option does. -/
inductive Effect where
  | help
  | version
  | switch
  | takes (kind : ValueKind)
deriving DecidableEq, Repr

structure Parameter where
  name : String
  short : Option Char
  effect : Effect
deriving DecidableEq, Repr

structure Shape where
  options : List Parameter
  operand : Option Parameter
  subcommands : List String

namespace Shape

def long? (shape : Shape) (name : List Char) : Option Parameter :=
  shape.options.find? fun p => p.name = String.ofList name

def short? (shape : Shape) (c : Char) : Option Parameter :=
  shape.options.find? fun p => p.short = some c

end Shape

/-- How far a command line has been read. -/
structure Reading where
  given : List (String × String)
  /-- A parameter that waits for its value, or for a check of it. -/
  pending : Option (Parameter × Option String)
  hasOperand : Bool
  /-- Whether all that follows is operands. -/
  onlyOperands : Bool

namespace Reading

def start : Reading := ⟨[], none, false, false⟩

def value? (r : Reading) (name : String) : Option String := r.given.lookup name

def has (r : Reading) (name : String) : Bool := (r.value? name).isSome

/-- Give a parameter its value. -/
def assign (r : Reading) (p : Parameter) (value : String) : Except Rejection Reading :=
  if r.has p.name then .error .repeatedArgument
  else
    let fault :=
      match p.effect with
      | .takes kind => kind.fault? value
      | _ => none
    match fault with
    | some e => .error e
    | none => .ok { r with given := r.given ++ [(p.name, value)] }

/-- Check what is pending. -/
def settle (r : Reading) : Except Rejection Reading :=
  match r.pending with
  | none => .ok r
  | some (_, none) => .error .invalidValue
  | some (p, some value) => assign { r with pending := none } p value

/-- Let an option do what it does without a value. -/
def apply (r : Reading) (p : Parameter) : Except Rejection Reading :=
  match p.effect with
  | .help => .error .helpWanted
  | .version => .error .versionWanted
  | .switch => r.assign p "true"
  | .takes _ => .ok { r with pending := some (p, none) }

/-- Read an argument as an operand. -/
def operand (shape : Shape) (r : Reading) (argument : String) : Except Rejection Reading :=
  match shape.operand, r.hasOperand with
  | some p, false => do
    let r ← r.settle
    return { r with pending := some (p, some argument), hasOperand := true }
  | _, _ =>
    if shape.subcommands.isEmpty || (r.onlyOperands && shape.subcommands.contains argument) then
      .error .unknownArgument
    else .error .invalidSubcommand

/-- Read what follows two hyphens. -/
def long (shape : Shape) (r : Reading) (body : List Char) : Except Rejection Reading :=
  let name := body.takeWhile (· ≠ '=')
  match shape.long? name, body.drop name.length with
  | none, _ => .error .unknownArgument
  | some p, [] => do (← r.settle).apply p
  | some p, _ :: value =>
    match p.effect with
    | .takes _ => do (← r.settle).assign p (String.ofList value)
    | _ => .error .unexpectedValue

/-- The value attached to a short option; an equals sign in front of it does not count. -/
def attached : List Char → String
  | '=' :: value => String.ofList value
  | value => String.ofList value

/-- Read what follows one hyphen. -/
def cluster (shape : Shape) (r : Reading) : List Char → Except Rejection Reading
  | [] => .ok r
  | c :: rest =>
    match shape.short? c with
    | none => .error .unknownArgument
    | some p =>
      match p.effect, rest with
      | .takes _, _ :: _ => do (← r.settle).assign p (attached rest)
      | _, _ => do cluster shape (← (← r.settle).apply p) rest

/-- Read one argument. -/
def step (shape : Shape) (r : Reading) (argument : String) : Except Rejection Reading :=
  if r.onlyOperands then r.operand shape argument
  else
    match argument.toList with
    | ['-', '-'] => .ok { r with onlyOperands := true }
    | '-' :: '-' :: body => r.long shape body
    | '-' :: c :: rest => r.cluster shape (c :: rest)
    | _ =>
      match r.pending with
      | some (p, none) => .ok { r with pending := some (p, some argument) }
      | _ => r.operand shape argument

/-- Read all arguments of a command without subcommands. -/
def all (shape : Shape) (arguments : List String) : Except Rejection Reading := do
  let r ← arguments.foldlM (step shape) start
  let r ← r.settle
  match shape.operand with
  | some p => if r.has p.name then return r else throw .missingArgument
  | none => return r

end Reading

end ApiInventory.Command

import MethodSearch.Text.Count

/-!
# Command lines

Options have a long name and perhaps a letter. A value follows its option or is attached to it; letters may be
joined. Some options go with every command and stand on either side of its name. An option's value is looked at
when the next option comes, or at the end.
-/

namespace MethodSearch.Console

/-- Looks for every signature of a catalog. What is not given is left to the configuration. -/
structure ResolveOptions where
  classes : Option String := none
  signatures : Option String := none
  output : Option String := none
  parallel : Bool := false
  threads : Option Nat := none
  strict : Bool := false
  compact : Bool := false
  deriving Repr, DecidableEq

/-- Looks for one signature in one class. It is taken from a catalog or given in parts. -/
structure LookupOptions where
  classes : String
  className : String
  signatures : Option String := none
  signature : Option String := none
  returns : Option String := none
  access : Option String := none
  params : Option String := none
  pattern : Option String := none
  deriving Repr, DecidableEq

structure OpcodesOptions where
  filter : Option String := none
  deriving Repr, DecidableEq

inductive Command where
  | resolve (options : ResolveOptions)
  | lookup (options : LookupOptions)
  | opcodes (options : OpcodesOptions)
  deriving Repr, DecidableEq

structure Invocation where
  logLevel : Option String := none
  verbosity : Nat := 0
  quiet : Bool := false
  noColour : Bool := false
  config : Option String := none
  command : Command
  deriving Repr, DecidableEq

/-- Why a command line names no command to run. -/
inductive Usage where
  | help
  | version
  | helpForNothing
  | missingCommand
  | unknownCommand
  | unknownArgument
  | missingValue
  | invalidValue
  | missingArgument
  | repeatedArgument
  | unexpectedValue
  deriving Repr, DecidableEq

/-! ## Options -/

inductive OptionName where
  | logLevel
  | verbose
  | quiet
  | noColour
  | config
  | classes
  | signatures
  | output
  | parallel
  | threads
  | strict
  | compact
  | className
  | signature
  | returns
  | access
  | params
  | pattern
  | filter
  | stop (usage : Usage)
  deriving Repr, DecidableEq

/-- What an option takes. -/
inductive Arity where
  /-- Nothing, and it stands once. -/
  | switch
  /-- Nothing, and it is counted. -/
  | counter
  | text
  /-- A text that is not empty. -/
  | path
  /-- A natural number of 64 bits. -/
  | number
  deriving Repr, DecidableEq

def Arity.takesValue : Arity → Bool
  | .switch | .counter => false
  | _ => true

structure OptionSpec where
  name : OptionName
  letter : Option Char
  long : String
  arity : Arity
  deriving Repr, DecidableEq

def commonOptions : List OptionSpec := [
  ⟨.stop .help, some 'h', "help", .switch⟩,
  ⟨.logLevel, some 'l', "log-level", .text⟩,
  ⟨.verbose, some 'v', "verbose", .counter⟩,
  ⟨.quiet, some 'q', "quiet", .switch⟩,
  ⟨.noColour, none, "no-color", .switch⟩,
  ⟨.config, none, "config", .path⟩]

inductive CommandName where
  | resolve
  | lookup
  | opcodes
  deriving Repr, DecidableEq

def CommandName.ofString? : String → Option CommandName
  | "resolve" => some .resolve
  | "lookup" => some .lookup
  | "opcodes" => some .opcodes
  | _ => none

def CommandName.options : CommandName → List OptionSpec
  | .resolve => [
      ⟨.classes, some 'c', "classes", .path⟩,
      ⟨.signatures, some 's', "signatures", .path⟩,
      ⟨.output, some 'o', "output", .path⟩,
      ⟨.parallel, none, "parallel", .switch⟩,
      ⟨.threads, none, "threads", .number⟩,
      ⟨.strict, none, "strict", .switch⟩,
      ⟨.compact, none, "compact", .switch⟩]
  | .lookup => [
      ⟨.classes, some 'c', "classes", .path⟩,
      ⟨.className, none, "class", .text⟩,
      ⟨.signatures, some 's', "signatures", .path⟩,
      ⟨.signature, none, "signature", .text⟩,
      ⟨.returns, none, "returns", .text⟩,
      ⟨.access, none, "access", .text⟩,
      ⟨.params, none, "params", .text⟩,
      ⟨.pattern, none, "pattern", .text⟩]
  | .opcodes => [⟨.filter, some 'f', "filter", .text⟩]

/-! ## What is given -/

/-- The options met on one side of the command's name. -/
structure Given where
  /-- Options with their values. A switch has an empty one. -/
  values : List (OptionName × String) := []
  verbosity : Nat := 0
  /-- An option whose value has not been looked at, or has not come. -/
  pending : Option (OptionSpec × Option String) := none
  deriving Repr, DecidableEq

/-- A natural number of 64 bits, perhaps with a plus before it. -/
def readNumber? (s : String) : Option Nat :=
  let digits := match s.toList with
    | '+' :: rest => rest
    | cs => cs
  (Text.readNat? 10 digits).filter (· < UInt64.size)

namespace Given

def value? (g : Given) (name : OptionName) : Option String :=
  (g.values.find? (·.1 == name)).map (·.2)

def has (g : Given) (name : OptionName) : Bool :=
  (g.value? name).isSome

def add (g : Given) (name : OptionName) (value : String) : Except Usage Given :=
  if g.has name then .error .repeatedArgument else .ok { g with values := g.values ++ [(name, value)] }

def take (g : Given) (spec : OptionSpec) (value : String) : Except Usage Given := do
  let g ← g.add spec.name value
  match spec.arity with
  | .path => if value.isEmpty then .error .missingValue else .ok g
  | .number => if (readNumber? value).isNone then .error .invalidValue else .ok g
  | _ => .ok g

/-- Looks at the option that is waiting. -/
def settle (g : Given) : Except Usage Given :=
  match g.pending with
  | none => .ok g
  | some (_, none) => .error .missingValue
  | some (spec, some value) => take { g with pending := none } spec value

def flag (g : Given) (spec : OptionSpec) : Except Usage Given := do
  let g ← g.settle
  match spec.name, spec.arity with
  | .stop usage, _ => .error usage
  | _, .counter => .ok { g with verbosity := g.verbosity + 1 }
  | name, _ => g.add name ""

def attached (g : Given) (spec : OptionSpec) (value : String) : Except Usage Given := do
  (← g.settle).take spec value

/-- An option whose value comes next. -/
def await (g : Given) (spec : OptionSpec) : Except Usage Given := do
  return { ← g.settle with pending := some (spec, none) }

/-- Whether the next argument that is no option is a value. -/
def isAwaiting (g : Given) : Bool :=
  match g.pending with
  | some (_, none) => true
  | _ => false

def supply (g : Given) (value : String) : Given :=
  { g with pending := g.pending.map fun p => (p.1, some value) }

end Given

/-- An argument behind two dashes: a long name, and the value behind an equals sign. -/
def readLong (specs : List OptionSpec) (g : Given) (arg : List Char) : Except Usage Given :=
  let name := String.ofList (arg.takeWhile (· != '='))
  match specs.find? (·.long == name), arg.dropWhile (· != '=') with
  | none, _ => .error .unknownArgument
  | some spec, [] => if spec.arity.takesValue then g.await spec else g.flag spec
  | some spec, _ :: value =>
      if spec.arity.takesValue then g.attached spec (String.ofList value) else .error .unexpectedValue

/-- Letters behind a dash. One that takes a value has the rest for it. -/
def readLetters (specs : List OptionSpec) (g : Given) : List Char → Except Usage Given
  | [] => .ok g
  | c :: rest =>
      match specs.find? (·.letter == some c) with
      | none => .error .unknownArgument
      | some spec =>
          if spec.arity.takesValue then
            match rest with
            | [] => g.await spec
            | '=' :: value => g.attached spec (String.ofList value)
            | value => g.attached spec (String.ofList value)
          else do readLetters specs (← g.flag spec) rest

/-- The arguments of a command, up to the end. Nothing but options and their values is expected. -/
def readOptions (specs : List OptionSpec) (g : Given) : List String → Except Usage Given
  | [] => .ok g
  | arg :: rest =>
      match arg.toList with
      | ['-', '-'] => if rest.isEmpty then .ok g else .error .unknownArgument
      | '-' :: '-' :: cs => do readOptions specs (← readLong specs g cs) rest
      | '-' :: c :: cs => do readOptions specs (← readLetters specs g (c :: cs)) rest
      | _ => if g.isAwaiting then readOptions specs (g.supply arg) rest else .error .unknownArgument

/-- Help on help, on a command, or on everything. -/
def readHelp : List String → Usage
  | [] => .help
  | [name] => if name == "help" || (CommandName.ofString? name).isSome then .help else .unknownCommand
  | _ => .unknownCommand

/-- What follows two dashes where a command is due. -/
def afterDashes : List String → Except Usage Unit
  | [] => .ok ()
  | arg :: _ =>
      if arg == "help" || (CommandName.ofString? arg).isSome then .error .unknownArgument
      else .error .unknownCommand

/-- The arguments up to the name of the command, that name, and those that follow it. -/
def readCommon (specs : List OptionSpec) (g : Given) :
    List String → Except Usage (Given × Option (CommandName × List String))
  | [] => .ok (g, none)
  | arg :: rest =>
      match if g.isAwaiting then none else CommandName.ofString? arg with
      | some command => .ok (g, some (command, rest))
      | none =>
          if !g.isAwaiting && arg == "help" then .error (readHelp rest)
          else match arg.toList with
            | ['-', '-'] => do
                afterDashes rest
                .ok (g, none)
            | '-' :: '-' :: cs => do readCommon specs (← readLong specs g cs) rest
            | '-' :: c :: cs => do readCommon specs (← readLetters specs g (c :: cs)) rest
            | _ => if g.isAwaiting then readCommon specs (g.supply arg) rest else .error .unknownCommand

/-! ## Invocations -/

/-- A lookup needs a catalog and a class, and a signature catalog a name in it. -/
def Given.lookup (g : Given) : Except Usage LookupOptions :=
  match g.value? .classes, g.value? .className with
  | some classes, some className =>
      if g.has .signatures && !g.has .signature then .error .missingArgument
      else .ok {
        classes := classes, className := className, signatures := g.value? .signatures,
        signature := g.value? .signature, returns := g.value? .returns, access := g.value? .access,
        params := g.value? .params, pattern := g.value? .pattern }
  | _, _ => .error .missingArgument

def Given.command (g : Given) : CommandName → Except Usage Command
  | .resolve => .ok (.resolve {
      classes := g.value? .classes, signatures := g.value? .signatures, output := g.value? .output,
      parallel := g.has .parallel, threads := (g.value? .threads).bind readNumber?,
      strict := g.has .strict, compact := g.has .compact })
  | .lookup => g.lookup.map .lookup
  | .opcodes => .ok (.opcodes { filter := g.value? .filter })

/-- Puts both sides together. What stands behind the name of the command goes before. -/
def Given.invocation (before after : Given) (command : Command) : Invocation where
  logLevel := (after.value? .logLevel).or (before.value? .logLevel)
  verbosity := if after.verbosity = 0 then before.verbosity else after.verbosity
  quiet := after.has .quiet || before.has .quiet
  noColour := after.has .noColour || before.has .noColour
  config := (after.value? .config).or (before.value? .config)
  command := command

/-- The version is shown on request only before a command. -/
def versionOption : OptionSpec :=
  ⟨.stop .version, some 'V', "version", .switch⟩

/-- Reads a command line. The faults behind the name of the command come first. -/
def readArguments (args : List String) : Except Usage Invocation := do
  let (before, command) ← readCommon (versionOption :: commonOptions) {} args
  match command with
  | none =>
      let before ← before.settle
      .error (if before.values.isEmpty && before.verbosity = 0 then .helpForNothing else .missingCommand)
  | some (name, rest) =>
      let after ← (← readOptions (commonOptions ++ name.options) {} rest).settle
      let command ← after.command name
      let before ← before.settle
      return before.invocation after command

end MethodSearch.Console

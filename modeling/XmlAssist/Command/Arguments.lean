/-!
# Arguments of the command line

A command has a name, options and a file. An option is written `--name value` or `--name=value`;
behind `--` nothing is an option. The option `--settings` may stand before the name of the command
or behind it, where it counts if it stands in both places.
-/

namespace XmlAssist.Command

/-- What is to be done. -/
inductive Task where
  | tokens
  | symbols (flat : Bool)
  | folding
  | check (json : Bool)
  | hover (line character : Nat)
deriving DecidableEq, Repr, Inhabited

/-- A task, its file, and the file with settings. -/
structure Invocation where
  task : Task
  file : String
  settings : Option String := none
deriving DecidableEq, Repr, Inhabited

/-- Why nothing is done. -/
inductive Refusal where
  /-- The arguments are wrong. -/
  | usage
  /-- Help is asked for. -/
  | help
  /-- The version is asked for. -/
  | version
deriving DecidableEq, Repr, Inhabited

/-- The options that arguments may hold. -/
structure Options where
  /-- Options with a text as their value. -/
  texts : List String := ["--settings"]
  /-- Options with a number as their value. -/
  numbers : List String := []
  /-- Options without a value. -/
  flags : List String := []
deriving DecidableEq, Repr, Inhabited

/-- A number of at most 32 bits; a sign may stand before it. -/
def number? (s : String) : Option Nat :=
  let (negative, digits) := match s.toList with
    | '-' :: cs => (true, cs)
    | '+' :: cs => (false, cs)
    | cs => (false, cs)
  if digits.isEmpty || !digits.all Char.isDigit then none
  else
    let n := digits.foldl (fun n c => n * 10 + (c.toNat - 48)) 0
    if (negative && n ≠ 0) || 4294967295 < n then none else some n

/-- The value is one of an option. -/
def Options.accepts (x : Options) (name value : String) : Bool :=
  if x.numbers.contains name then (number? value).isSome else value ≠ ""

/-- An option is written in long form. -/
def isLong (arg : String) : Bool := arg.startsWith "--"

/-- The argument is an option and no value. -/
def isOption (arg : String) : Bool := arg.startsWith '-' && arg ≠ "-"

/-- The name of an option and the value written with it. -/
def splitOption (arg : String) : String × Option String :=
  match arg.splitOn "=" with
  | name :: value :: more => (name, some ("=".intercalate (value :: more)))
  | _ => (arg, none)

/-- What an option in short form asks for; only help has one everywhere. -/
def shortRefusal (arg : String) : Refusal := if arg.startsWith "-h" then .help else .usage

/-- What arguments say so far. -/
structure Given where
  values : List (String × String) := []
  flags : List String := []
  file : Option String := none
  /-- The option whose value comes next. -/
  waiting : Option String := none
  /-- Nothing is an option any more. -/
  verbatim : Bool := false
deriving DecidableEq, Repr, Inhabited

namespace Given

/-- Sets an option, which may be done once. -/
def setValue (x : Given) (options : Options) (name value : String) : Except Refusal Given :=
  if !options.accepts name value || (x.values.lookup name).isSome then .error .usage
  else .ok { x with values := (name, value) :: x.values, waiting := none }

/-- Sets an option without a value, which may be done once. -/
def setFlag (x : Given) (name : String) : Except Refusal Given :=
  if x.flags.contains name then .error .usage else .ok { x with flags := name :: x.flags }

/-- Sets the file, which may be done once and not to nothing. -/
def setFile (x : Given) (file : String) : Except Refusal Given :=
  if file = "" ∨ x.file.isSome then .error .usage else .ok { x with file := some file }

/-- An option in long form. -/
def readLong (x : Given) (options : Options) (arg : String) : Except Refusal Given :=
  let (name, value) := splitOption arg
  if name = "--help" then .error (if value.isSome then .usage else .help)
  else if options.flags.contains name then
    if value.isSome then .error .usage else x.setFlag name
  else if options.texts.contains name || options.numbers.contains name then
    match value with
    | some v => x.setValue options name v
    | none => .ok { x with waiting := some name }
  else .error .usage

/-- The next argument. -/
def read (options : Options) (x : Given) (arg : String) : Except Refusal Given :=
  match x.waiting with
  | some name => if isOption arg then .error .usage else x.setValue options name arg
  | none =>
    if x.verbatim then x.setFile arg
    else if arg = "--" then .ok { x with verbatim := true }
    else if isLong arg then x.readLong options arg
    else if isOption arg then .error (shortRefusal arg)
    else x.setFile arg

end Given

/-- What the arguments behind the name of a command say. -/
def readArguments (options : Options) (args : List String) : Except Refusal Given := do
  let given ← args.foldlM (Given.read options) {}
  if given.waiting.isSome then .error .usage else return given

/-- The options of a command; none if there is no such command. -/
def optionsOf? (name : String) : Option Options :=
  match name with
  | "tokens" | "folding" => some {}
  | "symbols" => some { flags := ["--flat"] }
  | "check" => some { flags := ["--json"] }
  | "hover" => some { numbers := ["--line", "--character"] }
  | _ => none

/-- The task of a command with what its arguments say. -/
def taskOf? (name : String) (x : Given) : Option Task :=
  match name with
  | "tokens" => some .tokens
  | "symbols" => some (.symbols (x.flags.contains "--flat"))
  | "folding" => some .folding
  | "check" => some (.check (x.flags.contains "--json"))
  | "hover" => do
    let line ← number? (← x.values.lookup "--line")
    let character ← number? (← x.values.lookup "--character")
    return .hover line character
  | _ => none

/-- The arguments of a command and the settings given before its name. -/
def readCommand (settings : Option String) (name : String) (rest : List String) : Except Refusal Invocation :=
  match optionsOf? name with
  | none => .error .usage
  | some options => do
    let given ← readArguments options rest
    match taskOf? name given, given.file with
    | some task, some file => return { task, file, settings := (given.values.lookup "--settings").or settings }
    | _, _ => .error .usage

/-- The arguments of the command that shows help: at most one name of a command. -/
def readHelp : List String → Refusal
  | [] => .help
  | [name] => if (optionsOf? name).isSome || name = "help" then .help else .usage
  | _ => .usage

/-- What the arguments of the program say, given the settings that stand before them; if `waiting`,
the settings come next. -/
def readProgram (settings : Option String) (waiting : Bool) : List String → Except Refusal Invocation
  | [] => .error .usage
  | arg :: rest =>
    if waiting then
      if arg = "" ∨ isOption arg ∨ settings.isSome then .error .usage else readProgram (some arg) false rest
    else if isLong arg then
      match splitOption arg with
      | ("--help", none) => .error .help
      | ("--version", none) => .error .version
      | ("--settings", none) => readProgram settings true rest
      | ("--settings", some v) =>
        if v = "" ∨ settings.isSome then .error .usage else readProgram (some v) false rest
      | _ => .error .usage
    else if isOption arg then .error (if arg.startsWith "-V" then .version else shortRefusal arg)
    else if arg = "help" then .error (readHelp rest)
    else readCommand settings arg rest

/-- What the arguments of the program say. -/
def readAll (args : List String) : Except Refusal Invocation := readProgram none false args

end XmlAssist.Command

import XmlAssist.Command.Arguments
import XmlAssist.Command.Files
import XmlAssist.Json.Reader
import XmlAssist.Library.Own
import XmlAssist.Service

/-!
# The command line

Each command opens a file in a new service and prints what the service answers about it. This is where
the program comes with its own libraries.
-/

namespace XmlAssist.Command

/-- Why a command fails. -/
inductive Error where
  | unreadable (path : String)
  | unresolved (path : String)
  | invalidJson (path : String)
  | invalidSettings (path : String)
  | badLocation (cause : BadLocation)
  /-- The file has problems. -/
  | problems (count : Nat) (path : String)
deriving DecidableEq, Repr, Inhabited

/-- The wording of an error. -/
def Error.message : Error → String
  | .unreadable path => "cannot read " ++ path
  | .unresolved path => "cannot resolve " ++ path
  | .invalidJson path => "invalid JSON in " ++ path
  | .invalidSettings path => "invalid settings in " ++ path
  | .badLocation cause => cause.message
  | .problems count path => toString count ++ " error(s) in " ++ path

/-- What a command prints. -/
inductive Printed where
  | nothing
  | json (value : Json)
  | text (lines : List String)
deriving Repr, Inhabited

/-- What a command prints, its error, and its exit code. -/
structure Outcome where
  printed : Printed := .nothing
  error : Option Error := none
  code : Nat := 0
deriving Repr, Inhabited

namespace Outcome

/-- The command prints a value. -/
def ofJson (value : Json) : Outcome := { printed := .json value }

/-- The command fails. -/
def ofError (e : Error) : Outcome := { error := some e, code := 1 }

end Outcome

/-- A token as a value. -/
def tokenToJson (text : String) (t : Token) : Json :=
  .mkObjSome [
    ("kind", some (.str t.kind.label)),
    ("start", some (.ofNat t.start)),
    ("end", some (.ofNat t.stop)),
    ("text", some (.str (Text.slice text t.start t.stop))),
    ("error", t.fault.map fun fault => .str fault.message)]

/-- The tokens of a text, read by the name of its file. -/
def tokens (path text : String) : Json :=
  let lexer := if Document.isDtdUri path then Lexer.declarations else .document
  .arr ((lexer.run text).map fun (t, _) => tokenToJson text t)

/-- A problem on one line. -/
def problemLine (path : String) (x : Diagnostic) : String :=
  let code := match x.code with
    | some code => "[" ++ code ++ "] "
    | none => ""
  path ++ ":" ++ toString (x.range.start.line + 1) ++ ":" ++ toString (x.range.start.character + 1) ++ ": " ++
    x.severity.label ++ ": " ++ code ++ x.message

/-- The report of a file's problems. -/
def check (s : Service) (d : Document) (path : String) (asJson : Bool) : Outcome :=
  let report := (s.report d .never).1.1
  let printed := if asJson then Printed.json report.toJson else .text (report.diagnostics.map (problemLine path))
  let errors := report.diagnostics.countP (·.severity == .error)
  if errors = 0 then { printed } else { printed, error := some (.problems errors path), code := 1 }

/-- What a command other than the listing of tokens prints for an open file. -/
def perform (s : Service) (d : Document) (path : String) : Task → Outcome
  | .tokens => .ofJson (tokens path d.text)
  | .symbols true => .ofJson (.arr ((s.symbolInformations d .never).map SymbolInformation.toJson))
  | .symbols false => .ofJson (.arr (Symbol.listToJson (s.symbols d .never)))
  | .folding => .ofJson (.arr ((s.foldingRanges d .never).map FoldingRange.toJson))
  | .check asJson => check s d path asJson
  | .hover line character =>
    match (s.hover d ⟨line, character⟩ .never).1 with
    | .ok hover => .ofJson ((hover.map Hover.toJson).getD .null)
    | .error e => .ofError (.badLocation e)

/-- The path of the file of declarations that a document names, with its address. -/
def externalFile? (d : Document) : Option (String × String) := do
  let doctype ← d.doctypeData?
  if doctype.synthetic then none
  let uri ← Uri.resolve? d.uri (← doctype.systemId)
  let url ← Library.url? uri
  if Library.scheme url ≠ "file" then none
  return (uri, ← Library.filePath? url)

variable {m : Type → Type} [Monad m]

/-- The service with the settings in a file. -/
def configured (files : Files m) (settings : Option String) : m (Except Error Service) := do
  match settings with
  | none => return .ok .new
  | some path =>
    match ← files.read path with
    | none => return .error (.unreadable path)
    | some text =>
      match Json.parse? text with
      | none => return .error (.invalidJson path)
      | some update =>
        match Service.new.configure update with
        | .ok s => return .ok s
        | .error _ => return .error (.invalidSettings path)

/-- The service with a file opened, and with the file of declarations that it names, if that can be
read. -/
def load (files : Files m) (s : Service) (path : String) : m (Except Error (Service × Document)) := do
  match ← files.resolve path with
  | none => return .error (.unresolved path)
  | some absolute =>
    match ← files.read path with
    | none => return .error (.unreadable path)
    | some text =>
      let uri := Library.render (Library.ofFilePath absolute)
      let d := Document.parse text uri
      let s := s.didOpen uri text 1
      match externalFile? d with
      | none => return .ok (s, d)
      | some (dtdUri, dtdPath) =>
        match ← files.read dtdPath with
        | some dtd => return .ok (s.didOpen dtdUri dtd 1, d)
        | none => return .ok (s, d)

/-- Does what an invocation asks for. The tokens of a file need no service and no settings. -/
def invoke (files : Files m) (x : Invocation) : m Outcome := do
  if x.task = .tokens then
    match ← files.read x.file with
    | some text => return .ofJson (tokens x.file text)
    | none => return .ofError (.unreadable x.file)
  else
    match ← configured files x.settings with
    | .error e => return .ofError e
    | .ok s =>
      match ← load files s x.file with
      | .error e => return .ofError e
      | .ok (s, d) => return perform s d x.file x.task

/-- How the program is used. -/
def usage : List String :=
  ["Usage: xmlassist [--settings FILE] COMMAND",
    "Commands:",
    "  tokens FILE                             the tokens of a file",
    "  symbols [--flat] FILE                   its outline",
    "  folding FILE                            its folds",
    "  check [--json] FILE                     its problems",
    "  hover FILE --line N --character N       what is shown at a position"]

/-- What is printed when nothing is done. -/
def refuse : Refusal → Outcome
  | .usage => { printed := .nothing, code := 2 }
  | .help => { printed := .text usage }
  | .version => { printed := .text ["xmlassist 0.1.0"] }

/-- Does what the arguments of the program ask for. -/
def run (files : Files m) (args : List String) : m Outcome :=
  match readAll args with
  | .ok x => invoke files x
  | .error refusal => pure (refuse refusal)

end XmlAssist.Command

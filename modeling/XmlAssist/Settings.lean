import XmlAssist.Json
import XmlAssist.Library

/-!
# Settings

What a client may configure, the form of it in JSON, and how a later configuration changes an
earlier one: only the fields that it names change. A record is written as an object, whose missing
fields have their defaults, or as a list of its fields in order.
-/

namespace XmlAssist

/-- How severe a diagnostic is. -/
inductive Severity where
  | error
  | warning
  | information
  | hint
deriving DecidableEq, Repr, Inhabited

/-- The name of a severity. -/
def Severity.label : Severity → String
  | .error => "error"
  | .warning => "warning"
  | .information => "information"
  | .hint => "hint"

/-- The form of a documentation text. -/
inductive MarkupKind where
  | plainText
  | markdown
deriving DecidableEq, Repr, Inhabited

/-- The name of a form. -/
def MarkupKind.label : MarkupKind → String
  | .plainText => "plaintext"
  | .markdown => "markdown"

/-- How a document without a grammar is reported. -/
inductive NoGrammar where
  | ignore
  | hint
  | info
  | warning
  | error
deriving DecidableEq, Repr, Inhabited

namespace NoGrammar

/-- The name of a choice. -/
def label : NoGrammar → String
  | .ignore => "ignore"
  | .hint => "hint"
  | .info => "info"
  | .warning => "warning"
  | .error => "error"

/-- The severity of the report, if there is one. -/
def severity : NoGrammar → Option Severity
  | .ignore => none
  | .hint => some .hint
  | .info => some .information
  | .warning => some .warning
  | .error => some .error

end NoGrammar

/-- The pattern matches the address; a text that is no pattern matches nothing. -/
def Glob.isMatch [Library] (pattern uri : String) : Bool :=
  match Library.pattern? pattern with
  | some p => Library.fits p uri
  | none => false

/-- Binds the documents whose address matches a pattern to a grammar. -/
structure FileAssociation where
  pattern : String
  systemId : String
deriving DecidableEq, Repr, Inhabited

/-- The association is for the document at `uri`. -/
def FileAssociation.isFor [Library] (a : FileAssociation) (uri : String) : Bool := Glob.isMatch a.pattern uri

namespace Settings

/-- Settings of completion. -/
structure Completion where
  /-- Insert the end tag when a start tag is closed. -/
  autoCloseTags : Bool := true
deriving DecidableEq, Repr, Inhabited

/-- Settings of hovers. -/
structure Hover where
  /-- Show the documentation of the grammar. -/
  documentation : Bool := true
deriving DecidableEq, Repr, Inhabited

/-- Settings of validation. -/
structure Validation where
  enabled : Bool := true
  /-- Validate against the grammar if there is one. -/
  schema : Bool := true
  noGrammar : NoGrammar := .hint
  disallowDoctype : Bool := false
  resolveExternalEntities : Bool := false
deriving DecidableEq, Repr, Inhabited

/-- Settings of code lenses. -/
structure CodeLens where
  enabled : Bool := false
  /-- The kinds of lens that the client can act on. -/
  supportedKinds : List String := []
deriving DecidableEq, Repr, Inhabited

/-- The client can act on a kind of lens. -/
def CodeLens.supports (s : CodeLens) (kind : String) : Bool := s.supportedKinds.contains kind

/-- Settings of outlines. -/
structure Symbols where
  enabled : Bool := true
  /-- Patterns of the documents without an outline. -/
  excluded : List String := []
deriving DecidableEq, Repr, Inhabited

/-- The document at `uri` has no outline. -/
def Symbols.excludes [Library] (s : Symbols) (uri : String) : Bool := s.excluded.any fun p => Glob.isMatch p uri

/-- Settings of folding. -/
structure Foldings where
  /-- Fold the end tag with its element. -/
  includeClosingTag : Bool := false
deriving DecidableEq, Repr, Inhabited

end Settings

/-- The settings of all features. -/
structure Settings where
  completion : Settings.Completion := {}
  hover : Settings.Hover := {}
  validation : Settings.Validation := {}
  codeLens : Settings.CodeLens := {}
  symbols : Settings.Symbols := {}
  foldings : Settings.Foldings := {}
  fileAssociations : List FileAssociation := []
  markupKind : MarkupKind := .markdown
deriving DecidableEq, Repr, Inhabited

/-- Why settings are refused. -/
inductive SettingsError where
  | notAnObject
  | invalid
deriving DecidableEq, Repr, Inhabited

namespace Settings

/-! ## Reading -/

/-- The values of the fields of a record, in the order of their names. -/
def record? (names : List String) : Json → Option (List (Option Json))
  | .obj fields => some (names.map fun name => fields.lookup name)
  | .arr items =>
    if items.length ≤ names.length then some ((List.range names.length).map (items[·]?)) else none
  | _ => none

/-- A field of a record, which has a default if it is missing. -/
def field {α : Type} (read : Json → Option α) (default : α) : Option Json → Option α
  | some v => read v
  | none => some default

/-- A truth value. -/
def bool? : Json → Option Bool
  | .bool b => some b
  | _ => none

/-- A text. -/
def string? : Json → Option String
  | .str s => some s
  | _ => none

/-- A list of values of one form. -/
def list? {α : Type} (read : Json → Option α) : Json → Option (List α)
  | .arr items => items.mapM read
  | _ => none

/-- One of several names; also as an object with the name as its only field and no value. -/
def choice? {α : Type} (table : List (String × α)) : Json → Option α
  | .str s => table.lookup s
  | .obj [(s, .null)] => table.lookup s
  | _ => none

/-- The names of the choices for a document without a grammar. -/
def noGrammarTable : List (String × NoGrammar) :=
  [NoGrammar.ignore, .hint, .info, .warning, .error].map fun x => (x.label, x)

/-- The names of the forms of documentation. -/
def markupTable : List (String × MarkupKind) :=
  [MarkupKind.plainText, .markdown].map fun x => (x.label, x)

/-- The settings of completion. -/
def Completion.ofJson? (v : Json) : Option Completion := do
  match ← record? ["autoCloseTags"] v with
  | [a] => return { autoCloseTags := ← field bool? true a }
  | _ => none

/-- The settings of hovers. -/
def Hover.ofJson? (v : Json) : Option Hover := do
  match ← record? ["documentation"] v with
  | [a] => return { documentation := ← field bool? true a }
  | _ => none

/-- The settings of validation. -/
def Validation.ofJson? (v : Json) : Option Validation := do
  match ← record?
    ["enabled", "schema", "noGrammar", "disallowDocTypeDecl", "resolveExternalEntities"] v with
  | [a, b, c, d, e] =>
    return {
      enabled := ← field bool? true a
      schema := ← field bool? true b
      noGrammar := ← field (choice? noGrammarTable) .hint c
      disallowDoctype := ← field bool? false d
      resolveExternalEntities := ← field bool? false e }
  | _ => none

/-- The settings of code lenses. -/
def CodeLens.ofJson? (v : Json) : Option CodeLens := do
  match ← record? ["enabled", "supportedKinds"] v with
  | [a, b] =>
    return { enabled := ← field bool? false a, supportedKinds := ← field (list? string?) [] b }
  | _ => none

/-- The settings of outlines. -/
def Symbols.ofJson? (v : Json) : Option Symbols := do
  match ← record? ["enabled", "excluded"] v with
  | [a, b] => return { enabled := ← field bool? true a, excluded := ← field (list? string?) [] b }
  | _ => none

/-- The settings of folding. -/
def Foldings.ofJson? (v : Json) : Option Foldings := do
  match ← record? ["includeClosingTagInFold"] v with
  | [a] => return { includeClosingTag := ← field bool? false a }
  | _ => none

/-- A file association; both of its fields are needed. -/
def associationOfJson? (v : Json) : Option FileAssociation := do
  match ← record? ["pattern", "systemId"] v with
  | [some a, some b] => return { pattern := ← string? a, systemId := ← string? b }
  | _ => none

/-- The settings that a value describes. -/
def ofJson? (v : Json) : Option Settings := do
  match ← record? ["completion", "hover", "validation", "codeLens", "symbols", "foldings",
    "fileAssociations", "markupKind"] v with
  | [a, b, c, d, e, f, g, h] =>
    return {
      completion := ← field Completion.ofJson? {} a
      hover := ← field Hover.ofJson? {} b
      validation := ← field Validation.ofJson? {} c
      codeLens := ← field CodeLens.ofJson? {} d
      symbols := ← field Symbols.ofJson? {} e
      foldings := ← field Foldings.ofJson? {} f
      fileAssociations := ← field (list? associationOfJson?) [] g
      markupKind := ← field (choice? markupTable) .markdown h }
  | _ => none

/-- The settings that a value describes, or why it describes none. -/
def ofJson (v : Json) : Except SettingsError Settings :=
  match ofJson? v with
  | some s => .ok s
  | none => .error .invalid

/-! ## Writing -/

/-- A file association as a value. -/
def associationToJson (a : FileAssociation) : Json :=
  .mkObj [("pattern", .str a.pattern), ("systemId", .str a.systemId)]

/-- The settings as a value. -/
def toJson (s : Settings) : Json :=
  .mkObj [
    ("completion", .mkObj [("autoCloseTags", .bool s.completion.autoCloseTags)]),
    ("hover", .mkObj [("documentation", .bool s.hover.documentation)]),
    ("validation", .mkObj [
      ("enabled", .bool s.validation.enabled),
      ("schema", .bool s.validation.schema),
      ("noGrammar", .str s.validation.noGrammar.label),
      ("disallowDocTypeDecl", .bool s.validation.disallowDoctype),
      ("resolveExternalEntities", .bool s.validation.resolveExternalEntities)]),
    ("codeLens", .mkObj [
      ("enabled", .bool s.codeLens.enabled),
      ("supportedKinds", .ofStrings s.codeLens.supportedKinds)]),
    ("symbols", .mkObj [
      ("enabled", .bool s.symbols.enabled),
      ("excluded", .ofStrings s.symbols.excluded)]),
    ("foldings", .mkObj [("includeClosingTagInFold", .bool s.foldings.includeClosingTag)]),
    ("fileAssociations", .arr (s.fileAssociations.map associationToJson)),
    ("markupKind", .str s.markupKind.label)]

/-! ## Changing -/

/-- The part of a configuration about XML: `settings.xml`, or else `xml`. -/
def xmlSection? (v : Json) : Option Json := (v.path? ["settings", "xml"]).or (v.get? "xml")

/-- The settings that the options of a client's start describe; without a part about XML, the
defaults. -/
def ofOptions (options : Option Json) : Except SettingsError Settings :=
  match options.bind xmlSection? with
  | some xml => ofJson xml
  | none => .ok {}

mutual

/-- The value changed by another: objects field by field, all else replaced. -/
def mergeValue (target : Json) : Json → Json
  | .obj update =>
    match target with
    | .obj fields => .obj (mergeFields fields update)
    | _ => .obj update
  | update => update

/-- The fields of an object changed by those of another. -/
def mergeFields (fields : List (String × Json)) : List (String × Json) → List (String × Json)
  | [] => fields
  | (key, value) :: rest =>
    let merged := match fields.lookup key with
      | some existing => mergeValue existing value
      | none => value
    mergeFields (Json.insertField key merged fields) rest

end

/-- The settings changed by a later configuration, which may hold a part about XML or be one. -/
def merge (s : Settings) (update : Json) : Except SettingsError Settings :=
  match (xmlSection? update).getD update with
  | .obj fields => ofJson (mergeValue s.toJson (.obj fields))
  | _ => .error .notAnObject

end Settings

/-- The wording of the refusal. -/
def SettingsError.message : SettingsError → String
  | .notAnObject => "settings must be a JSON object"
  | .invalid => "invalid settings"

end XmlAssist

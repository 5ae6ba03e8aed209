import XmlAssist.Completion.Suggest
import XmlAssist.Diagnostics.Report
import XmlAssist.Extension.BuiltIn
import XmlAssist.Folding
import XmlAssist.Hover.Show
import XmlAssist.Navigation
import XmlAssist.Outline
import XmlAssist.Store

/-!
# The service

The service holds the open documents, the settings and the registry of extensions, and answers
requests. A request that needs participants starts the extensions, so that an answer comes with the
service as it is then.
-/

namespace XmlAssist

/-- The documents, the settings and the extensions of one client. -/
structure Service where
  /-- The extensions by number; not all of them need be registered. -/
  roster : Array Extension
  registry : Registry
  store : Store := {}
  settings : Settings := {}

namespace Service

/-- The service with given extensions, of which those with given numbers are registered in order. -/
def ofExtensions (roster : Array Extension) (registered : List Nat) : Service :=
  { roster, registry := { extensions := registered, hasDocuments := true } }

/-- The service with its own extensions. -/
def new [Library] : Service := ofExtensions Extension.builtIn.toArray (List.range Extension.builtIn.length)

/-- The extension with a number. -/
def extension (s : Service) (id : Nat) : Extension := s.roster.getD id default

/-- The hooks of the extensions. -/
def hooks (s : Service) (id : Nat) : Registry.Hooks := (s.extension id).hooks

/-- Asks the registry for something. -/
def perform (s : Service) (op : Registry.Operation) : Reply × Service :=
  let (reply, registry) := Registry.perform (fun _ => s.hooks) Registry.maxDepth op s.registry
  (reply, { s with registry })

/-- Finds open documents, if they can be looked up. -/
def lookup (s : Service) (allowed : Bool) : Grammar.Lookup := fun uri => if allowed then s.store.get? uri else none

/-- The sources of grammars in the list that an extension keeps. -/
def sourcesOf (s : Service) (id : Nat) (hasDocuments : Bool) : Grammar.Sources :=
  let list := s.registry.grammarList id
  { providers := list.providers.filterMap fun p => (s.extension p).provider
    associations := list.settings.fileAssociations
    lookup := s.lookup hasDocuments }

/-- The sources of grammars in use. -/
def sources? (s : Service) : Option Grammar.Sources :=
  s.registry.grammars.map fun id => s.sourcesOf id s.registry.hasDocuments

/-- Those who take part in a feature. -/
def participants (s : Service) (feature : Feature) : List Participant :=
  (s.registry.members feature).map fun id =>
    (s.extension id).participant (s.sourcesOf id (s.registry.grammarList id).hasDocuments)

/-- Those who take part in a feature, once the extensions are started. -/
def consult (s : Service) (feature : Feature) : List Participant × Service :=
  let s := (s.perform (.lookUp feature)).2
  (s.participants feature, s)

/-! ## The client -/

/-- The client connects: its settings are taken over. -/
def connect (s : Service) (params : InitializeParams) : Service :=
  { s with settings := params.settings, registry := s.registry.withParams params }

/-- The client changes the settings. Settings that are refused change nothing. -/
def configure (s : Service) (update : Json) : Except SettingsError Service := do
  let settings ← s.settings.merge update
  return (({ s with settings } : Service).perform (.save (.settingsChanged update))).2

/-- The client opens a document. -/
def didOpen (s : Service) (uri text : String) (version : Int) : Service :=
  { s with store := s.store.insert uri text version }

/-- The client changes a document. -/
def didChange (s : Service) (uri text : String) (version : Int) : Option Service :=
  (s.store.change uri text version).map fun store => { s with store }

/-- The client saves a document. -/
def didSave (s : Service) (uri : String) : Service := (s.perform (.save (.documentSaved uri))).2

/-- The client closes a document. -/
def didClose (s : Service) (uri : String) : Service := { s with store := s.store.erase uri }

/-! ## Requests -/

/-- The proposals at a position. -/
def complete (s : Service) (d : Document) (position : Position) (cancel : Cancel) :
    Except BadLocation CompletionList × Service :=
  match Completion.requestAt d position s.settings with
  | .error e => (.error e, s)
  | .ok r =>
    let (spot, r, cancel) := Completion.locate r cancel
    let response := Completion.Response.ofNode d r.node r.offset
    match spot with
    | none => (.ok response.toList, s)
    | some spot =>
      let (ps, s) := if spot.asksParticipants then s.consult .completion else ([], s)
      (.ok (Completion.suggest ps r response cancel spot).toList, s)

/-- The text to insert behind `>` or `</`. -/
def tagToInsert (s : Service) (d : Document) (position : Position) : Except BadLocation (Option String) :=
  Completion.tagToInsert d position s.settings

/-- What to show at a position. -/
def hover (s : Service) (d : Document) (position : Position) (cancel : Cancel) :
    Except BadLocation (Option Hover) × Service :=
  match Request.ofPosition d position with
  | .error e => (.error e, s)
  | .ok r =>
    match Hover.target? s.settings r with
    | none => (.ok none, s)
    | some (target, r) =>
      let (ps, s) := s.consult .hover
      (.ok (Hover.show? ps target r cancel), s)

/-- The problems of a document, and the first grammar that is not at hand. -/
def collectDiagnostics (s : Service) (d : Document) (cancel : Cancel) :
    (List Diagnostic × Option Failure) × Service :=
  if s.settings.validation.enabled then
    let (ps, t) := s.consult .diagnostics
    (Diagnostics.collect ps d s.settings cancel, t)
  else (([], none), s)

/-- The problems of a document. -/
def diagnostics (s : Service) (d : Document) (cancel : Cancel) : List Diagnostic × Service :=
  let (found, s) := s.collectDiagnostics d cancel
  (found.1, s)

/-- The report of the problems of a document. -/
def report (s : Service) (d : Document) (cancel : Cancel) :
    (DiagnosticReport × Option Diagnostics.Pending) × Service :=
  let (found, s) := s.collectDiagnostics d cancel
  (Diagnostics.report d found, s)

/-- Answers a request about a position with the help of participants. -/
def answerAt {α : Type} (s : Service) (feature : Feature) (d : Document) (position : Position)
    (answer : List Participant → Request → Except BadLocation α) : Except BadLocation α × Service :=
  match Request.ofPosition d position with
  | .error e => (.error e, s)
  | .ok r =>
    let (ps, s) := s.consult feature
    (answer ps r, s)

/-- Where the thing at a position is defined. -/
def definitions (s : Service) (d : Document) (position : Position) (cancel : Cancel) :
    Except BadLocation (List LocationLink) × Service :=
  s.answerAt .definition d position fun ps r => Navigation.definitions ps r cancel

/-- Where the type of the thing at a position is defined. -/
def typeDefinitions (s : Service) (d : Document) (position : Position) (cancel : Cancel) :
    Except BadLocation (List LocationLink) × Service :=
  s.answerAt .typeDefinition d position fun ps r => .ok (Navigation.typeDefinitions ps r cancel)

/-- The places that refer to the thing at a position. -/
def references (s : Service) (d : Document) (position : Position) (withDeclaration : Bool) (cancel : Cancel) :
    Except BadLocation (List Location) × Service :=
  s.answerAt .reference d position fun ps r => .ok (Navigation.references ps r withDeclaration cancel)

/-- The ranges to highlight for a position. -/
def highlights (s : Service) (d : Document) (position : Position) (cancel : Cancel) :
    Except BadLocation (List Highlight) × Service :=
  s.answerAt .highlighting d position fun ps r => Navigation.highlights ps r cancel

/-- The edits that give the thing at a position another name. -/
def renameEdits (s : Service) (d : Document) (position : Position) (newText : String) :
    Except BadLocation WorkspaceEdit × Service :=
  s.answerAt .rename d position fun ps r => Navigation.renameEdits ps r newText

/-- The lenses of a document, if they are enabled. -/
def lenses (s : Service) (d : Document) (cancel : Cancel) : List CodeLens × Service :=
  if s.settings.codeLens.enabled then
    let (ps, t) := s.consult .codeLens
    (Navigation.lenses ps d s.settings.codeLens cancel, t)
  else ([], s)

/-- The fixes for problems in a range of a document. -/
def fixes (s : Service) (d : Document) (range : Range) (problems : List Diagnostic) (cancel : Cancel) :
    List CodeAction × Service :=
  let (ps, s) := s.consult .codeAction
  (Diagnostics.fixes ps d range problems cancel, s)

/-- The links of a document. -/
def links (s : Service) (d : Document) : List DocumentLink × Service :=
  let (ps, s) := s.consult .documentLink
  (Navigation.links ps d, s)

variable [Library]

/-- The outline of a document. -/
def symbols (s : Service) (d : Document) (cancel : Cancel) : List Symbol := Outline.symbols d s.settings cancel

/-- The outline of a document as a list. -/
def symbolInformations (s : Service) (d : Document) (cancel : Cancel) : List SymbolInformation :=
  Outline.informations d s.settings cancel

/-- The folds of a document. -/
def foldingRanges (s : Service) (d : Document) (cancel : Cancel) : List FoldingRange :=
  Folding.ranges d s.settings cancel

end Service

end XmlAssist

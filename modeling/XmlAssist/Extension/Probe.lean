import XmlAssist.Diagnostics.Syntax
import XmlAssist.Extension

/-!
# Probes

A probe takes part in all features and contributes a description of what it was asked, so that the
work of the service can be observed. It can be told to fail in its hooks and behind its
contributions, and to ask things of the registry when it is started.
-/

namespace XmlAssist

/-- How a probe behaves behind its contributions. -/
inductive Probe.Mode where
  | plain
  /-- Proposes no tags and has an empty text for them. -/
  | silent
  /-- Defines things in files of declarations only. -/
  | declarationsOnly
  | failing
  /-- Its diagnostics need a grammar that is not at hand. -/
  | waiting (download : Option Download)
deriving DecidableEq, Repr, Inhabited

/-- A probe. -/
structure Probe where
  name : String
  mode : Probe.Mode := .plain
  failsToStart : Bool := false
  failsToStop : Bool := false
  failsToSave : Bool := false
  /-- What it asks of the registry when it is started. -/
  onStart : List Step := []
deriving Repr, Inhabited

namespace Probe

/-- A part of a description, a dash where it is missing. -/
def part (x : Option String) : String := x.getD "-"

/-- The parts of a description. -/
def join (parts : List String) : String := "|".intercalate parts

/-- The name of a node. -/
def nodeName (r : Request) : String := part (r.document.node r.node).name

/-- The description of a request. -/
def describe (p : Probe) (r : Request) : String :=
  join [p.name, r.document.uri, toString r.offset,
    toString (r.document.span (r.document.nodeAt r.offset)).start,
    part ((r.document.attributeAt? r.offset).map (·.2.name)), nodeName r, part r.tag?, part r.attributeName?]

/-- The failure behind a contribution. -/
def failure? (p : Probe) : Option Failure :=
  if p.mode = .failing then some (.other (p.name ++ " failed")) else none

/-- The contribution of one item. -/
def give {α : Type} (p : Probe) (cancel : Cancel) (items : List α) : Contribution α :=
  { items, failure := p.failure?, cancel }

/-- A truth value in a description. -/
def truth (b : Bool) : String := if b then "true" else "false"

/-- The proposal that describes a request for proposals. -/
def item (p : Probe) (r : Completion.Request) (what : String) : Completion.Item :=
  { label := join [p.name, what, nodeName r.toRequest, part r.currentTag, part r.currentAttribute]
    kind := .value
    detail := some (toString r.replaced.start ++ ".." ++ toString r.replaced.stop ++ " " ++ truth r.quoted)
    sortText := some p.name
    edit := some ⟨r.range, r.valueText "v"⟩ }

/-- The proposals of a probe. -/
def complete (p : Probe) (place : Completion.Place) (r : Completion.Request) (response : Completion.Response) :
    Completion.Response :=
  match place with
  | .tagOpen => if p.mode = .silent then response else response.add (p.item r "open")
  | .content => response.add (p.item r "content")
  | .attributeName withValue =>
    let bare (label : String) : Completion.Item := { label, kind := .value }
    [p.item r ("name " ++ truth withValue), bare "x", bare "x", bare "y"].foldl (·.addAttribute ·) response
  | .attributeValue typed => response.add (p.item r ("value " ++ typed))

/-- The text of a probe. -/
def hover (p : Probe) (target : Hover.Target) (r : Hover.Request) : Except Failure (Option String) :=
  let text := p.describe r.toRequest
  match p.failure? with
  | some e => .error e
  | none =>
    match target with
    | .tag =>
      if p.mode = .silent then .ok (some "")
      else .ok (some (text ++ " tag " ++ truth r.isOpen ++ " " ++ truth (r.settings.markupKind == .markdown)))
    | .attributeName => .ok (some (text ++ " name"))
    | .attributeValue => .ok (some (text ++ " value " ++ part (r.toRequest.attribute?.bind (·.value))))

/-- The diagnostics of a probe. -/
def diagnose (p : Probe) (d : Document) (cancel : Cancel) : Contribution Diagnostic :=
  let warning : Diagnostic := { range := d.rootRange, severity := .warning, message := p.name }
  match p.mode with
  | .waiting none =>
    { items := [warning], failure := some (.unavailable (p.name ++ " unavailable") none), cancel }
  | .waiting (some download) =>
    { items := [warning], failure := some (.unavailable p.name (some download)), cancel }
  | _ => p.give cancel [warning]

/-- The definitions of a probe. -/
def define (p : Probe) (r : Request) (cancel : Cancel) : Contribution LocationLink :=
  match r.document.rangeOf (r.document.span r.node) with
  | .ok origin => p.give cancel [{ origin, targetUri := p.describe r, target := {} }]
  | .error e => { failure := some (.ofBadLocation e), cancel }

/-- What a probe contributes. -/
def participant (p : Probe) : Participant where
  complete := p.complete
  hover := p.hover
  diagnose d _ := p.diagnose d
  fix d problem range cancel := p.give cancel [.quickFix p.name problem d.uri range ""]
  link d cancel := p.give cancel [{ range := {}, target := p.name ++ " " ++ d.uri }]
  appliesTo d := p.mode ≠ .declarationsOnly || d.isDtd
  define := p.define
  typeDefine r cancel :=
    p.give cancel [{ origin := .point r.position, targetUri := p.describe r, target := {} }]
  refer r withDeclaration cancel :=
    p.give cancel [{ uri := p.describe r ++ " " ++ truth withDeclaration, range := {} }]
  lens d settings cancel :=
    p.give cancel [{ range := {}, command :=
      if settings.supports p.name then some { title := p.name, command := d.uri } else none }]
  highlight r cancel := p.give cancel [{ range := .point r.position, kind := .text }]
  rename r newText cancel :=
    p.give cancel [{ range := .point r.position, newText := p.describe r ++ " " ++ newText }]

/-- The steps of a hook that fails before its last step, or not at all. -/
def failing (fails : Bool) (steps : List Step) : List Step := if fails then .fail :: steps else steps

/-- The extension that is a probe. -/
def toExtension (p : Probe) : Extension where
  name := p.name
  hooks := {
    start := fun _ => p.onStart ++ failing p.failsToStart [.join Feature.all]
    stop := failing p.failsToStop [.leave Feature.all]
    save := fun _ => failing p.failsToSave [] }
  participant _ := p.participant

end Probe

end XmlAssist

import XmlAssist.Completion.Request
import XmlAssist.Contribution
import XmlAssist.Editor.Symbol

/-!
# Participants

A participant contributes to the answers of the service. It takes part in some features only, and
contributes nothing to the others.
-/

namespace XmlAssist

/-- The features that participants contribute to. -/
inductive Feature where
  | completion
  | hover
  | diagnostics
  | codeAction
  | documentLink
  | definition
  | typeDefinition
  | reference
  | codeLens
  | highlighting
  | rename
deriving DecidableEq, Repr, Inhabited

namespace Feature

/-- All features. -/
def all : List Feature :=
  [.completion, .hover, .diagnostics, .codeAction, .documentLink, .definition, .typeDefinition,
    .reference, .codeLens, .highlighting, .rename]

/-- Every feature is listed. -/
theorem mem_all (f : Feature) : f ∈ all := by cases f <;> decide

end Feature

/-- What a participant contributes to each feature. -/
structure Participant where
  /-- Adds proposals; those added before a failure stay. -/
  complete : Completion.Place → Completion.Request → Completion.Response → Completion.Response :=
    fun _ _ response => response
  /-- A text to show. -/
  hover : Hover.Target → Hover.Request → Except Failure (Option String) := fun _ _ => .ok none
  diagnose : Document → Settings → Cancel → Contribution Diagnostic := fun _ _ cancel => { cancel }
  /-- Fixes for a diagnostic of a document in a requested range. -/
  fix : Document → Diagnostic → Range → Cancel → Contribution CodeAction := fun _ _ _ cancel => { cancel }
  link : Document → Cancel → Contribution DocumentLink := fun _ cancel => { cancel }
  /-- The documents whose definitions it knows. A plain predicate: it is asked outside of the call whose
  failure is passed over. -/
  appliesTo : Document → Bool := fun _ => true
  define : Request → Cancel → Contribution LocationLink := fun _ cancel => { cancel }
  typeDefine : Request → Cancel → Contribution LocationLink := fun _ cancel => { cancel }
  /-- The places that refer to the thing at a place, and if asked for those that declare it. -/
  refer : Request → Bool → Cancel → Contribution Location := fun _ _ cancel => { cancel }
  lens : Document → Settings.CodeLens → Cancel → Contribution CodeLens := fun _ _ cancel => { cancel }
  highlight : Request → Cancel → Contribution Highlight := fun _ cancel => { cancel }
  rename : Request → String → Cancel → Contribution TextEdit := fun _ _ cancel => { cancel }

/-- The definitions of a participant, which is called only for a document that it applies to. -/
def Participant.definitions (p : Participant) (r : Request) (cancel : Cancel) : Contribution LocationLink :=
  if p.appliesTo r.document then p.define r cancel else { cancel }

end XmlAssist

import XmlAssist.Contribution
import XmlAssist.Grammar
import XmlAssist.Settings

/-!
# Where grammars come from

A provider yields the grammar that a document refers to, or the one at an address. The grammars of
a document are those of all providers that know it, and those that file associations bind it to.
-/

namespace XmlAssist.Grammar

/-- Finds other documents by their address. -/
abbrev Lookup := String → Option Document

/-- A source of grammars. -/
structure Provider where
  /-- The document refers to a grammar of this provider. -/
  adapts : Document → Bool
  /-- The grammar that a document refers to. -/
  ofDocument : Lookup → Document → Except Failure (Option Grammar)
  /-- The grammar at an address. -/
  ofSystemId : Lookup → String → Except Failure (Option Grammar) := fun _ _ => .ok none

/-- The grammars found, of two with one address the first, and the first that is not at hand. -/
structure Found where
  grammars : List Grammar := []
  pending : Option Failure := none

namespace Found

/-- Adds what a provider answered. A failure of another kind counts as no answer. -/
def add (x : Found) : Except Failure (Option Grammar) → Found
  | .ok (some g) =>
    if x.grammars.any (·.uri == g.uri) then x else { x with grammars := x.grammars ++ [g] }
  | .ok none => x
  | .error e => if e.isUnavailable then { x with pending := x.pending.or (some e) } else x

/-- The grammars; that one is not at hand matters only if there is no other. -/
def result (x : Found) : Except Failure (List Grammar) :=
  match x.grammars, x.pending with
  | [], some e => .error e
  | gs, _ => .ok gs

end Found

/-- The providers that are asked for grammars, the associations, and the other documents. -/
structure Sources where
  providers : List Provider := []
  associations : List FileAssociation := []
  lookup : Lookup := fun _ => none

namespace Sources

variable [Library]

/-- What the providers answer for a document. -/
def answers (x : Sources) (d : Document) : List (Except Failure (Option Grammar)) :=
  ((x.providers.filter (·.adapts d)).map (·.ofDocument x.lookup d)) ++
    (x.associations.filter (·.isFor d.uri)).flatMap fun a =>
      x.providers.map (·.ofSystemId x.lookup a.systemId)

/-- The grammars of a document. -/
def grammars (x : Sources) (d : Document) : Except Failure (List Grammar) :=
  ((x.answers d).foldl Found.add {}).result

/-- The declaration of an element in the first of several grammars that has one. -/
def declarationIn? (grammars : List Grammar) (d : Document) (id : Nat) : Option (Grammar × Element) :=
  let ns := (d.element? id).bind fun e => d.namespace? id e
  grammars.findSome? fun g => (g.declaration? d ns id).map (g, ·)

/-- The declaration of an element and the grammar that it is in. -/
def declaration? (x : Sources) (d : Document) (id : Nat) : Except Failure (Option (Grammar × Element)) :=
  (x.grammars d).map fun gs => declarationIn? gs d id

/-- The name of an attribute says where a schema is. -/
def isSchemaHint (name : String) : Bool :=
  match (Text.splitAll ':' name).reverse with
  | last :: _ :: _ => last == "schemaLocation" || last == "noNamespaceSchemaLocation"
  | _ => false

/-- The document refers to a grammar in some way. -/
def isReferenced (x : Sources) (d : Document) : Bool :=
  d.doctype?.isSome ||
    (match d.root? with
      | some root => (d.attributes root).any fun (_, a) => isSchemaHint a.name
      | none => false) ||
    x.associations.any (·.isFor d.uri) || x.providers.any (·.adapts d)

end Sources

end XmlAssist.Grammar

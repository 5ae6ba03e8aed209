import XmlAssist.Extension

/-!
# A grammar given as data

An extension that provides one grammar, for the documents whose address has a given ending.
-/

namespace XmlAssist

/-- Whether the grammar can be had. -/
inductive FixedGrammar.Supply where
  | available
  /-- There is none. -/
  | absent
  /-- Asking for it fails. -/
  | broken
  /-- It is not at hand. -/
  | missing
deriving DecidableEq, Repr, Inhabited

/-- A grammar and the documents that it is for. -/
structure FixedGrammar where
  name : String
  grammar : Grammar
  /-- The ending of the addresses of the documents. -/
  suffix : String := ".xml"
  supply : FixedGrammar.Supply := .available
deriving Repr, Inhabited

namespace FixedGrammar

/-- The grammar, or why it cannot be had. -/
def get (x : FixedGrammar) : Except Failure (Option Grammar) :=
  match x.supply with
  | .available => .ok (some x.grammar)
  | .absent => .ok none
  | .broken => .error (.other (x.name ++ " failed"))
  | .missing => .error (.unavailable (x.name ++ " unavailable") none)

/-- The grammar as a source of grammars. -/
def provider (x : FixedGrammar) : Grammar.Provider where
  adapts d := d.uri.endsWith x.suffix
  ofDocument _ _ := x.get
  ofSystemId _ systemId := if systemId = x.grammar.uri then x.get else .ok none

/-- The extension that provides the grammar. -/
def toExtension (x : FixedGrammar) : Extension where
  name := x.name
  hooks := { start := fun _ => [.offerGrammars], stop := [.withdrawGrammars] }
  provider := some x.provider

end FixedGrammar

end XmlAssist

import XmlAssist.Extension
import XmlAssist.Participant.DocumentType
import XmlAssist.Participant.Grammar
import XmlAssist.Participant.Prolog
import XmlAssist.Participant.Schema
import XmlAssist.Participant.SchemaInstance

/-!
# The extensions of the service

Grammars come first, since the extensions behind it enter themselves into its list of providers.
-/

namespace XmlAssist.Extension

variable [Library]

/-- The features of the extension for grammars. -/
def grammarFeatures : List Feature := [.completion, .hover, .diagnostics, .typeDefinition, .codeAction]

/-- Keeps the list of grammar providers and contributes what follows from grammars. -/
def contentModel : Extension where
  name := "contentmodel"
  hooks := {
    start := fun params => [.openGrammars params.settings, .join grammarFeatures]
    stop := [.closeGrammars, .leave grammarFeatures]
    save := fun
      | .settingsChanged update => [.configureGrammars update]
      | .documentSaved _ => [] }
  participant := Participant.FromGrammar.participant

/-- The XML declaration. -/
def prolog : Extension := .ofParticipant "prolog" [.completion] Participant.Prolog.participant

/-- The features of the extension for document types. -/
def doctypeFeatures : List Feature := [.definition, .reference, .codeLens, .highlighting, .documentLink]

/-- Document types: provides their grammars and leads from name to name. -/
def documentType : Extension where
  name := "dtd"
  hooks := {
    start := fun _ => [.offerGrammars, .join doctypeFeatures]
    stop := [.withdrawGrammars, .leave doctypeFeatures] }
  participant _ := Participant.FromDoctype.participant
  provider := some Grammar.DocumentType.provider

/-- Types in schemas. -/
def schema : Extension :=
  .ofParticipant "xsd" [.completion, .hover, .definition] Participant.FromSchema.participant

/-- Attributes for schema instances. -/
def schemaInstance : Extension :=
  .ofParticipant "xsi" [.completion, .hover] Participant.FromInstance.participant

/-- The extensions of the service in the order in which they are started. -/
def builtIn : List Extension := [contentModel, prolog, documentType, schema, schemaInstance]

end XmlAssist.Extension

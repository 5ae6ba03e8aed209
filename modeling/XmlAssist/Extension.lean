import XmlAssist.Grammar.Provider
import XmlAssist.Registry.Lifecycle

/-!
# Extensions

An extension has hooks, in which it takes part in features, and contributes what its participant
contributes. It may also provide grammars.
-/

namespace XmlAssist

/-- An extension of the service. -/
structure Extension where
  name : String
  hooks : Registry.Hooks := {}
  /-- What it contributes, given the grammars of the list that it keeps. -/
  participant : Grammar.Sources → Participant := fun _ => {}
  provider : Option Grammar.Provider := none

instance : Inhabited Extension := ⟨{ name := "" }⟩

namespace Extension

/-- An extension that takes part in features while it is started. -/
def ofParticipant (name : String) (features : List Feature) (participant : Participant) : Extension where
  name := name
  hooks := { start := fun _ => [.join features], stop := [.leave features] }
  participant _ := participant

end Extension

end XmlAssist

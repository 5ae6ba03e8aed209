import XmlAssist.Participant

/-!
# The registry of extensions

The registry knows the extensions and who takes part in which feature. Extensions are known by
number. They are started on the first request only, with the parameters and the last notification
that came before it; what extensions ask of the registry while they are being started is done
before it counts as initialized.

This module holds the state; what extensions do in it is told in steps.
-/

namespace XmlAssist

/-- What a client tells when it connects. -/
structure InitializeParams where
  rootUri : Option String := none
  options : Option Json := none
  settings : Settings := {}
deriving Repr, Inhabited

/-- What extensions are notified of. -/
inductive SaveContext where
  | settingsChanged (update : Json)
  | documentSaved (uri : String)
deriving Repr, Inhabited

/-- The notification is about settings. -/
def SaveContext.isSettings : SaveContext → Bool
  | .settingsChanged _ => true
  | .documentSaved _ => false

/-- What an extension does in one of its hooks. -/
inductive Step where
  /-- Asks for an extension to be added. -/
  | register (extension : Nat)
  /-- Asks for an extension to be removed. -/
  | unregister (extension : Nat)
  /-- Passes on a notification. -/
  | save (context : SaveContext)
  /-- Asks who takes part in a feature. -/
  | lookUp (feature : Feature := .hover)
  /-- Passes on what a client tells when it connects. -/
  | connect (params : InitializeParams)
  /-- Takes part in features. -/
  | join (features : List Feature)
  /-- Takes part in features no longer. -/
  | leave (features : List Feature)
  /-- Opens the list of grammar providers, with settings. -/
  | openGrammars (settings : Settings)
  /-- Closes the list of grammar providers. -/
  | closeGrammars
  /-- Changes the settings of the list of grammar providers. -/
  | configureGrammars (update : Json)
  /-- Enters itself into the list of grammar providers. -/
  | offerGrammars
  /-- Removes itself from the list of grammar providers. -/
  | withdrawGrammars
  /-- Fails; what would follow is not done. -/
  | fail
deriving Repr, Inhabited

/-- What the registry answers to an extension. -/
inductive Reply where
  | done
  /-- The list has changed as asked for. -/
  | changed (yes : Bool)
  | count (n : Nat)
deriving DecidableEq, Repr, Inhabited

namespace Registry

/-- How far the extensions are started. -/
inductive Phase where
  | uninitialized
  | starting
  | initialized
deriving DecidableEq, Repr, Inhabited

/-- What has happened to extensions. -/
inductive Event where
  | started (extension : Nat) (params : InitializeParams) (whileInitialized : Bool)
  | stopped (extension : Nat)
  | notified (extension : Nat) (context : SaveContext)
  /-- An extension got an answer to what it asked for when it was started. -/
  | answered (extension : Nat) (reply : Reply)
  /-- So many lists were joined. -/
  | joined (extension : Nat) (count : Nat)
  /-- So many lists were left. -/
  | left (extension : Nat) (count : Nat)
deriving Repr, Inhabited

/-- The list of grammar providers that an extension keeps. -/
structure GrammarList where
  /-- The extensions that provide grammars, in order. -/
  providers : List Nat := []
  settings : Settings := {}
  /-- Other documents can be looked up. -/
  hasDocuments : Bool := false
deriving Repr, Inhabited

end Registry

/-- The extensions and who takes part in which feature. -/
structure Registry where
  phase : Registry.Phase := .uninitialized
  params : InitializeParams := {}
  /-- The last notification that came before the extensions were started. -/
  pendingSave : Option SaveContext := none
  /-- The last notification about settings. -/
  lastSettings : Option SaveContext := none
  /-- Extensions that were added while others were being started. -/
  late : List Nat := []
  extensions : List Nat := []
  /-- Who takes part in what, in the order of joining. -/
  participants : List (Feature × Nat) := []
  /-- The lists of grammar providers, each with the extension that keeps it. -/
  grammarLists : List (Nat × Registry.GrammarList) := []
  /-- The extension whose list of grammar providers is in use. -/
  grammars : Option Nat := none
  /-- Other documents can be looked up. -/
  hasDocuments : Bool := false
  /-- What has happened, the last first. -/
  trace : List Registry.Event := []
  /-- Hooks were nested more deeply than is followed. -/
  exhausted : Bool := false
deriving Repr, Inhabited

namespace Registry

/-- The extensions are started. -/
def isInitialized (r : Registry) : Bool := r.phase == .initialized

/-- Notes what has happened. -/
def record (r : Registry) (e : Event) : Registry := { r with trace := e :: r.trace }

/-- Keeps the parameters, unless extensions are started already. -/
def withParams (r : Registry) (params : InitializeParams) : Registry :=
  if r.phase = .uninitialized then { r with params } else r

/-- Who takes part in a feature, in order. -/
def members (r : Registry) (feature : Feature) : List Nat :=
  (r.participants.filter (·.1 == feature)).map (·.2)

/-- Enters an extension into the lists of features, and counts those that it was not in. -/
def join (r : Registry) (ext : Nat) (features : List Feature) : Nat × Registry :=
  features.foldl (fun (n, r) f =>
    if r.participants.contains (f, ext) then (n, r)
    else (n + 1, { r with participants := r.participants ++ [(f, ext)] })) (0, r)

/-- Removes an extension from the lists of features, and counts those that it was in. -/
def leave (r : Registry) (ext : Nat) (features : List Feature) : Nat × Registry :=
  ((features.filter fun f => r.participants.contains (f, ext)).length,
    { r with participants := r.participants.filter fun (f, e) => !(features.contains f && e == ext) })

/-- The list of grammar providers that an extension keeps. -/
def grammarList (r : Registry) (ext : Nat) : GrammarList := (r.grammarLists.lookup ext).getD {}

/-- Changes the list of grammar providers that an extension keeps. -/
def setGrammarList (r : Registry) (ext : Nat) (list : GrammarList) : Registry :=
  { r with grammarLists := (ext, list) :: r.grammarLists.filter (·.1 != ext) }

/-- Changes the list of grammar providers in use, if there is one. -/
def changeProviders (r : Registry) (f : List Nat → List Nat) : Registry :=
  match r.grammars with
  | none => r
  | some owner =>
    let list := r.grammarList owner
    r.setGrammarList owner { list with providers := f list.providers }

/-- Opens the list of grammar providers of an extension and brings it into use. -/
def openGrammars (r : Registry) (ext : Nat) (settings : Settings) : Registry :=
  let list := { r.grammarList ext with settings, hasDocuments := r.hasDocuments }
  { r.setGrammarList ext list with grammars := some ext }

/-- Changes the settings of the list of an extension; settings that are refused change nothing. -/
def configureGrammars (r : Registry) (ext : Nat) (update : Json) : Registry :=
  let list := r.grammarList ext
  match list.settings.merge update with
  | .ok settings => r.setGrammarList ext { list with settings }
  | .error _ => r

end Registry

end XmlAssist

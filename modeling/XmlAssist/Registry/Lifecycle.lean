import XmlAssist.Registry

/-!
# Starting and stopping extensions

What the registry does when extensions are added, removed, notified or looked up. Their hooks may
ask the registry for the same things again; how deeply that is followed is bounded.
-/

namespace XmlAssist.Registry

/-- The hooks of an extension. -/
structure Hooks where
  start : InitializeParams → List Step := fun _ => []
  stop : List Step := []
  save : SaveContext → List Step := fun _ => []

/-- The hooks of all extensions. What a hook does may depend on all that has happened before. -/
abbrev Behavior := List Event → Nat → Hooks

/-- What can be asked of the registry. -/
inductive Operation where
  /-- What a client tells when it connects; it counts until the extensions are started. -/
  | connect (params : InitializeParams)
  | register (extension : Nat)
  | unregister (extension : Nat)
  | save (context : SaveContext)
  /-- Who takes part in a feature; the extensions are started if they are not. -/
  | lookUp (feature : Feature)
deriving Repr, Inhabited

/-- How an operation is carried out. -/
abbrev Performer := Operation → Registry → Reply × Registry

/-- Asks the registry on behalf of an extension and notes the answer. -/
def ask (perform : Performer) (ext : Nat) (op : Operation) (r : Registry) : Registry :=
  let (reply, r) := perform op r
  r.record (.answered ext reply)

/-- Does the steps of a hook in order, up to one that fails. -/
def runSteps (perform : Performer) (ext : Nat) (r : Registry) : List Step → Registry
  | [] => r
  | step :: rest =>
    match step with
    | .fail => r
    | .register e => runSteps perform ext (ask perform ext (.register e) r) rest
    | .unregister e => runSteps perform ext (ask perform ext (.unregister e) r) rest
    | .save context => runSteps perform ext (ask perform ext (.save context) r) rest
    | .lookUp feature => runSteps perform ext (ask perform ext (.lookUp feature) r) rest
    | .connect params => runSteps perform ext (ask perform ext (.connect params) r) rest
    | .join features =>
      let (n, r) := r.join ext features
      runSteps perform ext (r.record (.joined ext n)) rest
    | .leave features =>
      let (n, r) := r.leave ext features
      runSteps perform ext (r.record (.left ext n)) rest
    | .openGrammars settings => runSteps perform ext (r.openGrammars ext settings) rest
    | .closeGrammars => runSteps perform ext { r with grammars := none } rest
    | .configureGrammars update => runSteps perform ext (r.configureGrammars ext update) rest
    | .offerGrammars =>
      runSteps perform ext (r.changeProviders fun ps => if ps.contains ext then ps else ps ++ [ext]) rest
    | .withdrawGrammars => runSteps perform ext (r.changeProviders (·.filter (· != ext))) rest

/-- Starts an extension. -/
def start (hooks : Behavior) (perform : Performer) (params : InitializeParams) (r : Registry) (ext : Nat) :
    Registry :=
  runSteps perform ext (r.record (.started ext params r.isInitialized)) ((hooks r.trace ext).start params)

/-- Stops an extension. -/
def stop (hooks : Behavior) (perform : Performer) (r : Registry) (ext : Nat) : Registry :=
  runSteps perform ext (r.record (.stopped ext)) (hooks r.trace ext).stop

/-- Notifies an extension. -/
def notify (hooks : Behavior) (perform : Performer) (context : SaveContext) (r : Registry) (ext : Nat) :
    Registry :=
  runSteps perform ext (r.record (.notified ext context)) ((hooks r.trace ext).save context)

/-- Starts an extension after the others, and tells it the last settings. -/
def startLate (hooks : Behavior) (perform : Performer) (params : InitializeParams)
    (settings : Option SaveContext) (r : Registry) (ext : Nat) : Registry :=
  let r := start hooks perform params r ext
  match settings with
  | some context => notify hooks perform context r ext
  | none => r

/-- Notifies all extensions. -/
def notifyAll (hooks : Behavior) (perform : Performer) (context : SaveContext) (r : Registry) : Registry :=
  r.extensions.foldl (notify hooks perform context) r

/-- Starts those that came late and passes on the notification that waits, until neither is left;
then the registry is initialized. -/
def settle (hooks : Behavior) (perform : Performer) (params : InitializeParams) :
    Nat → Registry → Registry
  | 0, r => { r with phase := .initialized, exhausted := true }
  | n + 1, r =>
    match r.late, r.pendingSave with
    | [], none => { r with phase := .initialized }
    | [], some context =>
      settle hooks perform params n (notifyAll hooks perform context { r with pendingSave := none })
    | late, pending =>
      let settings := if pending.isSome then none else r.lastSettings
      settle hooks perform params n
        (late.foldl (startLate hooks perform params settings) { r with late := [] })

/-- Starts the extensions unless that has been done or is being done. -/
def ensureInitialized (hooks : Behavior) (perform : Performer) (bound : Nat) (r : Registry) : Registry :=
  if r.phase = .uninitialized then
    let params := r.params
    settle hooks perform params bound
      (r.extensions.foldl (start hooks perform params) { r with phase := .starting })
  else r

/-- Adds an extension that is not there. Once the registry is initialized it is started at once. -/
def register (hooks : Behavior) (perform : Performer) (ext : Nat) (r : Registry) : Bool × Registry :=
  if r.extensions.contains ext then (false, r)
  else
    let r := { r with extensions := r.extensions ++ [ext] }
    match r.phase with
    | .uninitialized => (true, r)
    | .starting => (true, { r with late := r.late ++ [ext] })
    | .initialized => (true, startLate hooks perform r.params r.lastSettings r ext)

/-- Removes an extension, and stops it if the registry is initialized. -/
def unregister (hooks : Behavior) (perform : Performer) (ext : Nat) (r : Registry) : Bool × Registry :=
  let removed := r.extensions.contains ext
  let r := { r with late := r.late.filter (· != ext), extensions := r.extensions.filter (· != ext) }
  (removed, if removed && r.isInitialized then stop hooks perform r ext else r)

/-- Notifies all extensions, or keeps the notification until they are started. -/
def save (hooks : Behavior) (perform : Performer) (context : SaveContext) (r : Registry) : Registry :=
  let r := if context.isSettings then { r with lastSettings := some context } else r
  if r.isInitialized then notifyAll hooks perform context r else { r with pendingSave := some context }

/-- Carries out an operation, following hooks to a depth. -/
def perform (hooks : Behavior) : Nat → Performer
  | 0, _, r => (.done, { r with exhausted := true })
  | depth + 1, op, r =>
    let inner := perform hooks depth
    match op with
    | .connect params => (.done, r.withParams params)
    | .register ext =>
      let (changed, r) := register hooks inner ext r
      (.changed changed, r)
    | .unregister ext =>
      let (changed, r) := unregister hooks inner ext r
      (.changed changed, r)
    | .save context => (.done, save hooks inner context r)
    | .lookUp feature =>
      let r := ensureInitialized hooks inner (depth + 1) r
      (.count (r.members feature).length, r)

/-- How deeply hooks inside hooks are followed. -/
def maxDepth : Nat := 1000

end XmlAssist.Registry

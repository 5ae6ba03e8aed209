import XmlAssist.Library.Own
import XmlAssist.Proofs.Settings.Merge
import XmlAssist.Service

/-!
# Settings of the service and of its extensions

The service changes its settings as soon as a change is accepted. The extension that keeps the list
of grammar providers changes its own: it starts with those that the client connected with, and is
told of later notifications by the registry. Until the extensions are started the registry has room
for one notification, so both go through the same changes, but for those that came before the first
request and were not the last (`Coherent`). The file associations are the same on both sides all the
same where the last change that names them is among those that are passed on (`associations_run`).

A document that is saved is a notification too. It says nothing about settings and still takes the
place of the change that waits, which no extension is told of then (`associations_lost`), as in
`Registry.settings_lost`.
-/

namespace XmlAssist

/-- The settings changed by a notification; a change that is refused leaves them. -/
def Settings.notified (s : Settings) : SaveContext → Settings
  | .settingsChanged update => (s.merge update).toOption.getD s
  | .documentSaved _ => s

/-- The notification is of a change that says what the file associations are. -/
def SaveContext.namesAssociations : SaveContext → Bool
  | .settingsChanged update => Settings.namesAssociations update
  | .documentSaved _ => false

/-- The step is to take part in features or to provide grammars. -/
def Step.isQuiet : Step → Bool
  | .join _ | .offerGrammars => true
  | _ => false

namespace Settings

variable {s t : Settings} {context : SaveContext} {contexts : List SaveContext}

theorem fileAssociations_notified_of_not_names (h : context.namesAssociations = false) :
    (s.notified context).fileAssociations = s.fileAssociations := by
  cases context with
  | documentSaved => rfl
  | settingsChanged update =>
    cases hmerge : s.merge update with
    | error => rw [notified, hmerge]; rfl
    | ok s' =>
      rw [notified, hmerge]
      exact fileAssociations_merge_of_not_names h hmerge

theorem exists_merge_of_names {update : Json} (h : namesAssociations update = true) (s : Settings) :
    ∃ s', s.merge update = .ok s' := by
  have hok : (s.merge update).toOption.isSome := by
    rw [isOk_merge s {}]
    exact (Bool.and_eq_true_iff.mp h).1
  cases hmerge : s.merge update with
  | error => simp [hmerge, Except.toOption] at hok
  | ok s' => exact ⟨s', rfl⟩

theorem fileAssociations_notified_of_names (h : context.namesAssociations = true) (s t : Settings) :
    (s.notified context).fileAssociations = (t.notified context).fileAssociations := by
  cases context with
  | documentSaved => cases h
  | settingsChanged update =>
    obtain ⟨s', hs⟩ := exists_merge_of_names h s
    obtain ⟨t', ht⟩ := exists_merge_of_names h t
    rw [notified, notified, hs, ht]
    exact fileAssociations_merge_of_names h hs ht

theorem fileAssociations_foldl (h : s.fileAssociations = t.fileAssociations ∨
      contexts.any (·.namesAssociations) = true) :
    (contexts.foldl notified s).fileAssociations =
      (contexts.foldl notified t).fileAssociations := by
  induction contexts generalizing s t with
  | nil => simpa using h
  | cons context contexts ih =>
    refine ih ?_
    cases hnames : context.namesAssociations with
    | true => exact .inl (fileAssociations_notified_of_names hnames s t)
    | false =>
      rw [fileAssociations_notified_of_not_names hnames,
        fileAssociations_notified_of_not_names hnames]
      simpa [hnames] using h

theorem fileAssociations_foldl_of_not_names (h : contexts.any (·.namesAssociations) = false)
    (s : Settings) : (contexts.foldl notified s).fileAssociations = s.fileAssociations := by
  induction contexts generalizing s with
  | nil => rfl
  | cons context contexts ih =>
    rw [List.any_cons, Bool.or_eq_false_iff] at h
    exact (ih h.2 _).trans (fileAssociations_notified_of_not_names h.1)

/-- The notification that waits for the extensions, with those behind it, leads to the same file
associations as all of them, if it or one behind it names them or none does. -/
theorem fileAssociations_of_last {waiting later : List SaveContext} (s : Settings)
    (h : waiting.any (·.namesAssociations) = true →
      waiting.getLast?.any (·.namesAssociations) = true ∨ later.any (·.namesAssociations) = true) :
    ((waiting.getLast?.toList ++ later).foldl notified s).fileAssociations =
      ((waiting ++ later).foldl notified s).fileAssociations := by
  rw [List.foldl_append, List.foldl_append]
  refine fileAssociations_foldl ?_
  cases hwaiting : waiting.getLast? with
  | none =>
    rw [List.getLast?_eq_none_iff] at hwaiting
    exact .inl (by rw [hwaiting]; rfl)
  | some last =>
    obtain ⟨before, rfl⟩ := List.getLast?_eq_some_iff.mp hwaiting
    rw [List.foldl_append]
    cases hlast : last.namesAssociations with
    | true => exact .inl (fileAssociations_notified_of_names hlast ..)
    | false =>
      cases hbefore : before.any (·.namesAssociations) with
      | true => exact .inr (by simpa [hlast, hbefore] using h)
      | false =>
        left
        simp only [Option.toList_some, List.foldl_cons, List.foldl_nil,
          fileAssociations_notified_of_not_names hlast, fileAssociations_foldl_of_not_names hbefore]

end Settings

/-! ## The registry with the extensions of the service -/

namespace Registry

/-- What decides with which settings grammars are found. -/
structure Core where
  phase : Phase
  params : InitializeParams
  pendingSave : Option SaveContext
  late : List Nat
  extensions : List Nat
  grammars : Option Nat
  /-- The settings of the first extension, which keeps the list of grammar providers. -/
  settings : Settings

def core (r : Registry) : Core where
  phase := r.phase
  params := r.params
  pendingSave := r.pendingSave
  late := r.late
  extensions := r.extensions
  grammars := r.grammars
  settings := (r.grammarList 0).settings

/-- The extensions are not started; a notification may wait for them. -/
def Core.idle [Library] (params : InitializeParams) (pending : Option SaveContext) : Core where
  phase := .uninitialized
  params := params
  pendingSave := pending
  late := []
  extensions := List.range Extension.builtIn.length
  grammars := none
  settings := {}

/-- The extensions are started, and the list of grammar providers has settings. -/
def Core.serving [Library] (params : InitializeParams) (settings : Settings) : Core where
  phase := .initialized
  params := params
  pendingSave := none
  late := []
  extensions := List.range Extension.builtIn.length
  grammars := some 0
  settings := settings

def builtInHooks [Library] : Behavior := fun _ ext => (Extension.builtIn.toArray.getD ext default).hooks

variable {r : Registry} {perform : Performer} {params : InitializeParams} {ext : Nat}

@[simp] theorem core_record (r : Registry) (e : Event) : (r.record e).core = r.core := rfl

theorem lookup_filter_ne {α : Type} (owner ext : Nat) (entries : List (Nat × α)) (h : owner ≠ ext) :
    (entries.filter (·.1 != ext)).lookup owner = entries.lookup owner := by
  induction entries with
  | nil => rfl
  | cons entry rest ih =>
    obtain ⟨key, value⟩ := entry
    by_cases hkey : key = ext
    · subst hkey
      simp [List.lookup_cons, beq_eq_false_iff_ne.mpr h, ih]
    · simp [hkey, List.lookup_cons, ih]

theorem grammarList_setGrammarList (r : Registry) (owner ext : Nat) (list : GrammarList) :
    (r.setGrammarList ext list).grammarList owner =
      if owner = ext then list else r.grammarList owner := by
  unfold grammarList setGrammarList
  by_cases h : owner = ext
  · simp [h]
  · simp [h, List.lookup_cons, beq_eq_false_iff_ne.mpr h, lookup_filter_ne owner ext _ h]

@[simp] theorem core_join (r : Registry) (ext : Nat) (features : List Feature) :
    (r.join ext features).2.core = r.core := by
  refine List.foldlRecOn (motive := fun found : Nat × Registry => found.2.core = r.core)
    features _ rfl fun found hfound feature _ => ?_
  dsimp only
  split <;> exact hfound

@[simp] theorem core_changeProviders (r : Registry) (f : List Nat → List Nat) :
    (r.changeProviders f).core = r.core := by
  unfold changeProviders
  split
  · rfl
  · rename_i owner _
    dsimp only [core]
    rw [grammarList_setGrammarList]
    split
    · rename_i howner
      subst howner
      rfl
    · rfl

theorem core_configureGrammars (r : Registry) (update : Json) :
    (r.configureGrammars 0 update).core =
      { r.core with settings := r.core.settings.notified (.settingsChanged update) } := by
  unfold configureGrammars
  dsimp only [Settings.notified, core]
  split
  · rename_i settings hmerge
    rw [hmerge, grammarList_setGrammarList]
    rfl
  · rename_i hmerge
    rw [hmerge]
    rfl

theorem core_runSteps {steps : List Step} (h : steps.all Step.isQuiet = true) (r : Registry) :
    (runSteps perform ext r steps).core = r.core := by
  induction steps generalizing r with
  | nil => rfl
  | cons step steps ih =>
    rw [List.all_cons, Bool.and_eq_true_iff] at h
    cases step with
    | join features => exact (ih h.2 _).trans (core_join r ext features)
    | offerGrammars => exact (ih h.2 _).trans (core_changeProviders r _)
    | _ => cases h.1

theorem core_lastSettings (context : SaveContext) (r : Registry) :
    (if context.isSettings then { r with lastSettings := some context } else r).core = r.core := by
  split <;> rfl

section
variable [Library]

theorem isQuiet_builtInHooks (h : ext ≠ 0) (trace : List Event) :
    (∀ params, ((builtInHooks trace ext).start params).all Step.isQuiet = true) ∧
      ∀ context, ((builtInHooks trace ext).save context).all Step.isQuiet = true := by
  match ext, h with
  | 1, _ | 2, _ | 3, _ | 4, _ => exact ⟨fun _ => rfl, fun _ => rfl⟩
  | n + 5, _ => exact ⟨fun _ => rfl, fun _ => rfl⟩

theorem core_start_of_ne (h : ext ≠ 0) (r : Registry) :
    (start builtInHooks perform params r ext).core = r.core :=
  core_runSteps ((isQuiet_builtInHooks h r.trace).1 params) _

theorem core_start_first (r : Registry) : (start builtInHooks perform params r 0).core =
    { r.core with grammars := some 0, settings := params.settings } := by
  have hsteps : (builtInHooks r.trace 0).start params =
      [.openGrammars params.settings, .join Extension.grammarFeatures] := rfl
  rw [start, hsteps, runSteps, core_runSteps rfl]
  simp [core, openGrammars, record, setGrammarList, grammarList]

theorem core_foldl_start {exts : List Nat} (h : exts = List.range Extension.builtIn.length)
    (perform : Performer) (params : InitializeParams) (r : Registry) :
    (exts.foldl (start builtInHooks perform params) r).core =
      { r.core with grammars := some 0, settings := params.settings } := by
  rw [h]
  show ([0, 1, 2, 3, 4].foldl (start builtInHooks perform params) r).core = _
  simp [core_start_of_ne, core_start_first]

theorem core_notify_of_ne (h : ext ≠ 0) (context : SaveContext) (r : Registry) :
    (notify builtInHooks perform context r ext).core = r.core :=
  core_runSteps ((isQuiet_builtInHooks h r.trace).2 context) _

theorem core_notify_first (context : SaveContext) (r : Registry) :
    (notify builtInHooks perform context r 0).core =
      { r.core with settings := r.core.settings.notified context } := by
  cases context with
  | documentSaved uri => rfl
  | settingsChanged update =>
    have hsteps : (builtInHooks r.trace 0).save (.settingsChanged update) =
        [.configureGrammars update] := rfl
    rw [notify, hsteps, runSteps, runSteps, core_configureGrammars, core_record]

theorem core_notifyAll (h : r.extensions = List.range Extension.builtIn.length)
    (context : SaveContext) : (notifyAll builtInHooks perform context r).core =
      { r.core with settings := r.core.settings.notified context } := by
  rw [notifyAll, h]
  show ([0, 1, 2, 3, 4].foldl (notify builtInHooks perform context) r).core = _
  simp [core_notify_of_ne, core_notify_first]

theorem settle_of_none (n : Nat) (hlate : r.late = []) (hpending : r.pendingSave = none) :
    settle builtInHooks perform params (n + 1) r = { r with phase := .initialized } := by
  rw [settle]
  split <;> simp_all

theorem settle_of_some (n : Nat) {context : SaveContext} (hlate : r.late = [])
    (hpending : r.pendingSave = some context) :
    settle builtInHooks perform params (n + 1) r = settle builtInHooks perform params n
      (notifyAll builtInHooks perform context { r with pendingSave := none }) := by
  rw [settle]
  split <;> simp_all

/-- None of these extensions asks the registry for anything, so that starting them ends as soon as
the notification that waits is passed on. -/
theorem core_settle (n : Nat) (hlate : r.late = [])
    (hext : r.extensions = List.range Extension.builtIn.length) :
    (settle builtInHooks perform params (n + 2) r).core =
      { r.core with
        phase := .initialized
        pendingSave := none
        settings := r.core.pendingSave.toList.foldl Settings.notified r.core.settings } := by
  cases hpending : r.core.pendingSave with
  | none =>
    rw [settle_of_none (n + 1) hlate hpending]
    exact congrArg (fun p => { r.core with phase := .initialized, pendingSave := p }) hpending
  | some context =>
    have hcore : (notifyAll builtInHooks perform context { r with pendingSave := none }).core =
        { r.core with pendingSave := none, settings := r.core.settings.notified context } :=
      core_notifyAll (r := { r with pendingSave := none }) hext context
    rw [settle_of_some (n + 1) hlate hpending,
      settle_of_none n ((congrArg Core.late hcore).trans hlate) (congrArg Core.pendingSave hcore)]
    exact congrArg (fun c => { c with phase := .initialized }) hcore

/-! ### Operations -/

theorem isInitialized_of_idle {pending : Option SaveContext} (h : r.core = .idle params pending) :
    r.isInitialized = false := by
  have hphase : r.phase = .uninitialized := congrArg Core.phase h
  rw [isInitialized, hphase]
  rfl

theorem isInitialized_of_serving {settings : Settings} (h : r.core = .serving params settings) :
    r.isInitialized = true := by
  have hphase : r.phase = .initialized := congrArg Core.phase h
  rw [isInitialized, hphase]
  rfl

theorem core_lookUp_idle (n : Nat) (feature : Feature) {pending : Option SaveContext}
    (h : r.core = .idle params pending) :
    (Registry.perform builtInHooks (n + 2) (.lookUp feature) r).2.core =
      .serving params (pending.toList.foldl Settings.notified params.settings) := by
  have hphase : r.phase = .uninitialized := congrArg Core.phase h
  have hext : r.extensions = List.range Extension.builtIn.length := congrArg Core.extensions h
  obtain rfl : r.params = params := congrArg Core.params h
  have hcore : ({ r with phase := .starting } : Registry).core =
      { Core.idle r.params pending with phase := .starting } :=
    congrArg (fun c : Core => { c with phase := .starting }) h
  have hstarted := core_foldl_start hext (Registry.perform builtInHooks (n + 1)) r.params
    { r with phase := .starting }
  rw [hcore] at hstarted
  show (ensureInitialized builtInHooks (Registry.perform builtInHooks (n + 1)) (n + 2) r).core = _
  rw [ensureInitialized, if_pos hphase]
  dsimp only
  generalize r.extensions.foldl _ _ = started at hstarted ⊢
  have hlate : started.late = [] := congrArg Core.late hstarted
  rw [core_settle n hlate (congrArg Core.extensions hstarted), hstarted]
  rfl

theorem core_lookUp_serving (n : Nat) (feature : Feature) {settings : Settings}
    (h : r.core = .serving params settings) :
    (Registry.perform builtInHooks (n + 1) (.lookUp feature) r).2 = r := by
  have hphase : r.phase = .initialized := congrArg Core.phase h
  exact if_neg (by simp [hphase])

theorem core_save_idle (n : Nat) (context : SaveContext) {pending : Option SaveContext}
    (h : r.core = .idle params pending) :
    (Registry.perform builtInHooks (n + 1) (.save context) r).2.core =
      .idle params (some context) := by
  show (Registry.save builtInHooks (Registry.perform builtInHooks n) context r).core = _
  have hcore := (core_lastSettings context r).trans h
  rw [Registry.save, if_neg (by simp [isInitialized_of_idle hcore])]
  exact congrArg (fun c : Core => { c with pendingSave := some context }) hcore

theorem core_save_serving (n : Nat) (context : SaveContext) {settings : Settings}
    (h : r.core = .serving params settings) :
    (Registry.perform builtInHooks (n + 1) (.save context) r).2.core =
      .serving params (settings.notified context) := by
  show (Registry.save builtInHooks (Registry.perform builtInHooks n) context r).core = _
  have hcore := (core_lastSettings context r).trans h
  rw [Registry.save, if_pos (isInitialized_of_serving hcore),
    core_notifyAll (congrArg Core.extensions hcore), hcore]
  rfl

end

end Registry

/-! ## What a client does -/

namespace Service

open Registry (Core builtInHooks)

/-- What a client does once it is connected. Requests that answer without the extensions leave the
service as it is and are not among these. -/
inductive Call where
  | didOpen (uri text : String) (version : Int)
  | didChange (uri text : String) (version : Int)
  | didSave (uri : String)
  | didClose (uri : String)
  | configure (update : Json)
  | complete (d : Document) (position : Position) (cancel : Cancel)
  | hover (d : Document) (position : Position) (cancel : Cancel)
  | diagnostics (d : Document) (cancel : Cancel)
  | report (d : Document) (cancel : Cancel)
  | definitions (d : Document) (position : Position) (cancel : Cancel)
  | typeDefinitions (d : Document) (position : Position) (cancel : Cancel)
  | references (d : Document) (position : Position) (withDeclaration : Bool) (cancel : Cancel)
  | highlights (d : Document) (position : Position) (cancel : Cancel)
  | renameEdits (d : Document) (position : Position) (newText : String)
  | lenses (d : Document) (cancel : Cancel)
  | fixes (d : Document) (range : Range) (problems : List Diagnostic) (cancel : Cancel)
  | links (d : Document)

def after (s : Service) : Call → Service
  | .didOpen uri text version => s.didOpen uri text version
  | .didChange uri text version => (s.didChange uri text version).getD s
  | .didSave uri => s.didSave uri
  | .didClose uri => s.didClose uri
  | .configure update => (s.configure update).toOption.getD s
  | .complete d position cancel => (s.complete d position cancel).2
  | .hover d position cancel => (s.hover d position cancel).2
  | .diagnostics d cancel => (s.diagnostics d cancel).2
  | .report d cancel => (s.report d cancel).2
  | .definitions d position cancel => (s.definitions d position cancel).2
  | .typeDefinitions d position cancel => (s.typeDefinitions d position cancel).2
  | .references d position withDeclaration cancel =>
    (s.references d position withDeclaration cancel).2
  | .highlights d position cancel => (s.highlights d position cancel).2
  | .renameEdits d position newText => (s.renameEdits d position newText).2
  | .lenses d cancel => (s.lenses d cancel).2
  | .fixes d range problems cancel => (s.fixes d range problems cancel).2
  | .links d => (s.links d).2

def run (s : Service) (calls : List Call) : Service := calls.foldl after s

/-- The service for a client that may have told something when it connected. -/
def opened [Library] : Option InitializeParams → Service
  | none => new
  | some params => new.connect params

/-- The notification that the extensions should get of a call: of a document that is saved, or of
settings that are accepted. -/
def notification? (s : Service) : Call → Option SaveContext
  | .didSave uri => some (.documentSaved uri)
  | .configure update =>
    if (s.settings.merge update).toOption.isSome then some (.settingsChanged update) else none
  | _ => none

/-- The notification of a call, if the extensions are started or are not as `initialized` says. -/
def due (s : Service) (initialized : Bool) (call : Call) : List SaveContext :=
  if s.registry.isInitialized = initialized then (s.notification? call).toList else []

/-- The notifications that come while the extensions are started or are not. -/
def notifications (s : Service) (initialized : Bool) : List Call → List SaveContext
  | [] => []
  | call :: calls => s.due initialized call ++ (s.after call).notifications initialized calls

variable {s : Service}

/-- A request leaves the service as it is or asks for participants. -/
def Asks (s s' : Service) : Prop := s' = s ∨ ∃ feature, s' = (s.perform (.lookUp feature)).2

theorem asks_complete (d : Document) (position : Position) (cancel : Cancel) :
    Asks s (s.complete d position cancel).2 := by
  unfold complete
  split
  · exact .inl rfl
  · dsimp only
    split
    · exact .inl rfl
    · split
      · exact .inr ⟨.completion, rfl⟩
      · exact .inl rfl

theorem asks_hover (d : Document) (position : Position) (cancel : Cancel) :
    Asks s (s.hover d position cancel).2 := by
  unfold hover
  split
  · exact .inl rfl
  · split
    · exact .inl rfl
    · exact .inr ⟨.hover, rfl⟩

theorem asks_collectDiagnostics (d : Document) (cancel : Cancel) :
    Asks s (s.collectDiagnostics d cancel).2 := by
  unfold collectDiagnostics
  split
  · exact .inr ⟨.diagnostics, rfl⟩
  · exact .inl rfl

theorem asks_answerAt {α : Type} (feature : Feature) (d : Document) (position : Position)
    (answer : List Participant → Request → Except BadLocation α) :
    Asks s (s.answerAt feature d position answer).2 := by
  unfold answerAt
  split
  · exact .inl rfl
  · exact .inr ⟨feature, rfl⟩

theorem asks_lenses (d : Document) (cancel : Cancel) : Asks s (s.lenses d cancel).2 := by
  unfold lenses
  split
  · exact .inr ⟨.codeLens, rfl⟩
  · exact .inl rfl

theorem configure_eq_ok {update : Json} {settings : Settings}
    (h : s.settings.merge update = .ok settings) : s.configure update =
      .ok (({ s with settings } : Service).perform (.save (.settingsChanged update))).2 := by
  rw [configure, h]
  simp only [bind, Except.bind, pure, Except.pure]

theorem after_cases (s : Service) (call : Call) :
    (s.notification? call = none ∧
      ((∃ store, s.after call = { s with store }) ∨
        ∃ feature, s.after call = (s.perform (.lookUp feature)).2)) ∨
    ∃ context, s.notification? call = some context ∧ s.after call =
      ({ s with settings := s.settings.notified context : Service }.perform (.save context)).2 := by
  have hasks {s' : Service} (h : Asks s s') : (∃ store, s' = { s with store }) ∨
      ∃ feature, s' = (s.perform (.lookUp feature)).2 :=
    h.imp_left fun h => ⟨s.store, h⟩
  cases call with
  | didOpen | didClose => exact .inl ⟨rfl, .inl ⟨_, rfl⟩⟩
  | didChange uri text version =>
    refine .inl ⟨rfl, .inl ?_⟩
    show ∃ store, ((s.store.change uri text version).map _).getD s = _
    cases s.store.change uri text version with
    | none => exact ⟨s.store, rfl⟩
    | some store => exact ⟨store, rfl⟩
  | didSave uri =>
    have hsame : { s with settings := s.settings.notified (.documentSaved uri) } = s := rfl
    refine .inr ⟨.documentSaved uri, rfl, ?_⟩
    rw [hsame]
    rfl
  | configure update =>
    cases hmerge : s.settings.merge update with
    | error =>
      refine .inl ⟨by simp [notification?, hmerge, Except.toOption], .inl ⟨s.store, ?_⟩⟩
      show (s.configure update).toOption.getD s = s
      rw [configure, hmerge]
      rfl
    | ok settings =>
      refine .inr ⟨.settingsChanged update, by simp [notification?, hmerge, Except.toOption], ?_⟩
      have hsettings : s.settings.notified (.settingsChanged update) = settings := by
        rw [Settings.notified, hmerge]
        rfl
      show (s.configure update).toOption.getD s = _
      rw [configure_eq_ok hmerge, hsettings]
      -- what the registry does is not to be evaluated here
      generalize (Service.perform _ _).2 = s'
      rfl
  | complete d position cancel => exact .inl ⟨rfl, hasks (asks_complete d position cancel)⟩
  | hover d position cancel => exact .inl ⟨rfl, hasks (asks_hover d position cancel)⟩
  | diagnostics d cancel | report d cancel =>
    exact .inl ⟨rfl, hasks (asks_collectDiagnostics d cancel)⟩
  | definitions | typeDefinitions | references | highlights | renameEdits =>
    exact .inl ⟨rfl, hasks (asks_answerAt ..)⟩
  | lenses d cancel => exact .inl ⟨rfl, hasks (asks_lenses d cancel)⟩
  | fixes => exact .inl ⟨rfl, .inr ⟨.codeAction, rfl⟩⟩
  | links => exact .inl ⟨rfl, .inr ⟨.documentLink, rfl⟩⟩

/-! ## The two sides -/

/-- The service and its extensions, where `waiting` are the notifications that came before the
extensions were started and `later` those that came after that. -/
structure Coherent [Library] (params : InitializeParams) (waiting later : List SaveContext) (s : Service) :
    Prop where
  roster : s.roster = Extension.builtIn.toArray
  settings : s.settings = (waiting ++ later).foldl Settings.notified params.settings
  core : later = [] ∧ s.registry.core = .idle params waiting.getLast? ∨
    s.registry.core = .serving params
      ((waiting.getLast?.toList ++ later).foldl Settings.notified params.settings)

section
variable [Library] {params : InitializeParams} {waiting later : List SaveContext}

theorem coherent_opened (params : Option InitializeParams) :
    Coherent (params.getD {}) [] [] (opened params) := by
  cases params with
  | none => exact ⟨rfl, rfl, .inl ⟨rfl, rfl⟩⟩
  | some params => exact ⟨rfl, rfl, .inl ⟨rfl, rfl⟩⟩

theorem perform_eq (h : s.roster = Extension.builtIn.toArray) (op : Registry.Operation) :
    (s.perform op).2 =
      { s with registry := (Registry.perform builtInHooks (998 + 2) op s.registry).2 } := by
  have hhooks : (fun _ => s.hooks : Registry.Behavior) = builtInHooks := by
    funext _ ext
    rw [hooks, extension, h]
    rfl
  -- `maxDepth` is taken apart so far as starting these extensions goes
  rw [← hhooks]
  rfl

theorem Coherent.lookUp (h : Coherent params waiting later s) (feature : Feature) :
    Coherent params waiting later (s.perform (.lookUp feature)).2 := by
  rw [perform_eq h.roster]
  refine ⟨h.roster, h.settings, .inr ?_⟩
  rcases h.core with ⟨rfl, hidle⟩ | hserving
  · rw [List.append_nil]
    exact Registry.core_lookUp_idle 998 feature hidle
  · rw [Registry.core_lookUp_serving 999 feature hserving]
    exact hserving

theorem Coherent.save_waiting (h : Coherent params waiting later s)
    (hinit : s.registry.isInitialized = false) (context : SaveContext) :
    Coherent params (waiting ++ [context]) later
      ({ s with settings := s.settings.notified context : Service }.perform (.save context)).2 := by
  rw [perform_eq (by exact h.roster)]
  rcases h.core with ⟨rfl, hidle⟩ | hserving
  · refine ⟨h.roster, ?_, .inl ⟨rfl, ?_⟩⟩
    · simp [h.settings]
    · rw [List.getLast?_concat]
      exact Registry.core_save_idle 999 context hidle
  · rw [Registry.isInitialized_of_serving hserving] at hinit
    cases hinit

theorem Coherent.save_later (h : Coherent params waiting later s)
    (hinit : s.registry.isInitialized = true) (context : SaveContext) :
    Coherent params waiting (later ++ [context])
      ({ s with settings := s.settings.notified context : Service }.perform (.save context)).2 := by
  rw [perform_eq (by exact h.roster)]
  rcases h.core with ⟨rfl, hidle⟩ | hserving
  · rw [Registry.isInitialized_of_idle hidle] at hinit
    cases hinit
  · refine ⟨h.roster, ?_, .inr ?_⟩
    · simp [h.settings]
    · rw [← List.append_assoc, List.foldl_append]
      exact Registry.core_save_serving 999 context hserving

theorem Coherent.after (h : Coherent params waiting later s) (call : Call) :
    Coherent params (waiting ++ s.due false call) (later ++ s.due true call) (s.after call) := by
  rcases s.after_cases call with ⟨hnone, ⟨store, heq⟩ | ⟨feature, heq⟩⟩ | ⟨context, hsome, heq⟩
  · simp only [due, hnone, Option.toList_none, ite_self, List.append_nil, heq]
    exact ⟨h.roster, h.settings, h.core⟩
  · simp only [due, hnone, Option.toList_none, ite_self, List.append_nil, heq]
    exact h.lookUp feature
  · rw [due, due, hsome, heq]
    cases hinit : s.registry.isInitialized with
    | false => simpa using h.save_waiting hinit context
    | true => simpa using h.save_later hinit context

theorem Coherent.run (h : Coherent params waiting later s) (calls : List Call) :
    Coherent params (waiting ++ s.notifications false calls) (later ++ s.notifications true calls)
      (s.run calls) := by
  induction calls generalizing s waiting later with
  | nil => simpa [notifications, Service.run] using h
  | cons call calls ih => simpa [notifications, Service.run] using ih (h.after call)

/-- Once the extensions are started, the file associations in use come from the notification that
waited for them and those behind it. -/
theorem Coherent.associations (h : Coherent params waiting later s)
    (hinit : s.registry.isInitialized = true) :
    s.sources?.map (·.associations) =
      some ((waiting.getLast?.toList ++ later).foldl Settings.notified
        params.settings).fileAssociations := by
  rcases h.core with ⟨rfl, hidle⟩ | hserving
  · rw [Registry.isInitialized_of_idle hidle] at hinit
    cases hinit
  · have hgrammars : s.registry.grammars = some 0 := congrArg Core.grammars hserving
    have hsettings : (s.registry.grammarList 0).settings = _ := congrArg Core.settings hserving
    rw [sources?, hgrammars, Option.map_some, Option.map_some, sourcesOf, hsettings]
    rfl

end

/-- If a notification that came before the extensions were started names file associations, then so
does the last of these or one that came later. -/
def KeepsAssociations (s : Service) (calls : List Call) : Prop :=
  (s.notifications false calls).any (·.namesAssociations) = true →
    (s.notifications false calls).getLast?.any (·.namesAssociations) = true ∨
      (s.notifications true calls).any (·.namesAssociations) = true

instance (s : Service) (calls : List Call) : Decidable (KeepsAssociations s calls) :=
  inferInstanceAs (Decidable (_ → _))

/-- **The file associations in use are those of the settings**, whatever the client did before, once
the extensions are started. -/
theorem associations_run [Library] (params : Option InitializeParams) (calls : List Call)
    (hinit : ((opened params).run calls).registry.isInitialized = true)
    (hkept : KeepsAssociations (opened params) calls) :
    ((opened params).run calls).sources?.map (·.associations) =
      some ((opened params).run calls).settings.fileAssociations := by
  have h := (coherent_opened params).run calls
  rw [h.associations hinit, h.settings, List.nil_append, List.nil_append]
  exact congrArg some (Settings.fileAssociations_of_last _ hkept)

def associating : Json :=
  .mkObj [("fileAssociations",
    .arr [.mkObj [("pattern", .str "**/*.xml"), ("systemId", .str "a.dtd")]])]

/-- A change that names none. -/
def enablingLenses : Json := .mkObj [("codeLens", .mkObj [("enabled", .bool true)])]

def asking : Call := .links (.parse "<a/>" "file:///a.xml")

theorem associations_run_last :
    let s := (opened none).run [.configure enablingLenses, .configure associating, asking]
    s.settings.fileAssociations = [⟨"**/*.xml", "a.dtd"⟩] ∧
      s.sources?.map (·.associations) = some s.settings.fileAssociations :=
  ⟨by decide +kernel, associations_run none _ (by decide +kernel) (by decide +kernel)⟩

/-- **A document that is saved takes the place of the change that waits**, before the extensions are
started: the settings have the file associations, and grammars are found without them. -/
theorem associations_lost :
    let s := (opened none).run [.didOpen "file:///a.xml" "<a/>" 1, .configure associating,
      .didSave "file:///a.xml", asking]
    s.registry.isInitialized = true ∧ s.settings.fileAssociations = [⟨"**/*.xml", "a.dtd"⟩] ∧
      s.sources?.map (·.associations) = some [] := by
  decide +kernel

end Service

end XmlAssist

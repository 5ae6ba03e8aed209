import Mathlib.Data.List.Basic
import XmlAssist.Registry.Lifecycle

/-!
# Every extension is started once

The first look-up starts the extensions; their hooks may ask the registry for anything meanwhile,
and for more extensions in particular. Whatever they ask, between two calls of `start` a registry
that is starting only gets more extensions that wait, and a registry that is initialized starts each
new one at once (`Grows`). Hence the calls of `start` follow the list of extensions, from the first
look-up on and never before it. Main statement: `run_starts_once`.

Nothing is removed here: `unregister` neither among the operations nor in a hook. How deeply hooks
inside hooks are followed is a parameter; the statement is about runs that stay within it.
-/

namespace XmlAssist

def Step.removes : Step → Bool
  | .unregister _ => true
  | _ => false

namespace Registry

def Operation.removes : Operation → Bool
  | .unregister _ => true
  | _ => false

def Operation.isLookUp : Operation → Bool
  | .lookUp _ => true
  | _ => false

def Operation.params? : Operation → Option InitializeParams
  | .connect params => some params
  | _ => none

/-- No hook that starts or notifies an extension removes one. -/
structure KeepsExtensions (hooks : Behavior) : Prop where
  start : ∀ trace ext params, ∀ step ∈ (hooks trace ext).start params, step.removes = false
  save : ∀ trace ext context, ∀ step ∈ (hooks trace ext).save context, step.removes = false

structure StartCall where
  extension : Nat
  params : InitializeParams
  /-- The registry was initialized then. -/
  whileInitialized : Bool

def Event.startCall? : Event → Option StartCall
  | .started extension params whileInitialized => some ⟨extension, params, whileInitialized⟩
  | _ => none

def starts (r : Registry) : List StartCall := r.trace.reverse.filterMap Event.startCall?

def ofExtensions (extensions : List Nat) (params : InitializeParams) (hasDocuments : Bool) : Registry :=
  { extensions, params, hasDocuments }

def run (hooks : Behavior) (depth : Nat) (ops : List Operation) (r : Registry) : Registry :=
  ops.foldl (fun r op => (perform hooks depth op r).2) r

variable {r r' r'' : Registry} {ext : Nat} {e : Event} {params : InitializeParams}

theorem starts_record (r : Registry) (e : Event) :
    (r.record e).starts = r.starts ++ e.startCall?.toList := by
  simp only [starts, record, List.reverse_cons, List.filterMap_append]
  cases h : e.startCall? <;> simp [h]

/-! ## What happens inside hooks -/

/-- Extensions were added, all else about starting is as before: the new ones were started at once
if the registry is initialized, else they wait. -/
structure Grows (r r' : Registry) : Prop where
  phase : r'.phase = r.phase
  params : r'.params = r.params
  exhausted : r'.exhausted = false → r.exhausted = false
  nodup : r.extensions.Nodup → r'.extensions.Nodup
  added : ∃ more, r'.extensions = r.extensions ++ more ∧
    r'.late = r.late ++ (if r.isInitialized then [] else more) ∧
    r'.starts = r.starts ++ if r.isInitialized then more.map (⟨·, r.params, true⟩) else []

theorem Grows.isInitialized (h : Grows r r') : r'.isInitialized = r.isInitialized := by
  rw [Registry.isInitialized, h.phase]
  rfl

theorem Grows.trans (h : Grows r r') (h' : Grows r' r'') : Grows r r'' := by
  obtain ⟨more, hext, hlate, hstarts⟩ := h.added
  obtain ⟨more', hext', hlate', hstarts'⟩ := h'.added
  refine ⟨h'.phase.trans h.phase, h'.params.trans h.params, h.exhausted ∘ h'.exhausted,
    h'.nodup ∘ h.nodup, more ++ more', ?_, ?_, ?_⟩
  · rw [hext', hext, List.append_assoc]
  · rw [hlate', hlate, h.isInitialized, List.append_assoc]
    split <;> simp
  · rw [hstarts', hstarts, h.isInitialized, h.params, List.append_assoc]
    split <;> simp

theorem Grows.of_same (hphase : r'.phase = r.phase) (hparams : r'.params = r.params)
    (hlate : r'.late = r.late) (hext : r'.extensions = r.extensions)
    (hstarts : r'.starts = r.starts) (hexhausted : r'.exhausted = false → r.exhausted = false) :
    Grows r r' :=
  ⟨hphase, hparams, hexhausted, fun h => hext ▸ h, [], by simp [hext], by simp [hlate],
    by simp [hstarts]⟩

theorem Grows.refl (r : Registry) : Grows r r := .of_same rfl rfl rfl rfl rfl id

theorem grows_record (he : e.startCall? = none) : Grows r (r.record e) :=
  .of_same rfl rfl rfl rfl (by simp [starts_record, he]) id

theorem nodup_append_of_new (hnew : ¬ r.extensions.contains ext = true) (h : r.extensions.Nodup) :
    (r.extensions ++ [ext]).Nodup := by
  rw [List.contains_iff_mem] at hnew
  refine List.nodup_append.mpr ⟨h, by simp, fun a ha b hb heq => hnew ?_⟩
  rwa [← List.mem_singleton.mp hb, ← heq]

theorem grows_join (r : Registry) (ext : Nat) (features : List Feature) :
    Grows r (r.join ext features).2 := by
  refine List.foldlRecOn (motive := fun found : Nat × Registry => Grows r found.2) features _ (.refl r)
    fun found hfound f _ => ?_
  dsimp only
  split
  · exact hfound
  · exact hfound.trans (.of_same rfl rfl rfl rfl rfl id)

theorem grows_configureGrammars (r : Registry) (ext : Nat) (update : Json) :
    Grows r (r.configureGrammars ext update) := by
  unfold configureGrammars
  dsimp only
  split
  · exact .of_same rfl rfl rfl rfl rfl id
  · exact .refl r

theorem grows_changeProviders (r : Registry) (f : List Nat → List Nat) :
    Grows r (r.changeProviders f) := by
  unfold changeProviders
  split
  · exact .refl r
  · exact .of_same rfl rfl rfl rfl rfl id

/-- Whatever is asked of a registry that has begun to start, it grows. -/
def Tame (perform : Performer) : Prop :=
  ∀ op r, r.phase ≠ .uninitialized → op.removes = false → Grows r (perform op r).2

section tame
variable {perform : Performer} (hp : Tame perform)
include hp

theorem Tame.ask (ext : Nat) {op : Operation} (hr : r.phase ≠ .uninitialized)
    (hop : op.removes = false) : Grows r (ask perform ext op r) :=
  (hp op r hr hop).trans (grows_record rfl)

theorem Tame.runSteps (ext : Nat) {steps : List Step} (hsteps : ∀ step ∈ steps, step.removes = false)
    (hr : r.phase ≠ .uninitialized) : Grows r (runSteps perform ext r steps) := by
  induction steps generalizing r with
  | nil => exact .refl r
  | cons step rest ih =>
    have hrest : ∀ step ∈ rest, step.removes = false := fun s hs => hsteps s (List.mem_cons_of_mem _ hs)
    -- each step makes the registry grow, and the rest goes on from there
    have hnext {r₁ : Registry} (h : Grows r r₁) : Grows r (Registry.runSteps perform ext r₁ rest) :=
      h.trans (ih hrest (h.phase ▸ hr))
    have hkeep := hsteps step List.mem_cons_self
    cases step with
    | fail => exact .refl r
    | unregister => cases hkeep
    | register | save | lookUp | connect => exact hnext (hp.ask ext hr rfl)
    | join features => exact hnext ((grows_join r ext features).trans (grows_record rfl))
    | leave features =>
      have hleave : Grows r (r.leave ext features).2 := .of_same rfl rfl rfl rfl rfl id
      exact hnext (hleave.trans (grows_record rfl))
    | openGrammars | closeGrammars => exact hnext (.of_same rfl rfl rfl rfl rfl id)
    | configureGrammars update => exact hnext (grows_configureGrammars r ext update)
    | offerGrammars | withdrawGrammars => exact hnext (grows_changeProviders r _)

end tame

section hooks
variable {hooks : Behavior} (hk : KeepsExtensions hooks)
include hk

section performer
variable {perform : Performer} (hp : Tame perform)
include hp

theorem grows_start (hr : r.phase ≠ .uninitialized) :
    Grows (r.record (.started ext params r.isInitialized)) (start hooks perform params r ext) :=
  hp.runSteps ext (hk.start r.trace ext params) hr

theorem grows_notify (context : SaveContext) (hr : r.phase ≠ .uninitialized) :
    Grows r (notify hooks perform context r ext) :=
  Grows.trans (grows_record rfl) (hp.runSteps ext (hk.save r.trace ext context) hr)

theorem grows_startLate (settings : Option SaveContext) (hr : r.phase ≠ .uninitialized) :
    Grows (r.record (.started ext params r.isInitialized))
      (startLate hooks perform params settings r ext) := by
  have hstart : Grows _ (start hooks perform params r ext) := grows_start hk hp hr
  unfold startLate
  cases settings with
  | none => exact hstart
  | some context => exact hstart.trans (grows_notify hk hp context (by rw [hstart.phase]; exact hr))

theorem grows_foldl_notify (context : SaveContext) (exts : List Nat) (hr : r.phase ≠ .uninitialized) :
    Grows r (exts.foldl (notify hooks perform context) r) := by
  induction exts generalizing r with
  | nil => exact .refl r
  | cons ext exts ih =>
    have hnotify : Grows r (notify hooks perform context r ext) := grows_notify hk hp context hr
    exact hnotify.trans (ih (hnotify.phase ▸ hr))

theorem grows_register (hr : r.phase ≠ .uninitialized) :
    Grows r (register hooks perform ext r).2 := by
  unfold register
  split
  · exact .refl r
  rename_i hnew
  have hnodup := nodup_append_of_new hnew
  dsimp only
  split
  · exact absurd ‹_› hr
  · rename_i hphase
    have hphase' : r.phase = .starting := hphase
    refine ⟨hphase'.symm ▸ hphase, rfl, id, hnodup, [ext], rfl, ?_, ?_⟩ <;>
      simp [isInitialized, hphase', starts]
  · rename_i hphase
    have hinit : r.isInitialized = true := by simpa [isInitialized] using hphase
    -- to be entered into the list and to be started is one step
    have henter : Grows r ({ r with extensions := r.extensions ++ [ext] }.record
        (.started ext r.params r.isInitialized)) :=
      ⟨rfl, rfl, id, hnodup, [ext], rfl, by simp [hinit, record],
        by simp [starts, record, hinit, Event.startCall?]⟩
    exact henter.trans (grows_startLate (r := { r with extensions := r.extensions ++ [ext] }) hk hp _ hr)

theorem grows_save (context : SaveContext) (hr : r.phase ≠ .uninitialized) :
    Grows r (save hooks perform context r) := by
  have hlast : Grows r (if context.isSettings then { r with lastSettings := some context } else r) := by
    split
    · exact .of_same rfl rfl rfl rfl rfl id
    · exact .refl r
  unfold save
  generalize (if context.isSettings then { r with lastSettings := some context } else r) = r₁ at hlast ⊢
  dsimp only
  split
  · exact hlast.trans (grows_foldl_notify hk hp context _ (hlast.phase ▸ hr))
  · exact hlast.trans (.of_same rfl rfl rfl rfl rfl id)

end performer

theorem tame_perform (depth : Nat) : Tame (perform hooks depth) := by
  induction depth with
  | zero => exact fun op r _ _ => .of_same rfl rfl rfl rfl rfl nofun
  | succ depth ih =>
    intro op r hr hop
    cases op with
    | connect params =>
      show Grows r (r.withParams params)
      rw [withParams, if_neg hr]
      exact .refl r
    | register ext => exact grows_register hk ih hr
    | unregister => cases hop
    | save context => exact grows_save hk ih context hr
    | lookUp feature =>
      show Grows r (ensureInitialized hooks (perform hooks depth) (depth + 1) r)
      rw [ensureInitialized, if_neg hr]
      exact .refl r

/-! ## The first look-up -/

/-- Nothing is started yet. -/
structure Waiting (r : Registry) : Prop where
  phase : r.phase = .uninitialized
  nodup : r.extensions.Nodup
  late : r.late = []
  starts : r.starts = []

/-- The extensions `done` are started, `todo` are about to be, and those that came late after them. -/
structure Starting (params : InitializeParams) (done todo : List Nat) (r : Registry) : Prop where
  phase : r.phase = .starting
  buffered : r.params = params
  nodup : r.extensions.Nodup
  extensions : r.extensions = done ++ todo ++ r.late
  starts : r.starts = done.map (⟨·, params, false⟩)

omit hk in
theorem Starting.grows {done todo : List Nat} (h : Starting params done todo r) (hg : Grows r r') :
    Starting params done todo r' := by
  have hinit : r.isInitialized = false := by simp [Registry.isInitialized, h.phase]
  obtain ⟨more, hext, hlate, hstarts⟩ := hg.added
  rw [hinit] at hlate hstarts
  refine ⟨hg.phase.trans h.phase, hg.params.trans h.buffered, hg.nodup h.nodup, ?_, ?_⟩
  · rw [hext, h.extensions, hlate]
    simp
  · rw [hstarts, h.starts]
    simp

omit hk in
theorem Starting.record {done todo : List Nat} (h : Starting params done (ext :: todo) r) :
    Starting params (done ++ [ext]) todo (r.record (.started ext params r.isInitialized)) := by
  have hinit : r.isInitialized = false := by simp [Registry.isInitialized, h.phase]
  refine ⟨h.phase, h.buffered, h.nodup, ?_, ?_⟩
  · rw [show (r.record _).extensions = r.extensions from rfl, h.extensions]
    simp [Registry.record]
  · rw [starts_record, h.starts, hinit]
    simp [Event.startCall?]

omit hk in
theorem Starting.foldl {f : Registry → Nat → Registry} {done todo : List Nat}
    (hf : ∀ r ext, r.phase ≠ .uninitialized →
      Grows (r.record (.started ext params r.isInitialized)) (f r ext))
    (h : Starting params done todo r) : Starting params (done ++ todo) [] (todo.foldl f r) := by
  induction todo generalizing done r with
  | nil => simpa using h
  | cons ext todo ih =>
    have hnext := h.record.grows (hf r ext (by simp [h.phase]))
    simpa using ih hnext

/-- All extensions are started, and were before the registry was initialized. -/
structure Settled (params : InitializeParams) (r : Registry) : Prop where
  phase : r.phase = .initialized
  buffered : r.params = params
  nodup : r.extensions.Nodup
  starts : r.starts = r.extensions.map (⟨·, params, false⟩)

/-- Those that came late are started in their turn, and those that come later still, until nothing
waits. -/
theorem Starting.settle {perform : Performer} (hp : Tame perform) (n : Nat) {done : List Nat}
    (h : Starting params done [] r) (hend : (settle hooks perform params n r).exhausted = false) :
    Settled params (settle hooks perform params n r) := by
  induction n generalizing r done with
  | zero => cases hend
  | succ n ih =>
    unfold Registry.settle at hend ⊢
    split at hend
    · rename_i hlate _
      refine ⟨rfl, h.buffered, h.nodup, ?_⟩
      show r.starts = r.extensions.map _
      rw [h.starts, h.extensions, hlate]
      simp
    · rename_i context _ _
      have htaken : Grows r { r with pendingSave := none } := .of_same rfl rfl rfl rfl rfl id
      have hphase : r.phase ≠ .uninitialized := by simp [h.phase]
      have hnotified := grows_foldl_notify (r := { r with pendingSave := none }) hk hp context
        r.extensions hphase
      exact ih (h.grows (htaken.trans hnotified)) hend
    · have htaken : Starting params done r.late { r with late := [] } :=
        ⟨h.phase, h.buffered, h.nodup, by simpa using h.extensions, h.starts⟩
      exact ih (htaken.foldl fun r ext hr => grows_startLate hk hp _ hr) hend

omit hk in
theorem phase_settle (perform : Performer) (n : Nat) :
    (settle hooks perform params n r).phase = .initialized := by
  induction n generalizing r with
  | zero => rfl
  | succ n ih =>
    unfold Registry.settle
    split
    · rfl
    · exact ih
    · exact ih

omit hk in
theorem lookUp_eq (depth : Nat) (feature : Feature) (hr : Waiting r) :
    (perform hooks (depth + 1) (.lookUp feature) r).2 =
      settle hooks (perform hooks depth) r.params (depth + 1) (r.extensions.foldl
        (start hooks (perform hooks depth) r.params) { r with phase := .starting }) := by
  show ensureInitialized hooks (perform hooks depth) (depth + 1) r = _
  rw [ensureInitialized, if_pos hr.phase]

theorem settled_lookUp (depth : Nat) (feature : Feature) (hr : Waiting r)
    (hend : (perform hooks (depth + 1) (.lookUp feature) r).2.exhausted = false) :
    Settled r.params (perform hooks (depth + 1) (.lookUp feature) r).2 := by
  rw [lookUp_eq depth feature hr] at hend ⊢
  have hbegin : Starting r.params [] r.extensions { r with phase := .starting } :=
    ⟨rfl, rfl, hr.nodup, by simp [hr.late], hr.starts⟩
  have hp := tame_perform hk depth
  exact (hbegin.foldl fun r ext h => grows_start hk hp h).settle hk hp (depth + 1) hend

omit hk

theorem Waiting.register (hr : Waiting r) (perform : Performer) (ext : Nat) :
    Waiting (register hooks perform ext r).2 ∧ (register hooks perform ext r).2.params = r.params := by
  unfold Registry.register
  split
  · exact ⟨hr, rfl⟩
  · rename_i hnew
    simp only [hr.phase]
    exact ⟨⟨rfl, nodup_append_of_new hnew hr.nodup, hr.late, hr.starts⟩, trivial⟩

theorem Waiting.save (hr : Waiting r) (perform : Performer) (context : SaveContext) :
    Waiting (Registry.save hooks perform context r) ∧
      (Registry.save hooks perform context r).params = r.params := by
  have hwaits : ¬ r.isInitialized = true := by simp [Registry.isInitialized, hr.phase]
  cases context with
  | settingsChanged update =>
    have hsave : Registry.save hooks perform (.settingsChanged update) r =
        { r with lastSettings := some (.settingsChanged update),
                 pendingSave := some (.settingsChanged update) } := if_neg hwaits
    rw [hsave]
    exact ⟨⟨hr.phase, hr.nodup, hr.late, hr.starts⟩, rfl⟩
  | documentSaved uri =>
    have hsave : Registry.save hooks perform (.documentSaved uri) r =
        { r with pendingSave := some (.documentSaved uri) } := if_neg hwaits
    rw [hsave]
    exact ⟨⟨hr.phase, hr.nodup, hr.late, hr.starts⟩, rfl⟩

variable (hooks) in
theorem Waiting.step (hr : Waiting r) (depth : Nat) {op : Operation} (hkeep : op.removes = false)
    (hop : op.isLookUp = false) : Waiting (perform hooks (depth + 1) op r).2 ∧
      (perform hooks (depth + 1) op r).2.params = op.params?.getD r.params := by
  cases op with
  | connect params =>
    show Waiting (r.withParams params) ∧ (r.withParams params).params = params
    rw [withParams, if_pos hr.phase]
    exact ⟨⟨hr.phase, hr.nodup, hr.late, hr.starts⟩, rfl⟩
  | register ext => exact hr.register (perform hooks depth) ext
  | unregister => cases hkeep
  | save context => exact hr.save (perform hooks depth) context
  | lookUp => cases hop

/-! ## Whole runs -/

section run
variable {ops : List Operation}

theorem run_append (depth : Nat) (ops ops' : List Operation) (r : Registry) :
    run hooks depth (ops ++ ops') r = run hooks depth ops' (run hooks depth ops r) :=
  List.foldl_append

theorem run_cons (depth : Nat) (op : Operation) (ops : List Operation) (r : Registry) :
    run hooks depth (op :: ops) r = run hooks depth ops (perform hooks depth op r).2 := rfl

variable (hooks) in
theorem Waiting.run (hr : Waiting r) (depth : Nat) (hkeep : ∀ op ∈ ops, op.removes = false)
    (hops : ∀ op ∈ ops, op.isLookUp = false) : Waiting (run hooks (depth + 1) ops r) ∧
      (run hooks (depth + 1) ops r).params = (ops.filterMap (·.params?)).getLast?.getD r.params := by
  induction ops generalizing r with
  | nil => exact ⟨hr, rfl⟩
  | cons op ops ih =>
    rw [List.forall_mem_cons] at hkeep hops
    obtain ⟨hwaits, hparams⟩ := hr.step hooks depth hkeep.1 hops.1
    obtain ⟨hwaits', hparams'⟩ := ih hwaits hkeep.2 hops.2
    refine ⟨hwaits', hparams'.trans ?_⟩
    rw [hparams]
    cases hop : op.params? with
    | none => simp [hop]
    | some params => simp [hop, List.getLast?_cons]

include hk in
theorem grows_run (depth : Nat) (hr : r.phase ≠ .uninitialized)
    (hkeep : ∀ op ∈ ops, op.removes = false) : Grows r (run hooks depth ops r) := by
  induction ops generalizing r with
  | nil => exact .refl r
  | cons op ops ih =>
    rw [List.forall_mem_cons] at hkeep
    have hfirst := tame_perform hk depth op r hr hkeep.1
    exact hfirst.trans (ih (hfirst.phase ▸ hr) hkeep.2)

end run

end hooks

/-- How extensions were started: `before` is the registry before the first look-up, `behind` that
right behind it and `r` that at the end. -/
structure StartsOnce (before behind r : Registry) : Prop where
  lazy : before.isInitialized = false ∧ before.starts = []
  initialized : behind.isInitialized = true ∧ r.isInitialized = true
  once : r.starts.map (·.extension) = r.extensions ∧ r.extensions.Nodup
  params : ∀ x ∈ r.starts, x.params = before.params
  settled : ∀ x ∈ r.starts, x.whileInitialized = false ↔ x.extension ∈ behind.extensions

theorem Settled.startsOnce {before behind : Registry} (hb : Waiting before)
    (h : Settled before.params behind) (hg : Grows behind r) : StartsOnce before behind r := by
  have hinit : behind.isInitialized = true := by simp [isInitialized, h.phase]
  obtain ⟨more, hext, -, hstarts⟩ := hg.added
  rw [hinit, if_pos rfl, h.starts, h.buffered] at hstarts
  have hnodup := hg.nodup h.nodup
  refine ⟨⟨by simp [isInitialized, hb.phase], hb.starts⟩, ⟨hinit, hg.isInitialized.trans hinit⟩,
    ⟨?_, hnodup⟩, ?_, ?_⟩
  · simp [hstarts, hext, Function.comp_def]
  · rw [hstarts]
    rintro _ hx
    rcases List.mem_append.mp hx with hx | hx <;> obtain ⟨_, -, rfl⟩ := List.mem_map.mp hx <;> rfl
  · rw [hext, List.nodup_append] at hnodup
    intro x hx
    rw [hstarts, List.mem_append, List.mem_map, List.mem_map] at hx
    rcases hx with ⟨ext, hmem, rfl⟩ | ⟨ext, hmem, rfl⟩
    · simpa using hmem
    · simpa using fun hmem' => hnodup.2.2 ext hmem' ext hmem rfl

theorem exhausted_run_zero {hooks : Behavior} {ops : List Operation} (hops : ops ≠ []) :
    (run hooks 0 ops r).exhausted = true := by
  induction ops generalizing r with
  | nil => exact absurd rfl hops
  | cons op ops ih =>
    cases ops with
    | nil => rfl
    | cons => exact ih (by simp)

/-- **Every extension is started once**, in the order of the list and with what the client told last
before the first look-up; none is started before it, and the registry is initialized only after all
that were added meanwhile are started. -/
theorem run_starts_once (hooks : Behavior) (hk : KeepsExtensions hooks) (depth : Nat)
    (extensions : List Nat) (hnodup : extensions.Nodup) (params : InitializeParams)
    (hasDocuments : Bool) (ops : List Operation) (hkeep : ∀ op ∈ ops, op.removes = false)
    (hend : (run hooks depth ops (ofExtensions extensions params hasDocuments)).exhausted = false) :
    let after (ops : List Operation) : Registry :=
      run hooks depth ops (ofExtensions extensions params hasDocuments)
    ((∀ op ∈ ops, op.isLookUp = false) →
      (after ops).isInitialized = false ∧ (after ops).starts = []) ∧
    ∀ before feature behind, ops = before ++ .lookUp feature :: behind →
      (∀ op ∈ before, op.isLookUp = false) →
      (after before).params = (before.filterMap (·.params?)).getLast?.getD params ∧
      StartsOnce (after before) (after (before ++ [.lookUp feature])) (after ops) := by
  have hr : Waiting (ofExtensions extensions params hasDocuments) := ⟨rfl, hnodup, rfl, rfl⟩
  cases depth with
  | zero =>
    obtain rfl : ops = [] := by
      by_contra hops
      simp [exhausted_run_zero hops] at hend
    exact ⟨fun _ => ⟨rfl, rfl⟩, by simp⟩
  | succ depth =>
    refine ⟨fun hops => ?_, ?_⟩
    · obtain ⟨hwaits, -⟩ := hr.run hooks depth hkeep hops
      exact ⟨by simp [isInitialized, hwaits.phase], hwaits.starts⟩
    · rintro before feature behind rfl hbefore
      obtain ⟨hwaits, hparams⟩ := hr.run hooks depth
        (fun op hop => hkeep op (List.mem_append_left _ hop)) hbefore
      refine ⟨hparams, ?_⟩
      dsimp only
      rw [run_append, run_cons] at hend ⊢
      rw [run_append, run_cons]
      generalize run hooks (depth + 1) before _ = r at hend hwaits ⊢
      have hphase : (perform hooks (depth + 1) (.lookUp feature) r).2.phase = .initialized := by
        rw [lookUp_eq depth feature hwaits]
        exact phase_settle ..
      have hgrows : Grows (perform hooks (depth + 1) (.lookUp feature) r).2
          (run hooks (depth + 1) behind (perform hooks (depth + 1) (.lookUp feature) r).2) :=
        grows_run hk (depth + 1) (by simp [hphase]) fun op hop => hkeep op (by simp [hop])
      exact (settled_lookUp hk depth feature hwaits (hgrows.exhausted hend)).startsOnce hwaits hgrows

/-- The first extension adds a second one and looks it up when it is started, then it fails. -/
def addingHooks : Behavior := fun _ ext =>
  if ext = 0 then { start := fun _ => [.register 1, .lookUp .hover, .fail] } else {}

theorem keepsExtensions_addingHooks : KeepsExtensions addingHooks := by
  refine ⟨fun _ ext _ step hstep => ?_, fun _ ext _ step hstep => ?_⟩ <;>
    by_cases hext : ext = 0 <;> simp [addingHooks, hext] at hstep
  rcases hstep with rfl | rfl | rfl <;> rfl

theorem run_starts_once_adding :
    StartsOnce (run addingHooks 3 [.connect {}] (ofExtensions [0] {} true))
      (run addingHooks 3 [.connect {}, .lookUp .hover] (ofExtensions [0] {} true))
      (run addingHooks 3 [.connect {}, .lookUp .hover, .register 2] (ofExtensions [0] {} true)) :=
  ((run_starts_once addingHooks keepsExtensions_addingHooks 3 [0] (by decide) {} true
    [.connect {}, .lookUp .hover, .register 2] (by simp [Operation.removes]) rfl).2
    [.connect {}] .hover [.register 2] rfl (by simp [Operation.isLookUp])).2

example : (run addingHooks 3 [.lookUp .hover, .register 2] (ofExtensions [0] {} true)).extensions =
    [0, 1, 2] := rfl

end Registry

end XmlAssist

import XmlAssist.Proofs.Registry.Starting

/-!
# What the hooks of extensions do

Two ways to look at a hook. In a registry that is initialized its steps may call further hooks, so
all that can be said is what relates a registry to every later one: a relation that is `Lasting` and
that single operations keep is kept by whole hooks. While extensions are being started no hook calls
another one: each does its steps, all of them small changes (`defer`), and the calls that were noted
tell which steps these were (`hookSteps`).
-/

namespace XmlAssist

def Step.fails : Step → Bool
  | .fail => true
  | _ => false

def Step.removed? : Step → Option Nat
  | .unregister ext => some ext
  | _ => none

def Step.context? : Step → Option SaveContext
  | .save context => some context
  | _ => none

namespace Registry

def Operation.context? : Operation → Option SaveContext
  | .save context => some context
  | _ => none

def Operation.step : Operation → Step
  | .connect params => .connect params
  | .register ext => .register ext
  | .unregister ext => .unregister ext
  | .save context => .save context
  | .lookUp feature => .lookUp feature

def Event.isCall : Event → Bool
  | .started .. | .stopped _ | .notified .. => true
  | .answered .. | .joined .. | .left .. => false

/-- The steps that the called hook does; `older` is what had happened before. -/
def Event.steps (hooks : Behavior) (older : List Event) : Event → List Step
  | .started ext params _ => ((hooks older ext).start params).takeWhile (!·.fails)
  | .stopped ext => (hooks older ext).stop.takeWhile (!·.fails)
  | .notified ext context => ((hooks older ext).save context).takeWhile (!·.fails)
  | .answered .. | .joined .. | .left .. => []

/-- The steps of all hooks that were called, in the order of the calls. -/
def hookSteps (hooks : Behavior) : List Event → List Step
  | [] => []
  | e :: older => hookSteps hooks older ++ e.steps hooks older

variable {r r' r'' : Registry} {ext : Nat} {e : Event} {params : InitializeParams} {hooks : Behavior}

/-! ## Registries that differ in answers only -/

/-- Nothing happened but that extensions got answers, joined or left features and changed lists of
grammars. -/
structure Alike (r r' : Registry) : Prop where
  phase : r'.phase = r.phase
  params : r'.params = r.params
  pendingSave : r'.pendingSave = r.pendingSave
  lastSettings : r'.lastSettings = r.lastSettings
  late : r'.late = r.late
  extensions : r'.extensions = r.extensions
  exhausted : r'.exhausted = r.exhausted
  trace : ∃ answers, r'.trace = answers ++ r.trace ∧ ∀ e ∈ answers, e.isCall = false

theorem Alike.of_same (hphase : r'.phase = r.phase) (hparams : r'.params = r.params)
    (hpending : r'.pendingSave = r.pendingSave) (hlast : r'.lastSettings = r.lastSettings)
    (hlate : r'.late = r.late) (hext : r'.extensions = r.extensions)
    (hexhausted : r'.exhausted = r.exhausted) (htrace : r'.trace = r.trace) : Alike r r' :=
  ⟨hphase, hparams, hpending, hlast, hlate, hext, hexhausted, [], by simp [htrace], by simp⟩

theorem Alike.refl (r : Registry) : Alike r r := .of_same rfl rfl rfl rfl rfl rfl rfl rfl

theorem Alike.trans (h : Alike r r') (h' : Alike r' r'') : Alike r r'' := by
  obtain ⟨answers, htrace, hcall⟩ := h.trace
  obtain ⟨answers', htrace', hcall'⟩ := h'.trace
  refine ⟨h'.phase.trans h.phase, h'.params.trans h.params, h'.pendingSave.trans h.pendingSave,
    h'.lastSettings.trans h.lastSettings, h'.late.trans h.late, h'.extensions.trans h.extensions,
    h'.exhausted.trans h.exhausted, answers' ++ answers, ?_, ?_⟩
  · rw [htrace', htrace, List.append_assoc]
  · intro e he
    rcases List.mem_append.mp he with he | he
    · exact hcall' e he
    · exact hcall e he

theorem alike_record (he : e.isCall = false) : Alike r (r.record e) :=
  ⟨rfl, rfl, rfl, rfl, rfl, rfl, rfl, [e], rfl, by simpa using he⟩

theorem alike_join (r : Registry) (ext : Nat) (features : List Feature) :
    Alike r (r.join ext features).2 := by
  refine List.foldlRecOn (motive := fun found : Nat × Registry => Alike r found.2) features _ (.refl r)
    fun found hfound f _ => ?_
  dsimp only
  split
  · exact hfound
  · exact hfound.trans (.of_same rfl rfl rfl rfl rfl rfl rfl rfl)

theorem alike_configureGrammars (r : Registry) (ext : Nat) (update : Json) :
    Alike r (r.configureGrammars ext update) := by
  unfold configureGrammars
  dsimp only
  split
  · exact .of_same rfl rfl rfl rfl rfl rfl rfl rfl
  · exact .refl r

theorem alike_changeProviders (r : Registry) (f : List Nat → List Nat) :
    Alike r (r.changeProviders f) := by
  unfold changeProviders
  split
  · exact .refl r
  · exact .of_same rfl rfl rfl rfl rfl rfl rfl rfl

theorem hookSteps_append {answers : List Event} (h : ∀ e ∈ answers, e.isCall = false)
    (older : List Event) : hookSteps hooks (answers ++ older) = hookSteps hooks older := by
  induction answers with
  | nil => rfl
  | cons e answers ih =>
    rw [List.forall_mem_cons] at h
    have hnone : e.steps hooks (answers ++ older) = [] := by
      cases e <;> first | rfl | cases h.1
    rw [List.cons_append, hookSteps, ih h.2, hnone, List.append_nil]

theorem Alike.hookSteps (h : Alike r r') : hookSteps hooks r'.trace = hookSteps hooks r.trace := by
  obtain ⟨answers, htrace, hcall⟩ := h.trace
  rw [htrace, hookSteps_append hcall]

/-! ## Whole hooks -/

/-- Between a registry and a later one: it goes on from step to step, and answers do not matter. -/
structure Lasting (R : Registry → Registry → Prop) : Prop where
  trans : ∀ {r r' r''}, R r r' → R r' r'' → R r r''
  alike : ∀ {r r'}, Alike r r' → R r r'

section lasting
variable {R : Registry → Registry → Prop} (hR : Lasting R)
include hR

theorem Lasting.foldl {α : Type} {f : Registry → α → Registry} (hf : ∀ r x, R r (f r x)) (xs : List α)
    (r : Registry) : R r (xs.foldl f r) := by
  induction xs generalizing r with
  | nil => exact hR.alike (.refl r)
  | cons x xs ih => exact hR.trans (hf r x) (ih (f r x))

theorem Lasting.runSteps {perform : Performer} (ext : Nat) (steps : List Step)
    (hp : ∀ op : Operation, op.step ∈ steps → ∀ r, R r (perform op r).2) (r : Registry) :
    R r (runSteps perform ext r steps) := by
  induction steps generalizing r with
  | nil => exact hR.alike (.refl r)
  | cons step rest ih =>
    have ih := ih fun op hop => hp op (List.mem_cons_of_mem _ hop)
    have hnext {r₁ : Registry} (h : Alike r r₁) : R r (Registry.runSteps perform ext r₁ rest) :=
      hR.trans (hR.alike h) (ih r₁)
    have hask (op : Operation) (hop : op.step = step) :
        R r (Registry.runSteps perform ext (ask perform ext op r) rest) :=
      hR.trans (hp op (hop ▸ List.mem_cons_self) r) (hR.trans (hR.alike (alike_record rfl)) (ih _))
    cases step with
    | fail => exact hR.alike (.refl r)
    | register | unregister | save | lookUp | connect => exact hask _ rfl
    | join features => exact hnext ((alike_join r ext features).trans (alike_record rfl))
    | leave features =>
      have hleave : Alike r (r.leave ext features).2 := .of_same rfl rfl rfl rfl rfl rfl rfl rfl
      exact hnext (hleave.trans (alike_record rfl))
    | openGrammars | closeGrammars => exact hnext (.of_same rfl rfl rfl rfl rfl rfl rfl rfl)
    | configureGrammars update => exact hnext (alike_configureGrammars r ext update)
    | offerGrammars | withdrawGrammars => exact hnext (alike_changeProviders r _)

end lasting

/-! ## Operations on an initialized registry -/

section initialized
variable {perform : Performer} (hr : r.phase = .initialized)
include hr

theorem register_initialized (hnew : ¬ r.extensions.contains ext = true) :
    (register hooks perform ext r).2 = startLate hooks perform r.params r.lastSettings
      { r with extensions := r.extensions ++ [ext] } ext := by
  rw [register, if_neg hnew]
  dsimp only
  split
  · rename_i h
    cases h.symm.trans hr
  · rename_i h
    cases h.symm.trans hr
  · rfl

theorem unregister_initialized (hmem : r.extensions.contains ext = true) :
    (unregister hooks perform ext r).2 = stop hooks perform
      { r with late := r.late.filter (· != ext), extensions := r.extensions.filter (· != ext) } ext := by
  refine if_pos ?_
  rw [hmem, Bool.true_and]
  exact beq_iff_eq.mpr hr

theorem save_initialized (context : SaveContext) :
    save hooks perform context r = notifyAll hooks perform context
      { r with lastSettings := if context.isSettings then some context else r.lastSettings } := by
  cases context <;> exact if_pos (beq_iff_eq.mpr hr)

end initialized

/-! ## The depth to which hooks are followed -/

/-- Where hooks were followed to their end, they were so before. -/
def Within (r r' : Registry) : Prop := r'.exhausted = false → r.exhausted = false

theorem lasting_within : Lasting Within :=
  ⟨fun h h' hend => h (h' hend), fun h hend => h.exhausted ▸ hend⟩

section within
variable {perform : Performer} (hp : ∀ op r, Within r (perform op r).2)
include hp

theorem within_start (params : InitializeParams) (r : Registry) (ext : Nat) :
    Within r (start hooks perform params r ext) :=
  lasting_within.runSteps ext _ (fun op _ => hp op) _

theorem within_stop (r : Registry) (ext : Nat) : Within r (stop hooks perform r ext) :=
  lasting_within.runSteps ext _ (fun op _ => hp op) _

theorem within_notify (context : SaveContext) (r : Registry) (ext : Nat) :
    Within r (notify hooks perform context r ext) :=
  lasting_within.runSteps ext _ (fun op _ => hp op) _

theorem within_startLate (params : InitializeParams) (settings : Option SaveContext) (r : Registry)
    (ext : Nat) : Within r (startLate hooks perform params settings r ext) := by
  cases settings with
  | none => exact within_start hp params r ext
  | some context =>
    exact lasting_within.trans (within_start hp params r ext) (within_notify hp context _ ext)

theorem within_settle (params : InitializeParams) (n : Nat) (r : Registry) :
    Within r (settle hooks perform params n r) := by
  induction n generalizing r with
  | zero => exact nofun
  | succ n ih =>
    unfold settle
    split
    · exact id
    · rename_i context _ _
      have hnotified : Within r (notifyAll hooks perform context { r with pendingSave := none }) :=
        lasting_within.foldl (within_notify hp context) r.extensions { r with pendingSave := none }
      exact lasting_within.trans hnotified (ih _)
    · have hstarted : ∀ settings, Within r
          (r.late.foldl (startLate hooks perform params settings) { r with late := [] }) :=
        fun settings => lasting_within.foldl (within_startLate hp params settings) r.late
          { r with late := [] }
      exact lasting_within.trans (hstarted _) (ih _)

theorem within_register (ext : Nat) (r : Registry) : Within r (register hooks perform ext r).2 := by
  unfold register
  split
  · exact id
  · dsimp only
    split
    · exact id
    · exact id
    · exact within_startLate hp _ _ { r with extensions := r.extensions ++ [ext] } ext

theorem within_unregister (ext : Nat) (r : Registry) : Within r (unregister hooks perform ext r).2 := by
  unfold unregister
  dsimp only
  split
  · exact within_stop hp _ ext
  · exact id

theorem within_save (context : SaveContext) (r : Registry) :
    Within r (save hooks perform context r) := by
  have hlast : Within r (if context.isSettings then { r with lastSettings := some context } else r) := by
    split <;> exact id
  unfold save
  generalize (if context.isSettings then { r with lastSettings := some context } else r) = r₁ at hlast ⊢
  dsimp only
  split
  · exact lasting_within.trans hlast (lasting_within.foldl (within_notify hp context) _ _)
  · exact hlast

end within

theorem within_perform (depth : Nat) (op : Operation) (r : Registry) :
    Within r (perform hooks depth op r).2 := by
  induction depth generalizing op r with
  | zero => exact nofun
  | succ depth ih =>
    cases op with
    | connect params =>
      show Within r (r.withParams params)
      unfold withParams
      split <;> exact id
    | register ext => exact within_register ih ext r
    | unregister ext => exact within_unregister ih ext r
    | save context => exact within_save ih context r
    | lookUp feature =>
      show Within r (ensureInitialized hooks (perform hooks depth) (depth + 1) r)
      unfold ensureInitialized
      split
      · have hstarted : Within r (r.extensions.foldl (start hooks (perform hooks depth) r.params)
            { r with phase := .starting }) :=
          lasting_within.foldl (within_start ih r.params) r.extensions { r with phase := .starting }
        exact lasting_within.trans hstarted (within_settle ih r.params (depth + 1) _)
      · exact id

theorem within_run (depth : Nat) (ops : List Operation) (r : Registry) :
    Within r (run hooks depth ops r) :=
  lasting_within.foldl (fun r op => within_perform depth op r) ops r

/-! ## Before the first look-up -/

/-- What an operation does to a registry that has not begun to start: it is only kept in mind. -/
def keep (r : Registry) : Operation → Registry
  | .connect params => { r with params }
  | .register ext =>
    if r.extensions.contains ext then r else { r with extensions := r.extensions ++ [ext] }
  | .unregister ext =>
    { r with late := r.late.filter (· != ext), extensions := r.extensions.filter (· != ext) }
  | .save context =>
    { r with lastSettings := if context.isSettings then some context else r.lastSettings,
             pendingSave := some context }
  | .lookUp _ => r

theorem keep_register (r : Registry) (ext : Nat) : r.keep (.register ext) =
    if r.extensions.contains ext then r else { r with extensions := r.extensions ++ [ext] } := rfl

theorem keep_phase (r : Registry) (op : Operation) : (r.keep op).phase = r.phase := by
  cases op with
  | register ext => rw [keep_register]; split <;> rfl
  | _ => rfl

theorem keep_trace (r : Registry) (op : Operation) : (r.keep op).trace = r.trace := by
  cases op with
  | register ext => rw [keep_register]; split <;> rfl
  | _ => rfl

theorem keep_late (op : Operation) (hr : r.late = []) : (r.keep op).late = [] := by
  cases op with
  | register ext => rw [keep_register]; split <;> exact hr
  | unregister ext =>
    show r.late.filter (· != ext) = []
    rw [hr, List.filter_nil]
  | _ => exact hr

theorem foldl_keep (ops : List Operation) (hr : r.phase = .uninitialized ∧ r.late = [] ∧ r.trace = []) :
    (ops.foldl keep r).phase = .uninitialized ∧ (ops.foldl keep r).late = [] ∧
      (ops.foldl keep r).trace = [] := by
  induction ops generalizing r with
  | nil => exact hr
  | cons op ops ih =>
    obtain ⟨hphase, hlate, htrace⟩ := hr
    exact ih ⟨(keep_phase r op).trans hphase, keep_late op hlate, (keep_trace r op).trans htrace⟩

theorem perform_uninitialized (depth : Nat) {op : Operation} (hop : op.isLookUp = false)
    (hr : r.phase = .uninitialized) : (perform hooks (depth + 1) op r).2 = r.keep op := by
  have hwaits : r.isInitialized = false := by simp [isInitialized, hr]
  cases op with
  | connect params => exact if_pos hr
  | register ext =>
    show (register hooks _ ext r).2 = _
    rw [keep_register]
    unfold register
    split
    · rfl
    · simp only [hr]
  | unregister ext =>
    have hphase : ∀ late extensions : List Nat,
        ({ r with late, extensions } : Registry).isInitialized = false := fun _ _ => hwaits
    show (unregister hooks _ ext r).2 = _
    unfold unregister keep
    simp only [hphase, Bool.and_false, Bool.false_eq_true, if_false]
  | save context =>
    show save hooks _ context r = _
    cases context <;> exact if_neg (by simp [isInitialized, hr, SaveContext.isSettings])
  | lookUp => cases hop

theorem run_uninitialized (depth : Nat) {ops : List Operation} (hops : ∀ op ∈ ops, op.isLookUp = false)
    (hr : r.phase = .uninitialized) : run hooks (depth + 1) ops r = ops.foldl keep r := by
  induction ops generalizing r with
  | nil => rfl
  | cons op ops ih =>
    rw [List.forall_mem_cons] at hops
    rw [run_cons, perform_uninitialized depth hops.1 hr, List.foldl_cons]
    exact ih hops.2 ((keep_phase r op).trans hr)

theorem perform_lookUp (depth : Nat) (feature : Feature) (hr : r.phase = .uninitialized) :
    (perform hooks (depth + 1) (.lookUp feature) r).2 =
      settle hooks (perform hooks depth) r.params (depth + 1) (r.extensions.foldl
        (start hooks (perform hooks depth) r.params) { r with phase := .starting }) :=
  if_pos hr

theorem run_lookUp (depth : Nat) {before : List Operation} (hbefore : ∀ op ∈ before, op.isLookUp = false)
    (feature : Feature) (behind : List Operation) (hr : r.phase = .uninitialized)
    (hend : (run hooks (depth + 1) (before ++ .lookUp feature :: behind) r).exhausted = false) :
    let first := (perform hooks (depth + 1) (.lookUp feature) (before.foldl keep r)).2
    run hooks (depth + 1) before r = before.foldl keep r ∧
    run hooks (depth + 1) (before ++ [.lookUp feature]) r = first ∧
    run hooks (depth + 1) (before ++ .lookUp feature :: behind) r = run hooks (depth + 1) behind first ∧
    first.exhausted = false ∧ first.phase = .initialized := by
  have hkept : run hooks (depth + 1) before r = before.foldl keep r := run_uninitialized depth hbefore hr
  have hphase : (before.foldl keep r).phase = .uninitialized :=
    List.foldlRecOn (motive := fun r : Registry => r.phase = .uninitialized) before keep hr
      fun r h op _ => (keep_phase r op).trans h
  rw [run_append, run_cons, hkept] at hend
  rw [run_append, run_append, hkept, run_cons]
  refine ⟨rfl, rfl, rfl, within_run (depth + 1) behind _ hend, ?_⟩
  rw [perform_lookUp depth feature hphase]
  exact phase_settle ..

/-! ## Hooks while extensions are being started -/

/-- What a step does to a registry that is starting: nothing is called. -/
def defer (r : Registry) : Step → Registry
  | .register ext =>
    if r.extensions.contains ext then r
    else { r with extensions := r.extensions ++ [ext], late := r.late ++ [ext] }
  | .unregister ext =>
    { r with late := r.late.filter (· != ext), extensions := r.extensions.filter (· != ext) }
  | .save context =>
    { r with lastSettings := if context.isSettings then some context else r.lastSettings,
             pendingSave := some context }
  | _ => r

/-- The registry after a call of a hook while extensions are being started. -/
def called (hooks : Behavior) (r : Registry) (e : Event) : Registry :=
  (e.steps hooks r.trace).foldl defer (r.record e)

theorem defer_register (r : Registry) (ext : Nat) : r.defer (.register ext) =
    if r.extensions.contains ext then r
    else { r with extensions := r.extensions ++ [ext], late := r.late ++ [ext] } := rfl

@[simp] theorem defer_phase (r : Registry) (step : Step) : (r.defer step).phase = r.phase := by
  cases step with
  | register ext => rw [defer_register]; split <;> rfl
  | _ => rfl

@[simp] theorem defer_trace (r : Registry) (step : Step) : (r.defer step).trace = r.trace := by
  cases step with
  | register ext => rw [defer_register]; split <;> rfl
  | _ => rfl

theorem foldl_defer_trace (steps : List Step) (r : Registry) :
    (steps.foldl defer r).trace = r.trace := by
  induction steps generalizing r with
  | nil => rfl
  | cons step steps ih => rw [List.foldl_cons, ih, defer_trace]

@[simp] theorem called_trace (r : Registry) (e : Event) : (called hooks r e).trace = e :: r.trace :=
  foldl_defer_trace _ _

theorem hookSteps_called (r : Registry) (e : Event) : hookSteps hooks (called hooks r e).trace =
    hookSteps hooks r.trace ++ e.steps hooks r.trace := by
  rw [called_trace, hookSteps]

theorem Alike.defer (h : Alike r r') (step : Step) : Alike (r.defer step) (r'.defer step) := by
  obtain ⟨hphase, hparams, hpending, hlast, hlate, hext, hexhausted, htrace⟩ := h
  cases step with
  | register ext =>
    rw [defer_register, defer_register, hext]
    split
    · exact ⟨hphase, hparams, hpending, hlast, hlate, hext, hexhausted, htrace⟩
    · exact ⟨hphase, hparams, hpending, hlast, by simp [hlate], rfl, hexhausted, htrace⟩
  | unregister ext =>
    exact ⟨hphase, hparams, hpending, hlast, congrArg (List.filter (· != ext)) hlate,
      congrArg (List.filter (· != ext)) hext, hexhausted, htrace⟩
  | save context =>
    refine ⟨hphase, hparams, rfl, ?_, hlate, hext, hexhausted, htrace⟩
    simp only [Registry.defer, hlast]
  | _ => exact ⟨hphase, hparams, hpending, hlast, hlate, hext, hexhausted, htrace⟩

theorem Alike.foldl_defer (h : Alike r r') (steps : List Step) :
    Alike (steps.foldl Registry.defer r) (steps.foldl Registry.defer r') := by
  induction steps generalizing r r' with
  | nil => exact h
  | cons step steps ih => exact ih (h.defer step)

theorem perform_starting (depth : Nat) (op : Operation) (hr : r.phase = .starting)
    (hend : (perform hooks depth op r).2.exhausted = false) :
    (perform hooks depth op r).2 = r.defer op.step := by
  cases depth with
  | zero => cases hend
  | succ depth =>
    have hbegun : r.phase ≠ .uninitialized := by simp [hr]
    have hwaits : r.isInitialized = false := by simp [isInitialized, hr]
    cases op with
    | connect params => exact if_neg hbegun
    | register ext =>
      show (register hooks _ ext r).2 = r.defer (.register ext)
      rw [defer_register]
      unfold register
      split
      · rfl
      · simp only [hr]
    | unregister ext =>
      show (unregister hooks _ ext r).2 = r.defer (.unregister ext)
      unfold unregister defer
      have hphase : ∀ late extensions : List Nat,
          ({ r with late, extensions } : Registry).isInitialized = false := fun _ _ => hwaits
      simp only [hphase, Bool.and_false, Bool.false_eq_true, if_false]
    | save context =>
      show save hooks _ context r = _
      cases context <;> exact if_neg (by simp [isInitialized, hr, SaveContext.isSettings])
    | lookUp feature => exact if_neg hbegun

theorem ask_starting (depth : Nat) (ext : Nat) (op : Operation) (hr : r.phase = .starting)
    (hend : (ask (perform hooks depth) ext op r).exhausted = false) :
    Alike (r.defer op.step) (ask (perform hooks depth) ext op r) := by
  have hdefer : (perform hooks depth op r).2 = r.defer op.step := perform_starting depth op hr hend
  have hanswer : Alike (perform hooks depth op r).2 (ask (perform hooks depth) ext op r) :=
    alike_record rfl
  rwa [hdefer] at hanswer

/-- A hook that is called while extensions are being started does its steps one after the other. -/
theorem runSteps_starting (depth : Nat) (ext : Nat) (steps : List Step) (hr : r.phase = .starting)
    (hend : (runSteps (perform hooks depth) ext r steps).exhausted = false) :
    Alike ((steps.takeWhile (!·.fails)).foldl defer r) (runSteps (perform hooks depth) ext r steps) := by
  induction steps generalizing r with
  | nil => exact .refl r
  | cons step rest ih =>
    -- what the first step leaves is the same up to answers, and the rest goes on from there
    have hnext {r₁ : Registry} (h : Alike (r.defer step) r₁)
        (hend : (runSteps (perform hooks depth) ext r₁ rest).exhausted = false) :
        Alike ((rest.takeWhile (!·.fails)).foldl defer (r.defer step))
          (runSteps (perform hooks depth) ext r₁ rest) :=
      (h.foldl_defer _).trans (ih (by rw [h.phase, defer_phase, hr]) hend)
    have hwithin (r₁ : Registry) : Within r₁ (runSteps (perform hooks depth) ext r₁ rest) :=
      lasting_within.runSteps ext rest (fun op _ => within_perform depth op) r₁
    cases step with
    | fail => exact .refl r
    | register | unregister | save | lookUp | connect =>
      exact hnext (ask_starting depth ext _ hr (hwithin _ hend)) hend
    | join features => exact hnext ((alike_join r ext features).trans (alike_record rfl)) hend
    | leave features =>
      have hleave : Alike r (r.leave ext features).2 := .of_same rfl rfl rfl rfl rfl rfl rfl rfl
      exact hnext (hleave.trans (alike_record rfl)) hend
    | openGrammars | closeGrammars =>
      exact hnext (.of_same rfl rfl rfl rfl rfl rfl rfl rfl) hend
    | configureGrammars update => exact hnext (alike_configureGrammars r ext update) hend
    | offerGrammars | withdrawGrammars => exact hnext (alike_changeProviders r _) hend

theorem start_starting (depth : Nat) (hr : r.phase = .starting)
    (hend : (start hooks (perform hooks depth) params r ext).exhausted = false) :
    Alike (called hooks r (.started ext params r.isInitialized))
      (start hooks (perform hooks depth) params r ext) :=
  runSteps_starting depth ext _ hr hend

theorem notify_starting (depth : Nat) (context : SaveContext) (hr : r.phase = .starting)
    (hend : (notify hooks (perform hooks depth) context r ext).exhausted = false) :
    Alike (called hooks r (.notified ext context)) (notify hooks (perform hooks depth) context r ext) :=
  runSteps_starting depth ext _ hr hend

end Registry

end XmlAssist

import XmlAssist.Proofs.Registry.Hooks

/-!
# Every extension is told the last settings

Three ways lead from a change of settings to an extension: an initialized registry passes it on at
once, an extension that is added later is told it when it is started, and what comes before the
extensions are started waits for them. Once the registry is initialized the first two miss nobody,
whatever hooks ask for meanwhile (`Conveys`).

What waits has room for one notification only, and a document that is saved takes the place of the
settings that were changed before it (`settings_lost`). So the settings arrive if the last
notification that came before the registry was initialized is about settings, or none is, or if they
are changed once more afterwards. Main statement: `run_conveys`.
-/

namespace XmlAssist.Registry

/-- The last change of settings among notifications. -/
def lastSettings? (contexts : List SaveContext) : Option SaveContext :=
  (contexts.filter (·.isSettings)).getLast?

/-- The last of the notifications is about settings, or none is. -/
def SettingsLast (contexts : List SaveContext) : Prop :=
  ∀ context, lastSettings? contexts = some context → contexts.getLast? = some context

/-- The extension was told the last settings, if there are any. -/
def Told (r : Registry) (ext : Nat) : Prop :=
  ∀ context, r.lastSettings = some context → .notified ext context ∈ r.trace

variable {r r' r'' : Registry} {ext : Nat} {e : Event} {params : InitializeParams} {hooks : Behavior}

theorem lastSettings?_append (contexts more : List SaveContext) :
    lastSettings? (contexts ++ more) = (lastSettings? more).or (lastSettings? contexts) := by
  rw [lastSettings?, List.filter_append, List.getLast?_append]
  rfl

theorem lastSettings?_concat (contexts : List SaveContext) (context : SaveContext) :
    lastSettings? (contexts ++ [context]) =
      if context.isSettings then some context else lastSettings? contexts := by
  rw [lastSettings?_append]
  cases h : context.isSettings <;> simp [h, lastSettings?]

theorem lastSettings?_append_of_none {contexts more : List SaveContext}
    (h : ∀ context ∈ more, context.isSettings = false) :
    lastSettings? (contexts ++ more) = lastSettings? contexts := by
  have hnone : more.filter (·.isSettings) = [] := by
    rw [List.filter_eq_nil_iff]
    intro context hmem
    simp [h context hmem]
  rw [lastSettings?_append, lastSettings?, hnone]
  rfl

theorem Told.mono (h : Told r ext) (hlast : r'.lastSettings = r.lastSettings)
    (htrace : ∀ e ∈ r.trace, e ∈ r'.trace) : Told r' ext := by
  intro context hcontext
  exact htrace _ (h context (hlast ▸ hcontext))

theorem Alike.mem_trace (h : Alike r r') : ∀ e ∈ r.trace, e ∈ r'.trace := by
  obtain ⟨answers, htrace, -⟩ := h.trace
  intro e he
  rw [htrace]
  exact List.mem_append_right _ he

/-! ## The registry is initialized -/

/-- A registry that is initialized stays so; whoever is in its list later was told the last settings,
or was in the list before and there are no new ones. -/
def Conveys (r r' : Registry) : Prop :=
  r.phase = .initialized → r'.phase = .initialized ∧ (∀ e ∈ r.trace, e ∈ r'.trace) ∧
    ∀ ext ∈ r'.extensions, Told r' ext ∨ (ext ∈ r.extensions ∧ r'.lastSettings = r.lastSettings)

theorem lasting_conveys : Lasting Conveys where
  trans h h' hr := by
    obtain ⟨hphase, htrace, htold⟩ := h hr
    obtain ⟨hphase', htrace', htold'⟩ := h' hphase
    refine ⟨hphase', fun e he => htrace' e (htrace e he), fun ext hext => ?_⟩
    rcases htold' ext hext with ht | ⟨hmem, hlast⟩
    · exact .inl ht
    · rcases htold ext hmem with ht | ⟨hmem', hlast'⟩
      · exact .inl (ht.mono hlast htrace')
      · exact .inr ⟨hmem', hlast.trans hlast'⟩
  alike h hr := by
    refine ⟨h.phase.trans hr, h.mem_trace, fun ext hext => .inr ⟨?_, h.lastSettings⟩⟩
    exact h.extensions ▸ hext

theorem conveys_record (r : Registry) (e : Event) : Conveys r (r.record e) :=
  fun hr => ⟨hr, fun _ he => List.mem_cons_of_mem _ he, fun _ hext => .inr ⟨hext, rfl⟩⟩

/-- All extensions of the list are told. -/
def AllTold (r : Registry) : Prop := ∀ ext ∈ r.extensions, Told r ext

theorem AllTold.conveys (h : AllTold r) (hc : Conveys r r') (hr : r.phase = .initialized) :
    AllTold r' := by
  obtain ⟨-, htrace, htold⟩ := hc hr
  intro ext hext
  rcases htold ext hext with ht | ⟨hmem, hlast⟩
  · exact ht
  · exact (h ext hmem).mono hlast htrace

section performer
variable {perform : Performer} (hp : ∀ op r, Conveys r (perform op r).2)
include hp

theorem conveys_start (params : InitializeParams) (r : Registry) (ext : Nat) :
    Conveys r (start hooks perform params r ext) :=
  lasting_conveys.trans (conveys_record r _) (lasting_conveys.runSteps ext _ (fun op _ => hp op) _)

theorem conveys_stop (r : Registry) (ext : Nat) : Conveys r (stop hooks perform r ext) :=
  lasting_conveys.trans (conveys_record r _) (lasting_conveys.runSteps ext _ (fun op _ => hp op) _)

theorem conveys_notify (context : SaveContext) (r : Registry) (ext : Nat) :
    Conveys (r.record (.notified ext context)) (notify hooks perform context r ext) :=
  lasting_conveys.runSteps ext _ (fun op _ => hp op) _

/-- The extension is told the settings that were the last when it was to be started. If others came
while it was being started, it was told those with all the others. -/
theorem conveys_startLate {settings : Option SaveContext} (hsettings : r.lastSettings = settings)
    (hr : r.phase = .initialized) :
    let r' := startLate hooks perform params settings r ext
    r'.phase = .initialized ∧ (∀ e ∈ r.trace, e ∈ r'.trace) ∧ ∀ x ∈ r'.extensions,
      Told r' x ∨ (x ≠ ext ∧ x ∈ r.extensions ∧ r'.lastSettings = r.lastSettings) := by
  have hstart : Conveys r (start hooks perform params r ext) := conveys_start hp params r ext
  obtain ⟨hphase, htrace, htold⟩ := hstart hr
  cases settings with
  | none =>
    refine ⟨hphase, htrace, fun x hx => .inl ?_⟩
    rcases htold x hx with ht | ⟨-, hsame⟩
    · exact ht
    · intro context hcontext
      cases (hsame.trans hsettings).symm.trans hcontext
  | some context =>
    have hnotify : Conveys _ (startLate hooks perform params (some context) r ext) :=
      conveys_notify hp context (start hooks perform params r ext) ext
    obtain ⟨hphase', htrace', htold'⟩ := hnotify hphase
    refine ⟨hphase', fun e he => htrace' e (List.mem_cons_of_mem _ (htrace e he)), fun x hx => ?_⟩
    rcases htold' x hx with ht | ⟨hmem, hsame⟩
    · exact .inl ht
    · rcases htold x hmem with ht | ⟨hmem', hsame'⟩
      · exact .inl (ht.mono hsame fun e he => htrace' e (List.mem_cons_of_mem _ he))
      · by_cases hne : x = ext
        · subst hne
          refine .inl fun told htold => ?_
          have heq : context = told :=
            Option.some.inj ((hsame.trans (hsame'.trans hsettings)).symm.trans htold)
          rw [← heq]
          exact htrace' _ List.mem_cons_self
        · exact .inr ⟨hne, hmem', hsame.trans hsame'⟩

theorem conveys_register (ext : Nat) (r : Registry) : Conveys r (register hooks perform ext r).2 := by
  intro hr
  by_cases hnew : r.extensions.contains ext = true
  · rw [register, if_pos hnew]
    exact ⟨hr, fun _ he => he, fun _ hext => .inr ⟨hext, rfl⟩⟩
  rw [register_initialized hr hnew]
  obtain ⟨hphase, htrace, htold⟩ :=
    conveys_startLate (r := { r with extensions := r.extensions ++ [ext] }) hp rfl hr
  refine ⟨hphase, htrace, fun x hx => (htold x hx).imp id fun h => ⟨?_, h.2.2⟩⟩
  obtain ⟨hne, hmem, -⟩ := h
  simpa [hne] using hmem

theorem conveys_unregister (ext : Nat) (r : Registry) :
    Conveys r (unregister hooks perform ext r).2 := by
  let removed : Registry :=
    { r with late := r.late.filter (· != ext), extensions := r.extensions.filter (· != ext) }
  have hremoved : Conveys r removed :=
    fun hr => ⟨hr, fun _ he => he, fun x hx => .inr ⟨(List.mem_filter.mp hx).1, rfl⟩⟩
  show Conveys r (if _ then stop hooks perform removed ext else removed)
  split
  · exact lasting_conveys.trans hremoved (conveys_stop hp removed ext)
  · exact hremoved

theorem told_foldl_notify {context : SaveContext} {todo : List Nat} (hr : r.phase = .initialized)
    (h : ∀ ext ∈ r.extensions, Told r ext ∨ (ext ∈ todo ∧ r.lastSettings = some context)) :
    AllTold (todo.foldl (notify hooks perform context) r) := by
  induction todo generalizing r with
  | nil => exact fun ext hext => (h ext hext).resolve_right fun hmem => List.not_mem_nil hmem.1
  | cons first todo ih =>
    have hnotify : Conveys (r.record (.notified first context)) (notify hooks perform context r first) :=
      conveys_notify hp context r first
    obtain ⟨hphase, htrace, htold⟩ := hnotify hr
    refine ih hphase fun ext hext => ?_
    rcases htold ext hext with ht | ⟨hmem, hsame⟩
    · exact .inl ht
    · rcases h ext hmem with ht | ⟨htodo, hlast⟩
      · exact .inl (ht.mono hsame fun e he => htrace e (List.mem_cons_of_mem _ he))
      · rcases List.mem_cons.mp htodo with rfl | htodo
        · refine .inl fun told htold => ?_
          have heq : told = context := Option.some.inj (htold.symm.trans (hsame.trans hlast))
          rw [heq]
          exact htrace _ List.mem_cons_self
        · exact .inr ⟨htodo, hsame.trans hlast⟩

theorem allTold_save {context : SaveContext} (hcontext : context.isSettings = true)
    (hr : r.phase = .initialized) : AllTold (save hooks perform context r) := by
  rw [save_initialized hr, if_pos hcontext]
  exact told_foldl_notify hp hr fun ext hext => .inr ⟨hext, rfl⟩

theorem conveys_notifyAll (context : SaveContext) (r : Registry) :
    Conveys r (notifyAll hooks perform context r) :=
  lasting_conveys.foldl (fun r ext => lasting_conveys.trans (conveys_record r _)
    (conveys_notify hp context r ext)) _ _

theorem conveys_save (context : SaveContext) (r : Registry) :
    Conveys r (save hooks perform context r) := by
  intro hr
  cases hcontext : context.isSettings with
  | false =>
    rw [save_initialized hr, hcontext]
    exact conveys_notifyAll hp context r hr
  | true =>
    have htold : AllTold (save hooks perform context r) := allTold_save hp hcontext hr
    rw [save_initialized hr, if_pos hcontext] at htold ⊢
    obtain ⟨hphase, htrace, -⟩ := conveys_notifyAll hp context { r with lastSettings := some context } hr
    exact ⟨hphase, htrace, fun ext hext => .inl (htold ext hext)⟩

end performer

theorem conveys_perform (depth : Nat) (op : Operation) (r : Registry) :
    Conveys r (perform hooks depth op r).2 := by
  induction depth generalizing op r with
  | zero => exact fun hr => ⟨hr, fun _ he => he, fun _ hext => .inr ⟨hext, rfl⟩⟩
  | succ depth ih =>
    have hsame : Conveys r r := lasting_conveys.alike (.refl r)
    cases op with
    | connect params =>
      intro hr
      rw [show (perform hooks (depth + 1) (.connect params) r).2 = r from if_neg (by simp [hr])]
      exact hsame hr
    | register ext => exact conveys_register ih ext r
    | unregister ext => exact conveys_unregister ih ext r
    | save context => exact conveys_save ih context r
    | lookUp feature =>
      intro hr
      rw [show (perform hooks (depth + 1) (.lookUp feature) r).2 = r from if_neg (by simp [hr])]
      exact hsame hr

theorem conveys_run (depth : Nat) (ops : List Operation) (r : Registry) :
    Conveys r (run hooks depth ops r) :=
  lasting_conveys.foldl (fun r op => conveys_perform depth op r) ops r

theorem allTold_run_of_settings (depth : Nat) {ops : List Operation} {context : SaveContext}
    (hmem : .save context ∈ ops) (hcontext : context.isSettings = true) (hr : r.phase = .initialized)
    (hend : (run hooks depth ops r).exhausted = false) : AllTold (run hooks depth ops r) := by
  obtain ⟨before, behind, rfl⟩ := List.append_of_mem hmem
  rw [run_append, run_cons] at hend ⊢
  obtain ⟨hphase, -⟩ := conveys_run depth before r hr
  cases depth with
  | zero =>
    have hwithin := within_run 0 behind _ hend
    cases hwithin
  | succ depth =>
    generalize run hooks (depth + 1) before r = r₁ at hphase ⊢
    have htold : AllTold (perform hooks (depth + 1) (.save context) r₁).2 :=
      allTold_save (conveys_perform depth) hcontext hphase
    have hsaved : Conveys r₁ (perform hooks (depth + 1) (.save context) r₁).2 := conveys_perform _ _ _
    exact htold.conveys (conveys_run (depth + 1) behind _) (hsaved hphase).1

/-! ## Extensions are being started -/

/-- The notifications `passed` have come so far. An extension of the list waits to be started, is in
`todo` or was told, as long as no notification waits and the last one was about settings. The
extensions `todo` were taken when `base` had been passed on, or while a notification was waiting that
waits ever since. -/
structure Conveying (base : Option (List SaveContext)) (todo : List Nat) (passed : List SaveContext)
    (r : Registry) : Prop where
  phase : r.phase = .starting
  last : r.lastSettings = lastSettings? passed
  pending : ∀ context, r.pendingSave = some context → passed.getLast? = some context
  steady : r.pendingSave = none → base = some passed
  told : r.pendingSave = none → SettingsLast passed →
    ∀ ext ∈ r.extensions, ext ∈ r.late ∨ ext ∈ todo ∨ Told r ext

section conveying
variable {base : Option (List SaveContext)} {todo : List Nat} {passed : List SaveContext}

theorem Conveying.alike (h : Conveying base todo passed r) (ha : Alike r r') :
    Conveying base todo passed r' := by
  refine ⟨ha.phase.trans h.phase, ha.lastSettings.trans h.last, ?_, ?_, ?_⟩
  · rw [ha.pendingSave]
    exact h.pending
  · rw [ha.pendingSave]
    exact h.steady
  · rw [ha.pendingSave, ha.late, ha.extensions]
    intro hpending hlast ext hext
    exact (h.told hpending hlast ext hext).imp id
      (Or.imp id fun ht => ht.mono ha.lastSettings ha.mem_trace)

theorem Conveying.register (h : Conveying base todo passed r) (ext : Nat) :
    Conveying base todo passed (r.defer (.register ext)) := by
  rw [defer_register]
  split
  · exact h
  · refine ⟨h.phase, h.last, h.pending, h.steady, fun hpending hlast x hx => ?_⟩
    rcases List.mem_append.mp hx with hx | hx
    · exact (h.told hpending hlast x hx).imp (List.mem_append_left _) id
    · exact .inl (List.mem_append_right _ hx)

theorem Conveying.unregister (h : Conveying base todo passed r) (ext : Nat) :
    Conveying base todo passed (r.defer (.unregister ext)) := by
  refine ⟨h.phase, h.last, h.pending, h.steady, fun hpending hlast x hx => ?_⟩
  obtain ⟨hmem, hne⟩ := List.mem_filter.mp hx
  exact (h.told hpending hlast x hmem).imp (fun hlate => List.mem_filter.mpr ⟨hlate, hne⟩) id

theorem Conveying.save (h : Conveying base todo passed r) (context : SaveContext) :
    Conveying base todo (passed ++ [context]) (r.defer (.save context)) := by
  refine ⟨h.phase, ?_, fun c hc => ?_, nofun, nofun⟩
  · rw [lastSettings?_concat, ← h.last]
    rfl
  · rw [List.getLast?_concat]
    exact hc

theorem Conveying.defer (h : Conveying base todo passed r) (step : Step) :
    Conveying base todo (passed ++ step.context?.toList) (r.defer step) := by
  cases step with
  | register ext => exact (List.append_nil passed).symm ▸ h.register ext
  | unregister ext => exact (List.append_nil passed).symm ▸ h.unregister ext
  | save context => exact h.save context
  | _ => exact (List.append_nil passed).symm ▸ h

theorem Conveying.foldl_defer (h : Conveying base todo passed r) (steps : List Step) :
    Conveying base todo (passed ++ steps.filterMap Step.context?) (steps.foldl Registry.defer r) := by
  induction steps generalizing r passed with
  | nil => simpa using h
  | cons step steps ih =>
    have hsplit : (step :: steps).filterMap Step.context? =
        step.context?.toList ++ steps.filterMap Step.context? := by
      cases hstep : step.context? <;> simp [hstep]
    rw [hsplit, ← List.append_assoc]
    exact ih (h.defer step)

end conveying

def hookContexts (hooks : Behavior) (r : Registry) : List SaveContext :=
  (hookSteps hooks r.trace).filterMap Step.context?

/-- What has come so far are the notifications `early` and those of the hooks that were called. -/
abbrev ConveysWith (hooks : Behavior) (early : List SaveContext) (base : Option (List SaveContext))
    (todo : List Nat) (r : Registry) : Prop :=
  Conveying base todo (early ++ hookContexts hooks r) r

section conveysWith
variable {early : List SaveContext} {base : Option (List SaveContext)} {todo : List Nat}

theorem ConveysWith.called (h : Conveying base todo (early ++ hookContexts hooks r) (r.record e)) :
    ConveysWith hooks early base todo (called hooks r e) := by
  rw [ConveysWith, hookContexts, hookSteps_called, List.filterMap_append, ← List.append_assoc]
  exact h.foldl_defer _

theorem ConveysWith.alike (h : ConveysWith hooks early base todo r) (ha : Alike r r') :
    ConveysWith hooks early base todo r' := by
  rw [ConveysWith, hookContexts, ha.hookSteps]
  exact Conveying.alike h ha

theorem ConveysWith.record (h : ConveysWith hooks early base todo r) (e : Event) :
    Conveying base todo (early ++ hookContexts hooks r) (r.record e) := by
  refine ⟨h.phase, h.last, h.pending, h.steady, fun hpending hlast ext hext => ?_⟩
  refine (h.told hpending hlast ext hext).imp id (Or.imp id fun ht => ht.mono rfl ?_)
  exact fun e he => List.mem_cons_of_mem _ he

theorem ConveysWith.start (h : ConveysWith hooks early base todo r) (depth : Nat)
    (hend : (start hooks (perform hooks depth) params r ext).exhausted = false) :
    ConveysWith hooks early base todo (start hooks (perform hooks depth) params r ext) :=
  (ConveysWith.called (h.record _)).alike (start_starting depth h.phase hend)

theorem ConveysWith.notify (h : ConveysWith hooks early base (ext :: todo) r) (depth : Nat)
    {context : SaveContext} (hcontext : ∀ passed, base = some passed → SettingsLast passed →
      ∀ told, lastSettings? passed = some told → told = context)
    (hend : (notify hooks (perform hooks depth) context r ext).exhausted = false) :
    ConveysWith hooks early base todo (notify hooks (perform hooks depth) context r ext) := by
  refine (ConveysWith.called ?_).alike (notify_starting depth context h.phase hend)
  have hrecord := h.record (.notified ext context)
  refine ⟨hrecord.phase, hrecord.last, hrecord.pending, hrecord.steady, fun hpending hlast x hx => ?_⟩
  rcases hrecord.told hpending hlast x hx with hlate | htodo | ht
  · exact .inl hlate
  · rcases List.mem_cons.mp htodo with rfl | htodo
    · refine .inr (.inr fun told htold => ?_)
      rw [hcontext _ (h.steady hpending) hlast told (h.last.symm.trans htold)]
      exact List.mem_cons_self
    · exact .inr (.inl htodo)
  · exact .inr (.inr ht)

/-- An extension that came late is started and told the last settings, unless a notification waits. -/
theorem ConveysWith.startLate (h : ConveysWith hooks early base (ext :: todo) r) (depth : Nat)
    (hend : (startLate hooks (perform hooks depth) params (base.bind lastSettings?) r ext).exhausted =
      false) :
    ConveysWith hooks early base todo
      (startLate hooks (perform hooks depth) params (base.bind lastSettings?) r ext) := by
  cases hsettings : base.bind lastSettings? with
  | none =>
    rw [hsettings] at hend
    have hstarted := h.start depth hend
    refine ⟨hstarted.phase, hstarted.last, hstarted.pending, hstarted.steady,
      fun hpending hlast x hx => ?_⟩
    have hnone : (Registry.start hooks (perform hooks depth) params r ext).lastSettings = none := by
      rw [hstarted.last, ← hsettings, hstarted.steady hpending]
      rfl
    exact .inr (.inr fun told htold => by cases hnone.symm.trans htold)
  | some context =>
    rw [hsettings] at hend
    have hstarted := h.start depth (within_notify (within_perform depth) context _ ext hend)
    refine hstarted.notify depth (fun passed hpassed _ told htold => ?_) hend
    rw [hpassed] at hsettings
    exact Option.some.inj (htold.symm.trans hsettings)

theorem ConveysWith.foldl {f : Registry → Nat → Registry} (hf : ∀ r ext, Within r (f r ext))
    (hstep : ∀ r ext todo, ConveysWith hooks early base (ext :: todo) r → (f r ext).exhausted = false →
      ConveysWith hooks early base todo (f r ext))
    (h : ConveysWith hooks early base todo r) (hend : (todo.foldl f r).exhausted = false) :
    ConveysWith hooks early base [] (todo.foldl f r) := by
  induction todo generalizing r with
  | nil => exact h
  | cons ext todo ih =>
    have hfirst : (f r ext).exhausted = false := lasting_within.foldl hf todo (f r ext) hend
    exact ih (hstep r ext todo h hfirst) hend

theorem ConveysWith.foldl_start (h : ConveysWith hooks early base todo r) (depth : Nat)
    (exts : List Nat)
    (hend : (exts.foldl (Registry.start hooks (perform hooks depth) params) r).exhausted = false) :
    ConveysWith hooks early base todo
      (exts.foldl (Registry.start hooks (perform hooks depth) params) r) := by
  induction exts generalizing r with
  | nil => exact h
  | cons ext exts ih =>
    have hfirst := lasting_within.foldl (within_start (within_perform depth) params) exts _ hend
    exact ih (h.start depth hfirst) hend

theorem ConveysWith.takeLate (h : ConveysWith hooks early base [] r) :
    ∃ base, (if r.pendingSave.isSome then none else r.lastSettings) = base.bind lastSettings? ∧
      ConveysWith hooks early base r.late { r with late := [] } := by
  rcases Option.eq_none_or_eq_some r.pendingSave with hpending | ⟨context, hpending⟩
  · refine ⟨some (early ++ hookContexts hooks r), ?_, h.phase, h.last, h.pending, fun _ => rfl, ?_⟩
    · rw [hpending]
      exact h.last
    · intro _ hlast ext hext
      rcases h.told hpending hlast ext hext with hlate | hnone | ht
      · exact .inr (.inl hlate)
      · cases hnone
      · exact .inr (.inr ht)
  · refine ⟨none, ?_, h.phase, h.last, h.pending, ?_, ?_⟩
    · rw [hpending]
      rfl
    · exact fun hnone => by cases hpending.symm.trans hnone
    · exact fun hnone => by cases hpending.symm.trans hnone

/-- When nothing waits any longer, all were told, provided the last notification was about
settings. -/
theorem ConveysWith.settle (h : ConveysWith hooks early base [] r) (depth n : Nat)
    (hend : (settle hooks (perform hooks depth) params n r).exhausted = false) :
    let r' := settle hooks (perform hooks depth) params n r
    r'.lastSettings = lastSettings? (early ++ hookContexts hooks r') ∧
      (SettingsLast (early ++ hookContexts hooks r') → AllTold r') := by
  induction n generalizing r base with
  | zero => cases hend
  | succ n ih =>
    unfold Registry.settle at hend ⊢
    split at hend
    · rename_i hlate hpending
      refine ⟨h.last, fun hlast ext hext => ?_⟩
      rcases h.told hpending hlast ext hext with hmem | hmem | ht
      · rw [hlate] at hmem
        cases hmem
      · cases hmem
      · exact ht
    · rename_i context _ hpending
      have hlast := h.pending context hpending
      have htaken : ConveysWith hooks early (some (early ++ hookContexts hooks r)) r.extensions
          { r with pendingSave := none } :=
        ⟨h.phase, h.last, nofun, fun _ => rfl, fun _ _ ext hext => .inr (.inl hext)⟩
      have hwithin := within_settle (within_perform depth) params n _ hend
      refine ih (htaken.foldl (within_notify (within_perform depth) context)
        (fun r ext todo h hend => h.notify depth ?_ hend) hwithin) hend
      rintro passed hpassed hsettings told htold
      obtain rfl := Option.some.inj hpassed
      exact Option.some.inj ((hsettings told htold).symm.trans hlast)
    · obtain ⟨base', hsettings, htaken⟩ := h.takeLate
      rw [hsettings] at hend ⊢
      have hwithin := within_settle (within_perform depth) params n _ hend
      exact ih (htaken.foldl (within_startLate (within_perform depth) params _)
        (fun r ext todo h hend => h.startLate depth hend) hwithin) hend

end conveysWith

theorem conveys_lookUp {early : List SaveContext} (depth : Nat) (feature : Feature)
    (hphase : r.phase = .uninitialized) (htrace : r.trace = [])
    (hlast : r.lastSettings = lastSettings? early) (hpending : r.pendingSave = early.getLast?)
    (hend : (perform hooks (depth + 1) (.lookUp feature) r).2.exhausted = false) :
    let r' := (perform hooks (depth + 1) (.lookUp feature) r).2
    r'.lastSettings = lastSettings? (early ++ hookContexts hooks r') ∧
      (SettingsLast (early ++ hookContexts hooks r') → AllTold r') := by
  rw [perform_lookUp depth feature hphase] at hend ⊢
  have hpassed : early ++ hookContexts hooks { r with phase := .starting } = early := by
    rw [show hookContexts hooks { r with phase := .starting } = [] by simp [hookContexts, htrace, hookSteps],
      List.append_nil]
  have hbegin : ConveysWith hooks early (some early) [] { r with phase := .starting } := by
    rw [ConveysWith, hpassed]
    refine ⟨rfl, hlast, fun context h => hpending.symm.trans h, fun _ => rfl, fun hnone _ ext _ => ?_⟩
    -- nothing waits, so nothing has come
    have hempty : early = [] := List.getLast?_eq_none_iff.mp (hpending.symm.trans hnone)
    refine .inr (.inr fun context hcontext => ?_)
    rw [hempty] at hlast
    cases hlast.symm.trans hcontext
  have hwithin := within_settle (within_perform depth) r.params (depth + 1) _ hend
  exact (hbegin.foldl_start depth r.extensions hwithin).settle depth (depth + 1) hend

/-! ## Settings that hooks leave alone -/

def changesSettings (step : Step) : Bool := step.context?.any (·.isSettings)

/-- No hook passes on a change of settings. -/
structure KeepsSettings (hooks : Behavior) : Prop where
  start : ∀ trace ext params, ∀ step ∈ (hooks trace ext).start params, changesSettings step = false
  stop : ∀ trace ext, ∀ step ∈ (hooks trace ext).stop, changesSettings step = false
  save : ∀ trace ext context, ∀ step ∈ (hooks trace ext).save context, changesSettings step = false

theorem KeepsSettings.steps (hk : KeepsSettings hooks) (older : List Event) (e : Event) :
    ∀ step ∈ e.steps hooks older, changesSettings step = false := by
  intro step hstep
  cases e with
  | started ext params _ =>
    exact hk.start older ext params step (List.takeWhile_subset (fun s : Step => !s.fails) hstep)
  | stopped ext => exact hk.stop older ext step (List.takeWhile_subset (fun s : Step => !s.fails) hstep)
  | notified ext context =>
    exact hk.save older ext context step (List.takeWhile_subset (fun s : Step => !s.fails) hstep)
  | answered | joined | left => cases hstep

theorem KeepsSettings.hookContexts (hk : KeepsSettings hooks) (r : Registry) :
    ∀ context ∈ hookContexts hooks r, context.isSettings = false := by
  have hsteps : ∀ trace, ∀ step ∈ hookSteps hooks trace, changesSettings step = false := by
    intro trace
    induction trace with
    | nil => simp [hookSteps]
    | cons e older ih =>
      intro step hstep
      rcases List.mem_append.mp hstep with hstep | hstep
      · exact ih step hstep
      · exact hk.steps older e step hstep
  intro context hcontext
  obtain ⟨step, hstep, heq⟩ := List.mem_filterMap.mp hcontext
  simpa [changesSettings, heq] using hsteps r.trace step hstep

/-- A registry that is initialized stays so, and the last settings are the same. -/
def SameSettings (r r' : Registry) : Prop :=
  r.phase = .initialized → r'.phase = .initialized ∧ r'.lastSettings = r.lastSettings

theorem lasting_sameSettings : Lasting SameSettings where
  trans h h' hr := by
    obtain ⟨hphase, hlast⟩ := h hr
    obtain ⟨hphase', hlast'⟩ := h' hphase
    exact ⟨hphase', hlast'.trans hlast⟩
  alike h hr := ⟨h.phase.trans hr, h.lastSettings⟩

section keepsSettings
variable (hk : KeepsSettings hooks)
include hk

section performer
variable {perform : Performer}
  (hp : ∀ op : Operation, changesSettings op.step = false → ∀ r, SameSettings r (perform op r).2)
include hp

theorem sameSettings_start (params : InitializeParams) (r : Registry) (ext : Nat) :
    SameSettings r (start hooks perform params r ext) :=
  lasting_sameSettings.runSteps ext ((hooks r.trace ext).start params)
    (fun op hop => hp op (hk.start r.trace ext params op.step hop)) (r.record _)

theorem sameSettings_stop (r : Registry) (ext : Nat) : SameSettings r (stop hooks perform r ext) :=
  lasting_sameSettings.runSteps ext (hooks r.trace ext).stop
    (fun op hop => hp op (hk.stop r.trace ext op.step hop)) (r.record _)

theorem sameSettings_notify (context : SaveContext) (r : Registry) (ext : Nat) :
    SameSettings r (notify hooks perform context r ext) :=
  lasting_sameSettings.runSteps ext ((hooks r.trace ext).save context)
    (fun op hop => hp op (hk.save r.trace ext context op.step hop)) (r.record _)

theorem sameSettings_startLate (params : InitializeParams) (settings : Option SaveContext)
    (r : Registry) (ext : Nat) : SameSettings r (startLate hooks perform params settings r ext) := by
  cases settings with
  | none => exact sameSettings_start hk hp params r ext
  | some context =>
    exact lasting_sameSettings.trans (sameSettings_start hk hp params r ext)
      (sameSettings_notify hk hp context _ ext)

theorem sameSettings_register (ext : Nat) (r : Registry) :
    SameSettings r (register hooks perform ext r).2 := by
  intro hr
  by_cases hnew : r.extensions.contains ext = true
  · rw [register, if_pos hnew]
    exact ⟨hr, rfl⟩
  · rw [register_initialized hr hnew]
    exact sameSettings_startLate hk hp r.params r.lastSettings
      { r with extensions := r.extensions ++ [ext] } ext hr

theorem sameSettings_unregister (ext : Nat) (r : Registry) :
    SameSettings r (unregister hooks perform ext r).2 := by
  let removed : Registry :=
    { r with late := r.late.filter (· != ext), extensions := r.extensions.filter (· != ext) }
  show SameSettings r (if _ then stop hooks perform removed ext else removed)
  split
  · exact sameSettings_stop hk hp removed ext
  · exact fun hr => ⟨hr, rfl⟩

theorem lastSettings_save (context : SaveContext) (hr : r.phase = .initialized) :
    (save hooks perform context r).phase = .initialized ∧ (save hooks perform context r).lastSettings =
      if context.isSettings then some context else r.lastSettings := by
  rw [save_initialized hr]
  exact lasting_sameSettings.foldl (sameSettings_notify hk hp context) _ { r with lastSettings := _ } hr

end performer

theorem sameSettings_perform (depth : Nat) (op : Operation) (hop : changesSettings op.step = false)
    (r : Registry) : SameSettings r (perform hooks depth op r).2 := by
  induction depth generalizing op r with
  | zero => exact fun hr => ⟨hr, rfl⟩
  | succ depth ih =>
    cases op with
    | connect params =>
      intro hr
      rw [show (perform hooks (depth + 1) (.connect params) r).2 = r from if_neg (by simp [hr])]
      exact ⟨hr, rfl⟩
    | register ext => exact sameSettings_register hk ih ext r
    | unregister ext => exact sameSettings_unregister hk ih ext r
    | save context =>
      intro hr
      have hdocument : context.isSettings = false := hop
      have hsaved := lastSettings_save hk ih context hr
      rw [hdocument] at hsaved
      exact hsaved
    | lookUp feature =>
      intro hr
      rw [show (perform hooks (depth + 1) (.lookUp feature) r).2 = r from if_neg (by simp [hr])]
      exact ⟨hr, rfl⟩

theorem lastSettings_perform (depth : Nat) (op : Operation) (hr : r.phase = .initialized) :
    (perform hooks (depth + 1) op r).2.phase = .initialized ∧
      (perform hooks (depth + 1) op r).2.lastSettings =
        (lastSettings? op.context?.toList).or r.lastSettings := by
  cases op with
  | save context =>
    obtain ⟨hphase, hlast⟩ := lastSettings_save hk (sameSettings_perform hk depth) context hr
    refine ⟨hphase, hlast.trans ?_⟩
    cases hcontext : context.isSettings <;> simp [lastSettings?, Operation.context?, hcontext]
  | _ => exact sameSettings_perform hk (depth + 1) _ rfl r hr

theorem lastSettings_run (depth : Nat) (ops : List Operation) (hr : r.phase = .initialized) :
    (run hooks (depth + 1) ops r).lastSettings =
      (lastSettings? (ops.filterMap (·.context?))).or r.lastSettings := by
  induction ops generalizing r with
  | nil => rfl
  | cons op ops ih =>
    obtain ⟨hphase, hlast⟩ := lastSettings_perform hk depth op hr
    rw [run_cons, ih hphase, hlast]
    cases hop : op.context? with
    | none => simp [hop, lastSettings?]
    | some context =>
      cases hcontext : context.isSettings <;>
        simp [hop, lastSettings?, hcontext, List.getLast?_cons]

end keepsSettings

/-! ## Whole runs -/

theorem foldl_keep_contexts (ops : List Operation) (passed : List SaveContext)
    (hlast : r.lastSettings = lastSettings? passed) (hpending : r.pendingSave = passed.getLast?) :
    (ops.foldl keep r).lastSettings = lastSettings? (passed ++ ops.filterMap (·.context?)) ∧
      (ops.foldl keep r).pendingSave = (passed ++ ops.filterMap (·.context?)).getLast? := by
  induction ops generalizing r passed with
  | nil => simpa using ⟨hlast, hpending⟩
  | cons op ops ih =>
    cases op with
    | save context =>
      have hstep := ih (r := r.keep (.save context)) (passed ++ [context])
        (by rw [lastSettings?_concat, ← hlast]; rfl) (by rw [List.getLast?_concat]; rfl)
      simpa [Operation.context?] using hstep
    | register ext =>
      have hsame : (r.keep (.register ext)).lastSettings = r.lastSettings ∧
          (r.keep (.register ext)).pendingSave = r.pendingSave := by
        rw [keep_register]
        split <;> exact ⟨rfl, rfl⟩
      exact ih passed (hsame.1.trans hlast) (hsame.2.trans hpending)
    | connect | unregister | lookUp => exact ih passed hlast hpending

/-- **Every extension is told the last settings**, if the last notification that came before the
registry was initialized is about settings, or none is, or if settings are changed later. One that is
added once the registry is initialized is told them in any case. -/
theorem run_conveys (hooks : Behavior) (depth : Nat) (extensions : List Nat)
    (params : InitializeParams) (hasDocuments : Bool)
    (before : List Operation) (hbefore : ∀ op ∈ before, op.isLookUp = false) (feature : Feature)
    (behind : List Operation)
    (hend : (run hooks depth (before ++ .lookUp feature :: behind)
      (ofExtensions extensions params hasDocuments)).exhausted = false) :
    let after (ops : List Operation) : Registry :=
      run hooks depth ops (ofExtensions extensions params hasDocuments)
    let first := after (before ++ [.lookUp feature])
    let early := before.filterMap (·.context?) ++ hookContexts hooks first
    let later := behind.filterMap (·.context?)
    let r := after (before ++ .lookUp feature :: behind)
    r.isInitialized = true ∧ first.lastSettings = lastSettings? early ∧
    (KeepsSettings hooks →
      r.lastSettings = lastSettings? (before.filterMap (·.context?) ++ later)) ∧
    (SettingsLast early ∨ (∃ context ∈ later, context.isSettings = true) →
      ∀ ext ∈ r.extensions, ∀ context, r.lastSettings = some context →
        .notified ext context ∈ r.trace) ∧
    (∀ sooner rest, behind = sooner ++ rest → ∀ ext ∈ r.extensions,
      ext ∉ (after (before ++ .lookUp feature :: sooner)).extensions →
        ∀ context, r.lastSettings = some context → .notified ext context ∈ r.trace) := by
  cases depth with
  | zero => simp [exhausted_run_zero] at hend
  | succ depth =>
    obtain ⟨-, hfirst, hrest, hwithin, hbegun⟩ := run_lookUp depth hbefore feature behind rfl hend
    have hbehind (ops : List Operation) (r : Registry) :
        run hooks (depth + 1) (before ++ .lookUp feature :: ops) r =
          run hooks (depth + 1) ops (run hooks (depth + 1) (before ++ [.lookUp feature]) r) := by
      rw [← run_append, List.append_assoc, List.singleton_append]
    obtain ⟨hphase, -, htrace⟩ :=
      foldl_keep (r := ofExtensions extensions params hasDocuments) before ⟨rfl, rfl, rfl⟩
    obtain ⟨hlast, hpending⟩ := foldl_keep_contexts
      (r := ofExtensions extensions params hasDocuments) before [] rfl rfl
    obtain ⟨hsettings, htold⟩ := conveys_lookUp depth feature hphase htrace hlast hpending hwithin
    rw [hrest] at hend
    dsimp only
    rw [hfirst, hrest]
    rw [List.nil_append] at hsettings htold
    generalize (perform hooks (depth + 1) (.lookUp feature) _).2 = first at *
    have hconveys : Conveys first (run hooks (depth + 1) behind first) := conveys_run (depth + 1) behind first
    refine ⟨by simp [isInitialized, (hconveys hbegun).1], hsettings, fun hk => ?_, ?_, ?_⟩
    · rw [lastSettings_run hk depth behind hbegun, hsettings,
        lastSettings?_append_of_none (hk.hookContexts first)]
      exact (lastSettings?_append _ _).symm
    · rintro (hcase | ⟨context, hmem, hcontext⟩)
      · exact (htold hcase).conveys hconveys hbegun
      · obtain ⟨op, hop, heq⟩ := List.mem_filterMap.mp hmem
        have hsave : op = .save context := by
          cases op <;> cases heq
          rfl
        exact allTold_run_of_settings (depth + 1) (hsave ▸ hop) hcontext hbegun hend
    · rintro sooner rest rfl ext hext hnew
      rw [hbehind, hfirst] at hnew
      rw [run_append] at hext ⊢
      have hsooner : Conveys first (run hooks (depth + 1) sooner first) := conveys_run (depth + 1) sooner first
      have hadded : Conveys _ (run hooks (depth + 1) rest _) :=
        conveys_run (depth + 1) rest (run hooks (depth + 1) sooner first)
      rcases (hadded (hsooner hbegun).1).2.2 ext hext with htold | ⟨hmem, -⟩
      · exact htold
      · exact absurd hmem hnew

theorem run_conveys_adding :
    let r := run addingHooks 3 [.save (.documentSaved "a.xml"), .save (.settingsChanged .null),
      .lookUp .hover, .register 2] (ofExtensions [0] {} true)
    ∀ ext ∈ r.extensions, ∀ context, r.lastSettings = some context → .notified ext context ∈ r.trace :=
  (run_conveys addingHooks 3 [0] {} true
    [.save (.documentSaved "a.xml"), .save (.settingsChanged .null)] (by simp [Operation.isLookUp])
    .hover [.register 2] rfl).2.2.2.1 (.inl fun _ h => h)

/-- A document that is saved behind a change of settings takes its place: the settings are lost. -/
theorem settings_lost :
    let r := run (fun _ _ => {}) 3 [.save (.settingsChanged .null), .save (.documentSaved "a.xml"),
      .lookUp .hover] (ofExtensions [0] {} true)
    r.isInitialized = true ∧ r.extensions = [0] ∧ r.lastSettings = some (.settingsChanged .null) ∧
      .notified 0 (.settingsChanged .null) ∉ r.trace := by
  refine ⟨rfl, rfl, rfl, ?_⟩
  have htrace : (run (fun _ _ => {}) 3 [.save (.settingsChanged .null), .save (.documentSaved "a.xml"),
      .lookUp .hover] (ofExtensions [0] {} true)).trace =
      [.notified 0 (.documentSaved "a.xml"), .started 0 {} false] := rfl
  rw [htrace]
  simp

end XmlAssist.Registry

import Mathlib.Data.List.Nodup
import XmlAssist.Proofs.Registry.Hooks

/-!
# Starting and stopping in pairs

An extension that is in the list was started once more often than it was stopped, one that is not
was started as often as it was stopped. Once the registry is initialized every operation keeps this,
whatever hooks ask for meanwhile (`Balances`): an extension is entered and started together, and it
is removed and stopped together.

Before that it is not kept. While extensions are being started a removal stops nothing, also where
the extension was started already or is about to be: such an extension stays one call of `start`
ahead for good (`surplus_removed_while_starting`). One that only waits to be started is removed from
those that wait as well, and nothing is lost. Which of the two it is, the hooks that were called tell:
they are followed in a `Lineup` of the extensions, beside the registry (`Owing`). The main statement,
`run_balanced`, counts what is lost.
-/

namespace XmlAssist.Registry

def Event.isStartOf (ext : Nat) : Event → Bool
  | .started extension .. => extension == ext
  | _ => false

def Event.isStopOf (ext : Nat) : Event → Bool
  | .stopped extension => extension == ext
  | _ => false

def startCount (r : Registry) (ext : Nat) : Nat := r.trace.countP (·.isStartOf ext)

def stopCount (r : Registry) (ext : Nat) : Nat := r.trace.countP (·.isStopOf ext)

/-- By how much the calls of `start` are ahead of those of `stop`, the one not counted that belongs
to an extension in the list. -/
def surplus (r : Registry) (ext : Nat) : Int :=
  r.startCount ext - r.stopCount ext - if ext ∈ r.extensions then 1 else 0

/-- How often the steps ask for the extension to be removed. -/
def removals (steps : List Step) (ext : Nat) : Nat := (steps.filterMap Step.removed?).count ext

variable {r r' r'' : Registry} {ext : Nat} {e : Event} {params : InitializeParams} {hooks : Behavior}

theorem startCount_record (r : Registry) (e : Event) (ext : Nat) :
    (r.record e).startCount ext = r.startCount ext + if e.isStartOf ext then 1 else 0 :=
  List.countP_cons

theorem stopCount_record (r : Registry) (e : Event) (ext : Nat) :
    (r.record e).stopCount ext = r.stopCount ext + if e.isStopOf ext then 1 else 0 :=
  List.countP_cons

theorem Alike.countP_trace {p : Event → Bool} (h : Alike r r')
    (hp : ∀ e, e.isCall = false → p e = false) : r'.trace.countP p = r.trace.countP p := by
  obtain ⟨answers, htrace, hcall⟩ := h.trace
  have hnone : answers.countP p = 0 := by
    rw [List.countP_eq_zero]
    intro e he
    simp [hp e (hcall e he)]
  rw [htrace, List.countP_append, hnone, Nat.zero_add]

theorem Alike.startCount (h : Alike r r') (ext : Nat) : r'.startCount ext = r.startCount ext := by
  apply h.countP_trace
  intro e he
  cases e <;> first | rfl | cases he

theorem Alike.stopCount (h : Alike r r') (ext : Nat) : r'.stopCount ext = r.stopCount ext := by
  apply h.countP_trace
  intro e he
  cases e <;> first | rfl | cases he

theorem Alike.surplus (h : Alike r r') (ext : Nat) : r'.surplus ext = r.surplus ext := by
  rw [Registry.surplus, Registry.surplus, h.startCount, h.stopCount, h.extensions]

/-! ## The registry is initialized -/

/-- A registry that is initialized stays so, and nothing is started or stopped for itself. -/
def Balances (r r' : Registry) : Prop :=
  r.phase = .initialized → r'.phase = .initialized ∧ ∀ ext, r'.surplus ext = r.surplus ext

theorem lasting_balances : Lasting Balances where
  trans h h' hr := by
    obtain ⟨hphase, hsame⟩ := h hr
    obtain ⟨hphase', hsame'⟩ := h' hphase
    exact ⟨hphase', fun ext => (hsame' ext).trans (hsame ext)⟩
  alike h hr := ⟨h.phase.trans hr, h.surplus⟩

section performer
variable {perform : Performer} (hp : ∀ op r, Balances r (perform op r).2)
include hp

theorem balances_start (params : InitializeParams) (r : Registry) (ext : Nat) :
    Balances (r.record (.started ext params r.isInitialized)) (start hooks perform params r ext) :=
  lasting_balances.runSteps ext _ (fun op _ => hp op) _

theorem balances_stop (r : Registry) (ext : Nat) :
    Balances (r.record (.stopped ext)) (stop hooks perform r ext) :=
  lasting_balances.runSteps ext _ (fun op _ => hp op) _

theorem balances_notify (context : SaveContext) (r : Registry) (ext : Nat) :
    Balances r (notify hooks perform context r ext) := by
  have hrecord : Balances r (r.record (.notified ext context)) := by
    refine fun hr => ⟨hr, fun x => ?_⟩
    rw [surplus, startCount_record, stopCount_record]
    rfl
  exact lasting_balances.trans hrecord (lasting_balances.runSteps ext _ (fun op _ => hp op) _)

theorem balances_startLate (params : InitializeParams) (settings : Option SaveContext) (r : Registry)
    (ext : Nat) : Balances (r.record (.started ext params r.isInitialized))
      (startLate hooks perform params settings r ext) := by
  cases settings with
  | none => exact balances_start hp params r ext
  | some context =>
    exact lasting_balances.trans (balances_start hp params r ext) (balances_notify hp context _ ext)

theorem balances_register (ext : Nat) (r : Registry) :
    Balances r (register hooks perform ext r).2 := by
  intro hr
  by_cases hnew : r.extensions.contains ext = true
  · rw [register, if_pos hnew]
    exact ⟨hr, fun _ => rfl⟩
  rw [register_initialized hr hnew]
  rw [List.contains_iff_mem] at hnew
  let entered : Registry := { r with extensions := r.extensions ++ [ext] }
  have hlate : Balances (entered.record (.started ext r.params entered.isInitialized))
      (startLate hooks perform r.params r.lastSettings entered ext) :=
    balances_startLate hp r.params r.lastSettings entered ext
  obtain ⟨hphase, hsame⟩ := hlate hr
  refine ⟨hphase, fun x => (hsame x).trans ?_⟩
  have hstart : entered.startCount x = r.startCount x := rfl
  have hstop : entered.stopCount x = r.stopCount x := rfl
  have hmem : x ∈ entered.extensions ↔ x ∈ r.extensions ∨ x = ext := by simp [entered]
  rw [surplus, surplus, startCount_record, stopCount_record, hstart, hstop,
    show (entered.record _).extensions = entered.extensions from rfl]
  by_cases hx : x = ext
  · subst hx
    simp only [hmem, hnew, or_true, if_true, if_false, Event.isStartOf, Event.isStopOf, beq_self_eq_true,
      Bool.false_eq_true]
    omega
  · simp [hmem, hx, Ne.symm hx, Event.isStartOf, Event.isStopOf]

theorem balances_unregister (ext : Nat) (r : Registry) :
    Balances r (unregister hooks perform ext r).2 := by
  intro hr
  let removed : Registry :=
    { r with late := r.late.filter (· != ext), extensions := r.extensions.filter (· != ext) }
  have hmem (x : Nat) : x ∈ removed.extensions ↔ x ∈ r.extensions ∧ x ≠ ext := by simp [removed]
  by_cases hin : r.extensions.contains ext = true
  · rw [unregister_initialized hr hin]
    rw [List.contains_iff_mem] at hin
    have hstopped : Balances (removed.record (.stopped ext)) (stop hooks perform removed ext) :=
      balances_stop hp removed ext
    obtain ⟨hphase, hsame⟩ := hstopped hr
    refine ⟨hphase, fun x => (hsame x).trans ?_⟩
    have hstart : removed.startCount x = r.startCount x := rfl
    have hstop : removed.stopCount x = r.stopCount x := rfl
    rw [surplus, surplus, startCount_record, stopCount_record, hstart, hstop,
      show (removed.record _).extensions = removed.extensions from rfl]
    by_cases hx : x = ext
    · subst hx
      simp only [hmem, hin, ne_eq, not_true, and_false, if_true, if_false, Event.isStartOf,
        Event.isStopOf, beq_self_eq_true, Bool.false_eq_true]
      omega
    · simp [hmem, hx, Ne.symm hx, Event.isStartOf, Event.isStopOf]
  · have hkept : (unregister hooks perform ext r).2 = removed := by
      show (if r.extensions.contains ext && _ then _ else removed) = removed
      rw [Bool.eq_false_iff.mpr hin]
      rfl
    rw [List.contains_iff_mem] at hin
    rw [hkept]
    refine ⟨hr, fun x => ?_⟩
    have hsame : x ∈ removed.extensions ↔ x ∈ r.extensions := by
      rw [hmem]
      exact ⟨And.left, fun hx => ⟨hx, fun heq => hin (heq ▸ hx)⟩⟩
    simp only [surplus, hsame]
    rfl

theorem balances_save (context : SaveContext) (r : Registry) :
    Balances r (save hooks perform context r) := by
  intro hr
  rw [save_initialized hr]
  exact lasting_balances.foldl (balances_notify hp context) _ _ hr

end performer

theorem balances_perform (depth : Nat) (op : Operation) (r : Registry) :
    Balances r (perform hooks depth op r).2 := by
  induction depth generalizing op r with
  | zero => exact fun hr => ⟨hr, fun _ => rfl⟩
  | succ depth ih =>
    cases op with
    | connect params =>
      intro hr
      show (r.withParams params).phase = _ ∧ ∀ ext, (r.withParams params).surplus ext = _
      rw [withParams, if_neg (by simp [hr])]
      exact ⟨hr, fun _ => rfl⟩
    | register ext => exact balances_register ih ext r
    | unregister ext => exact balances_unregister ih ext r
    | save context => exact balances_save ih context r
    | lookUp feature =>
      intro hr
      show (ensureInitialized hooks _ _ r).phase = _ ∧ ∀ ext, (ensureInitialized hooks _ _ r).surplus ext = _
      rw [ensureInitialized, if_neg (by simp [hr])]
      exact ⟨hr, fun _ => rfl⟩

variable (hooks) in
theorem balances_run (depth : Nat) (ops : List Operation) (r : Registry) :
    Balances r (run hooks depth ops r) :=
  lasting_balances.foldl (fun r op => balances_perform depth op r) ops r

/-! ## Extensions are being started -/

/-- Where the extensions stand while they are being started. -/
structure Lineup where
  /-- The extensions of the list. -/
  listed : List Nat
  /-- Those that are to be started, one after the other. -/
  todo : List Nat
  /-- Those that were added meanwhile and wait until the others are started. -/
  late : List Nat := []
  /-- Those that were in the list and did not wait when they were removed. -/
  lost : List Nat := []

namespace Lineup

/-- Once all are started it is the turn of those that wait. -/
def take (l : Lineup) : Lineup :=
  match l.todo with
  | [] => { l with todo := l.late, late := [] }
  | _ :: _ => l

/-- The next extension is started. -/
def note (l : Lineup) : Event → Lineup
  | .started .. => { l.take with todo := l.take.todo.tail }
  | _ => l

/-- A hook asks for an extension to be added or removed. -/
def defer (l : Lineup) : Step → Lineup
  | .register ext =>
    if l.listed.contains ext then l
    else { l with listed := l.listed ++ [ext], late := l.late ++ [ext] }
  | .unregister ext =>
    { l with
      listed := l.listed.filter (· != ext)
      late := l.late.filter (· != ext)
      lost := if ext ∈ l.listed ∧ ext ∉ l.late then l.lost ++ [ext] else l.lost }
  | _ => l

/-- Where the extensions of a list stand after what has happened, from the first call of `start` on. -/
def after (hooks : Behavior) (listed : List Nat) : List Event → Lineup
  | [] => { listed, todo := listed }
  | e :: older => (e.steps hooks older).foldl defer ((after hooks listed older).note e)

variable {l : Lineup} {listed todo : List Nat}

theorem take_of_todo (h : l.todo = ext :: todo) : l.take = l := by
  rw [take, h]

theorem take_of_nil (h : l.todo = []) : l.take = { l with todo := l.late, late := [] } := by
  rw [take, h]

theorem take_of_take_nil (h : l.take.todo = []) : l.take = l := by
  obtain ⟨listed, todo, late, lost⟩ := l
  cases todo with
  | cons ext todo => rfl
  | nil =>
    obtain rfl : late = [] := h
    rfl

theorem note_started (l : Lineup) (ext : Nat) (params : InitializeParams) (whileInitialized : Bool) :
    l.note (.started ext params whileInitialized) = { l.take with todo := l.take.todo.tail } := rfl

theorem defer_register (l : Lineup) (ext : Nat) : l.defer (.register ext) =
    if l.listed.contains ext then l
    else { l with listed := l.listed ++ [ext], late := l.late ++ [ext] } := rfl

theorem defer_todo (l : Lineup) (step : Step) : (l.defer step).todo = l.todo := by
  cases step with
  | register ext => rw [defer_register]; split <;> rfl
  | _ => rfl

theorem foldl_defer_todo (steps : List Step) (l : Lineup) : (steps.foldl defer l).todo = l.todo := by
  induction steps generalizing l with
  | nil => rfl
  | cons step steps ih => rw [List.foldl_cons, ih, defer_todo]

theorem after_append {answers : List Event} (h : ∀ e ∈ answers, e.isCall = false) (older : List Event) :
    after hooks listed (answers ++ older) = after hooks listed older := by
  induction answers with
  | nil => rfl
  | cons e answers ih =>
    rw [List.forall_mem_cons] at h
    rw [List.cons_append, after, ih h.2]
    cases e <;> first | rfl | cases h.1

theorem after_called (r : Registry) (e : Event) : after hooks listed (called hooks r e).trace =
    (e.steps hooks r.trace).foldl defer ((after hooks listed r.trace).note e) := by
  rw [called_trace, after]

theorem count_lost_defer (l : Lineup) (step : Step) (ext : Nat) :
    (l.defer step).lost.count ext ≤ l.lost.count ext + step.removed?.toList.count ext := by
  cases step with
  | register other => rw [defer_register]; split <;> exact Nat.le_add_right ..
  | unregister other =>
    show (if _ then l.lost ++ [other] else l.lost).count ext ≤ l.lost.count ext + [other].count ext
    split
    · exact Nat.le_of_eq List.count_append
    · exact Nat.le_add_right ..
  | _ => exact Nat.le_add_right ..

end Lineup

/-- The removals that hooks asked for too late, of extensions that were being started or had been: they
were in the list, and did not wait. -/
def lostRemovals (hooks : Behavior) (listed : List Nat) (trace : List Event) : List Nat :=
  (Lineup.after hooks listed trace).lost

theorem removals_append (steps more : List Step) (ext : Nat) :
    removals (steps ++ more) ext = removals steps ext + removals more ext := by
  rw [removals, List.filterMap_append, List.count_append]
  rfl

theorem count_lost_foldl_defer (steps : List Step) (l : Lineup) (ext : Nat) :
    (steps.foldl Lineup.defer l).lost.count ext ≤ l.lost.count ext + removals steps ext := by
  induction steps generalizing l with
  | nil => exact Nat.le_refl _
  | cons step steps ih =>
    have hsplit : removals (step :: steps) ext =
        step.removed?.toList.count ext + removals steps ext := by
      rw [← List.singleton_append, removals_append, removals]
      cases hstep : step.removed? <;> simp [hstep]
    have hstep := l.count_lost_defer step ext
    have hrest := ih (l.defer step)
    rw [List.foldl_cons]
    omega

theorem count_lostRemovals_le (listed : List Nat) (trace : List Event) (ext : Nat) :
    (lostRemovals hooks listed trace).count ext ≤ removals (hookSteps hooks trace) ext := by
  induction trace with
  | nil => exact Nat.le_refl _
  | cons e older ih =>
    have hnote : ((Lineup.after hooks listed older).note e).lost = lostRemovals hooks listed older := by
      cases e with
      | started =>
        show (Lineup.after hooks listed older).take.lost = _
        unfold Lineup.take
        split <;> rfl
      | _ => rfl
    have hsteps := count_lost_foldl_defer (e.steps hooks older) ((Lineup.after hooks listed older).note e) ext
    rw [hnote] at hsteps
    rw [hookSteps, removals_append]
    exact Nat.le_trans hsteps (Nat.add_le_add_right ih _)

/-- What is in the list was started, is to be started or waits, once; an extension is started as often
again as its removal was lost. -/
structure Owing (l : Lineup) (r : Registry) : Prop where
  phase : r.phase = .starting
  listed : r.extensions = l.listed
  late : r.late = l.late
  late_nodup : l.late.Nodup
  late_listed : ∀ ext ∈ l.late, ext ∈ l.listed
  stops : ∀ ext, r.stopCount ext = 0
  owed : ∀ ext, r.startCount ext + l.todo.count ext + l.late.count ext =
    (if ext ∈ l.listed then 1 else 0) + l.lost.count ext

section owing
variable {l : Lineup}

theorem Owing.alike (h : Owing l r) (ha : Alike r r') : Owing l r' := by
  refine ⟨ha.phase.trans h.phase, ha.extensions.trans h.listed, ha.late.trans h.late, h.late_nodup,
    h.late_listed, ?_, ?_⟩
  · intro ext
    rw [ha.stopCount, h.stops]
  · intro ext
    rw [ha.startCount]
    exact h.owed ext

theorem Owing.register (h : Owing l r) (ext : Nat) :
    Owing (l.defer (.register ext)) (r.defer (.register ext)) := by
  rw [defer_register, Lineup.defer_register, h.listed]
  split
  · exact h
  rename_i hnew
  rw [List.contains_iff_mem] at hnew
  have hlate : ext ∉ l.late := fun hmem => hnew (h.late_listed ext hmem)
  refine ⟨h.phase, rfl, congrArg (· ++ [ext]) h.late, ?_, ?_, h.stops, ?_⟩
  · rw [List.nodup_append]
    exact ⟨h.late_nodup, by simp, fun a ha b hb heq => hlate (by simpa [heq, List.mem_singleton.mp hb] using ha)⟩
  · intro x hx
    simp only [List.mem_append, List.mem_singleton] at hx ⊢
    exact hx.imp (h.late_listed x) id
  · intro x
    have howed := h.owed x
    show r.startCount x + l.todo.count x + (l.late ++ [ext]).count x =
      (if x ∈ l.listed ++ [ext] then 1 else 0) + l.lost.count x
    rw [List.count_append]
    by_cases hx : x = ext
    · subst hx
      rw [if_neg hnew] at howed
      simp only [List.count_singleton_self, List.mem_append, List.mem_singleton, or_true, if_true]
      omega
    · simpa [hx, Ne.symm hx] using howed

/-- An extension that is removed waits no longer; if it was in the list and did not wait, a call of `start`
is lost. -/
theorem Owing.unregister (h : Owing l r) (ext : Nat) :
    Owing (l.defer (.unregister ext)) (r.defer (.unregister ext)) := by
  refine ⟨h.phase, congrArg (List.filter (· != ext)) h.listed, congrArg (List.filter (· != ext)) h.late,
    h.late_nodup.filter _, ?_, h.stops, ?_⟩
  · intro x hx
    have hmem := List.mem_filter.mp hx
    exact List.mem_filter.mpr ⟨h.late_listed x hmem.1, hmem.2⟩
  · intro x
    have howed := h.owed x
    show r.startCount x + l.todo.count x + (l.late.filter (· != ext)).count x =
      (if x ∈ l.listed.filter (· != ext) then 1 else 0) +
        (if ext ∈ l.listed ∧ ext ∉ l.late then l.lost ++ [ext] else l.lost).count x
    by_cases hx : x = ext
    · subst hx
      have hgone : (l.late.filter (· != x)).count x = 0 := by
        rw [List.count_eq_zero]
        simp
      have hnone : ¬ x ∈ l.listed.filter (· != x) := by simp
      rw [hgone, if_neg hnone]
      by_cases hwaits : x ∈ l.late
      · rw [List.count_eq_one_of_mem h.late_nodup hwaits, if_pos (h.late_listed x hwaits)] at howed
        rw [if_neg fun hcase => hcase.2 hwaits]
        omega
      · rw [List.count_eq_zero.mpr hwaits] at howed
        by_cases hlisted : x ∈ l.listed
        · rw [if_pos hlisted] at howed
          rw [if_pos ⟨hlisted, hwaits⟩, List.count_append, List.count_singleton_self]
          omega
        · rw [if_neg hlisted] at howed
          rw [if_neg fun hcase => hlisted hcase.1]
          omega
    · have hcount : (l.late.filter (· != ext)).count x = l.late.count x :=
        List.count_filter (by simpa using hx)
      have hlost : (if ext ∈ l.listed ∧ ext ∉ l.late then l.lost ++ [ext] else l.lost).count x =
          l.lost.count x := by
        split
        · simp [Ne.symm hx]
        · rfl
      rw [hcount, hlost]
      simpa [hx] using howed

theorem Owing.defer (h : Owing l r) (step : Step) : Owing (l.defer step) (r.defer step) := by
  cases step with
  | register ext => exact h.register ext
  | unregister ext => exact h.unregister ext
  | _ => exact ⟨h.phase, h.listed, h.late, h.late_nodup, h.late_listed, h.stops, h.owed⟩

theorem Owing.foldl_defer (h : Owing l r) (steps : List Step) :
    Owing (steps.foldl Lineup.defer l) (steps.foldl Registry.defer r) := by
  induction steps generalizing l r with
  | nil => exact h
  | cons step steps ih => exact ih (h.defer step)

theorem Owing.take (h : Owing l r) (htodo : l.todo = []) : Owing l.take { r with late := [] } := by
  rw [Lineup.take_of_nil htodo]
  refine ⟨h.phase, h.listed, rfl, List.nodup_nil, by simp, h.stops, fun ext => ?_⟩
  have howed := h.owed ext
  rw [htodo] at howed
  exact howed

end owing

/-- What is owed, by the hooks that were called. -/
abbrev Owes (hooks : Behavior) (listed : List Nat) (r : Registry) : Prop :=
  Owing (Lineup.after hooks listed r.trace) r

section owes
variable {listed todo : List Nat}

theorem Owes.alike (h : Owes hooks listed r) (ha : Alike r r') :
    Owes hooks listed r' ∧ Lineup.after hooks listed r'.trace = Lineup.after hooks listed r.trace := by
  obtain ⟨answers, htrace, hcall⟩ := ha.trace
  have hsame : Lineup.after hooks listed r'.trace = Lineup.after hooks listed r.trace := by
    rw [htrace, Lineup.after_append hcall]
  exact ⟨by rw [Owes, hsame]; exact Owing.alike h ha, hsame⟩

theorem Owes.start (h : Owing (Lineup.after hooks listed r.trace).take r)
    (htodo : (Lineup.after hooks listed r.trace).take.todo = ext :: todo) (depth : Nat)
    (hend : (start hooks (perform hooks depth) params r ext).exhausted = false) :
    let r' := start hooks (perform hooks depth) params r ext
    Owes hooks listed r' ∧ (Lineup.after hooks listed r'.trace).todo = todo := by
  have hnoted : Owing ((Lineup.after hooks listed r.trace).note (.started ext params r.isInitialized))
      (r.record (.started ext params r.isInitialized)) := by
    rw [Lineup.note_started]
    refine ⟨h.phase, h.listed, h.late, h.late_nodup, h.late_listed, fun x => ?_, fun x => ?_⟩
    · rw [stopCount_record, h.stops]
      rfl
    · have howed := h.owed x
      rw [htodo, List.count_cons] at howed
      rw [startCount_record, htodo, ← howed, List.tail_cons]
      by_cases hx : ext = x
      · simp only [Event.isStartOf, hx, beq_self_eq_true, if_true]
        omega
      · simp only [Event.isStartOf, beq_eq_false_iff_ne.mpr hx, Bool.false_eq_true, if_false]
        omega
  have hcalled : Owes hooks listed (called hooks r (.started ext params r.isInitialized)) := by
    rw [Owes, Lineup.after_called]
    exact hnoted.foldl_defer _
  obtain ⟨hstarted, hsame⟩ := hcalled.alike (start_starting depth h.phase hend)
  refine ⟨hstarted, ?_⟩
  rw [hsame, Lineup.after_called, Lineup.foldl_defer_todo]
  show (Lineup.after hooks listed r.trace).take.todo.tail = todo
  rw [htodo, List.tail_cons]

theorem Owes.notify (h : Owes hooks listed r) (depth : Nat) (context : SaveContext)
    (hend : (notify hooks (perform hooks depth) context r ext).exhausted = false) :
    let r' := notify hooks (perform hooks depth) context r ext
    Owes hooks listed r' ∧
      (Lineup.after hooks listed r'.trace).todo = (Lineup.after hooks listed r.trace).todo := by
  have hnoted : Owing ((Lineup.after hooks listed r.trace).note (.notified ext context))
      (r.record (.notified ext context)) := by
    refine ⟨h.phase, h.listed, h.late, h.late_nodup, h.late_listed, fun x => ?_, fun x => ?_⟩
    · rw [stopCount_record, h.stops]
      rfl
    · rw [startCount_record]
      exact h.owed x
  have hcalled : Owes hooks listed (called hooks r (.notified ext context)) := by
    rw [Owes, Lineup.after_called]
    exact hnoted.foldl_defer _
  obtain ⟨hnotified, hsame⟩ := hcalled.alike (notify_starting depth context h.phase hend)
  refine ⟨hnotified, ?_⟩
  rw [hsame, Lineup.after_called, Lineup.foldl_defer_todo]
  rfl

theorem Owes.startLate (h : Owing (Lineup.after hooks listed r.trace).take r)
    (htodo : (Lineup.after hooks listed r.trace).take.todo = ext :: todo) (depth : Nat)
    (settings : Option SaveContext)
    (hend : (startLate hooks (perform hooks depth) params settings r ext).exhausted = false) :
    let r' := startLate hooks (perform hooks depth) params settings r ext
    Owes hooks listed r' ∧ (Lineup.after hooks listed r'.trace).todo = todo := by
  cases settings with
  | none => exact Owes.start h htodo depth hend
  | some context =>
    obtain ⟨hstarted, hrest⟩ :=
      Owes.start h htodo depth (within_notify (within_perform depth) context _ ext hend)
    obtain ⟨hnotified, hsame⟩ := hstarted.notify depth context hend
    exact ⟨hnotified, hsame.trans hrest⟩

theorem Owes.foldl {f : Registry → Nat → Registry} (hf : ∀ r ext, Within r (f r ext))
    (hstep : ∀ r ext todo, Owing (Lineup.after hooks listed r.trace).take r →
      (Lineup.after hooks listed r.trace).take.todo = ext :: todo → (f r ext).exhausted = false →
      Owes hooks listed (f r ext) ∧ (Lineup.after hooks listed (f r ext).trace).todo = todo)
    (h : Owing (Lineup.after hooks listed r.trace).take r)
    (htodo : (Lineup.after hooks listed r.trace).take.todo = todo)
    (hend : (todo.foldl f r).exhausted = false) :
    Owes hooks listed (todo.foldl f r) ∧ (Lineup.after hooks listed (todo.foldl f r).trace).todo = [] := by
  induction todo generalizing r with
  | nil =>
    have hsame := Lineup.take_of_take_nil htodo
    rw [hsame] at h htodo
    exact ⟨h, htodo⟩
  | cons ext todo ih =>
    have hfirst : (f r ext).exhausted = false := lasting_within.foldl hf todo (f r ext) hend
    obtain ⟨howes, hrest⟩ := hstep r ext todo h htodo hfirst
    cases todo with
    | nil => exact ⟨howes, hrest⟩
    | cons next todo =>
      have hsame := Lineup.take_of_todo hrest
      exact ih (hsame.symm ▸ howes) (hsame.symm ▸ hrest) hend

theorem Owes.foldl_notify (h : Owes hooks listed r) (depth : Nat) (context : SaveContext) (exts : List Nat)
    (hend : (exts.foldl (Registry.notify hooks (perform hooks depth) context) r).exhausted = false) :
    let r' := exts.foldl (Registry.notify hooks (perform hooks depth) context) r
    Owes hooks listed r' ∧
      (Lineup.after hooks listed r'.trace).todo = (Lineup.after hooks listed r.trace).todo := by
  induction exts generalizing r with
  | nil => exact ⟨h, rfl⟩
  | cons ext exts ih =>
    have hfirst := lasting_within.foldl (within_notify (within_perform depth) context) exts _ hend
    obtain ⟨hnotified, hsame⟩ := h.notify depth context hfirst
    obtain ⟨hrest, hsame'⟩ := ih hnotified hend
    exact ⟨hrest, hsame'.trans hsame⟩

theorem Owes.settle (h : Owes hooks listed r) (htodo : (Lineup.after hooks listed r.trace).todo = [])
    (depth n : Nat) (hend : (settle hooks (perform hooks depth) params n r).exhausted = false) (ext : Nat) :
    let r' := settle hooks (perform hooks depth) params n r
    r'.surplus ext = (lostRemovals hooks listed r'.trace).count ext := by
  induction n generalizing r with
  | zero => cases hend
  | succ n ih =>
    unfold Registry.settle at hend ⊢
    split at hend
    · rename_i hlate _
      have howed := h.owed ext
      rw [htodo, ← h.late, hlate, ← h.listed] at howed
      show r.surplus ext = (lostRemovals hooks listed r.trace).count ext
      rw [surplus, h.stops, lostRemovals]
      simp only [List.count_nil] at howed
      by_cases hext : ext ∈ r.extensions
      · rw [if_pos hext] at howed ⊢
        omega
      · rw [if_neg hext] at howed ⊢
        omega
    · rename_i context _ _
      have htaken : Owes hooks listed { r with pendingSave := none } :=
        ⟨h.phase, h.listed, h.late, h.late_nodup, h.late_listed, h.stops, h.owed⟩
      have hwithin := within_settle (within_perform depth) params n _ hend
      obtain ⟨hnotified, hsame⟩ := htaken.foldl_notify depth context r.extensions hwithin
      exact ih hnotified (hsame.trans htodo) hend
    · have hwithin := within_settle (within_perform depth) params n _ hend
      have hwaits : (Lineup.after hooks listed r.trace).take.todo = r.late := by
        rw [Lineup.take_of_nil htodo, h.late]
      obtain ⟨hstarted, hrest⟩ := Owes.foldl (r := { r with late := [] })
        (within_startLate (within_perform depth) params _)
        (fun r ext todo h htodo hend => Owes.startLate h htodo depth _ hend) (Owing.take h htodo) hwaits hwithin
      exact ih hstarted hrest hend

theorem surplus_lookUp (depth : Nat) (feature : Feature) (hphase : r.phase = .uninitialized)
    (hlate : r.late = []) (htrace : r.trace = []) (hnodup : r.extensions.Nodup)
    (hend : (perform hooks (depth + 1) (.lookUp feature) r).2.exhausted = false) (ext : Nat) :
    let r' := (perform hooks (depth + 1) (.lookUp feature) r).2
    r'.surplus ext = (lostRemovals hooks r.extensions r'.trace).count ext := by
  rw [perform_lookUp depth feature hphase] at hend ⊢
  have hafter : (Lineup.after hooks r.extensions r.trace).take =
      { listed := r.extensions, todo := r.extensions } := by
    rw [htrace, Lineup.after]
    cases hext : r.extensions <;> rfl
  have hbegin : Owing (Lineup.after hooks r.extensions r.trace).take { r with phase := .starting } := by
    rw [hafter]
    refine ⟨rfl, rfl, hlate, List.nodup_nil, by simp, fun x => by simp [stopCount, htrace], fun x => ?_⟩
    have hcount : r.extensions.count x = if x ∈ r.extensions then 1 else 0 := by
      split
      · exact List.count_eq_one_of_mem hnodup ‹_›
      · exact List.count_eq_zero.mpr ‹_›
    simp [startCount, htrace, hcount]
  have hwithin := within_settle (within_perform depth) r.params (depth + 1) _ hend
  obtain ⟨hstarted, hrest⟩ := Owes.foldl (r := { r with phase := .starting })
    (within_start (within_perform depth) r.params)
    (fun r ext todo h htodo hend => Owes.start h htodo depth hend) hbegin
    (congrArg Lineup.todo hafter) hwithin
  exact hstarted.settle hrest depth (depth + 1) hend ext

end owes

/-! ## Whole runs -/

theorem nodup_keep (op : Operation) (h : r.extensions.Nodup) : (r.keep op).extensions.Nodup := by
  cases op with
  | register ext =>
    rw [keep_register]
    split
    · exact h
    · exact nodup_append_of_new ‹_› h
  | unregister ext => exact h.filter _
  | _ => exact h

theorem nodup_foldl_keep (ops : List Operation) (h : r.extensions.Nodup) :
    (ops.foldl keep r).extensions.Nodup :=
  List.foldlRecOn (motive := fun r : Registry => r.extensions.Nodup) ops keep h
    fun _ hr op _ => nodup_keep op hr

/-- **Starting and stopping come in pairs**, from the first look-up on, but for the calls of `start` that are
lost. These are as many as the removals, asked for by hooks while extensions were being started, of an
extension that was in the list and did not wait; a removal of one that waits loses nothing. -/
theorem run_balanced (hooks : Behavior) (depth : Nat) (extensions : List Nat)
    (hnodup : extensions.Nodup) (params : InitializeParams) (hasDocuments : Bool)
    (before : List Operation) (hbefore : ∀ op ∈ before, op.isLookUp = false) (feature : Feature)
    (behind : List Operation)
    (hend : (run hooks depth (before ++ .lookUp feature :: behind)
      (ofExtensions extensions params hasDocuments)).exhausted = false) :
    let after (ops : List Operation) : Registry :=
      run hooks depth ops (ofExtensions extensions params hasDocuments)
    let first := after (before ++ [.lookUp feature])
    let lost := lostRemovals hooks (after before).extensions first.trace
    let r := after (before ++ .lookUp feature :: behind)
    ((after before).isInitialized = false ∧ (after before).trace = []) ∧ r.isInitialized = true ∧
    ∀ ext, lost.count ext ≤ removals (hookSteps hooks first.trace) ext ∧
      r.startCount ext = r.stopCount ext + (if ext ∈ r.extensions then 1 else 0) + lost.count ext := by
  cases depth with
  | zero => simp [exhausted_run_zero] at hend
  | succ depth =>
    obtain ⟨hkept, hfirst, hrest, hwithin, hbegun⟩ := run_lookUp depth hbefore feature behind rfl hend
    obtain ⟨hphase, hlate, htrace⟩ :=
      foldl_keep (r := ofExtensions extensions params hasDocuments) before ⟨rfl, rfl, rfl⟩
    have hlisted : (before.foldl keep (ofExtensions extensions params hasDocuments)).extensions.Nodup :=
      nodup_foldl_keep before hnodup
    simp only [hkept, hfirst, hrest]
    obtain ⟨hphase', hsame⟩ := balances_run hooks (depth + 1) behind _ hbegun
    refine ⟨⟨by simp [isInitialized, hphase], htrace⟩, by simp [isInitialized, hphase'], fun ext => ?_⟩
    have hsurplus := surplus_lookUp depth feature hphase hlate htrace hlisted hwithin ext
    refine ⟨count_lostRemovals_le .., ?_⟩
    have hpair := (hsame ext).trans hsurplus
    generalize run hooks (depth + 1) behind _ = r at hpair ⊢
    rw [surplus] at hpair
    by_cases hext : ext ∈ r.extensions
    · rw [if_pos hext] at hpair ⊢
      omega
    · rw [if_neg hext] at hpair ⊢
      omega

/-- The second extension removes the first one when it is started. -/
def removingHooks : Behavior := fun _ ext =>
  if ext = 1 then { start := fun _ => [.unregister 0] } else {}

theorem run_balanced_removing :
    let after (ops : List Operation) : Registry := run removingHooks 3 ops (ofExtensions [0, 1] {} true)
    let first := after [.register 2, .lookUp .hover]
    let lost := lostRemovals removingHooks (after [.register 2]).extensions first.trace
    let r := after [.register 2, .lookUp .hover, .unregister 2]
    lost.count 2 ≤ removals (hookSteps removingHooks first.trace) 2 ∧
      r.startCount 2 = r.stopCount 2 + (if 2 ∈ r.extensions then 1 else 0) + lost.count 2 :=
  (run_balanced removingHooks 3 [0, 1] (by decide) {} true [.register 2]
    (by simp [Operation.isLookUp]) .hover [.unregister 2] rfl).2.2 2

/-- An extension that is removed after it was started, by one that is started after it, is never
stopped. -/
theorem surplus_removed_while_starting :
    let r := run removingHooks 3 [.lookUp .hover] (ofExtensions [0, 1] {} true)
    r.isInitialized = true ∧ r.extensions = [1] ∧ r.startCount 0 = 1 ∧ r.stopCount 0 = 0 := by
  decide

end XmlAssist.Registry

import XmlAssist.Extension.Probe
import XmlAssist.Proofs.Contribution.Cancel

/-!
# Participants that fail

Whether a participant fails makes no difference to the others: they are asked all the same, and what they
contribute comes in the same order. What the participant had contributed before it failed stays among it, except
that a hover has no text from it. Main statement: with more participants an answer gains just what these
contribute (`answers_gain`), so that participants that fail leave an answer as it is exactly if they had
contributed nothing.
-/

namespace XmlAssist

variable {α β γ : Type}

/-! ## Lists put together -/

/-- The last list consists of the members of the other two, each in their order. -/
inductive Interleaved : List α → List α → List α → Prop where
  | nil : Interleaved [] [] []
  | left (a : α) {xs ys zs : List α} (rest : Interleaved xs ys zs) : Interleaved (a :: xs) ys (a :: zs)
  | right (a : α) {xs ys zs : List α} (rest : Interleaved xs ys zs) : Interleaved xs (a :: ys) (a :: zs)

namespace Interleaved

variable {xs ys zs xs' ys' zs' : List α}

theorem length_eq (h : Interleaved xs ys zs) : zs.length = xs.length + ys.length := by
  induction h with
  | nil => rfl
  | left a _ ih => rw [List.length_cons, List.length_cons, ih, Nat.add_right_comm]
  | right a _ ih => rw [List.length_cons, List.length_cons, ih, Nat.add_assoc]

theorem append (h : Interleaved xs ys zs) (h' : Interleaved xs' ys' zs') :
    Interleaved (xs ++ xs') (ys ++ ys') (zs ++ zs') := by
  induction h with
  | nil => exact h'
  | left a _ ih => exact ih.left a
  | right a _ ih => exact ih.right a

theorem of_left (xs : List α) : Interleaved xs [] xs := by
  induction xs with
  | nil => exact .nil
  | cons a xs ih => exact ih.left a

theorem of_right (ys : List α) : Interleaved [] ys ys := by
  induction ys with
  | nil => exact .nil
  | cons a ys ih => exact ih.right a

theorem eq_iff (h : Interleaved xs ys zs) : zs = xs ↔ ys = [] := by
  constructor
  · intro heq
    have hlength := h.length_eq
    rw [heq] at hlength
    exact List.length_eq_zero_iff.mp (by omega)
  · intro hnone
    subst hnone
    have hall : ∀ {xs ys zs : List α}, Interleaved xs ys zs → ys = [] → zs = xs := by
      intro xs ys zs h
      induction h with
      | nil => exact fun _ => rfl
      | left a _ ih => exact fun hys => congrArg (a :: ·) (ih hys)
      | right => exact nofun
    exact hall h rfl

theorem flatMap (h : Interleaved xs ys zs) (f : α → List β) :
    Interleaved (xs.flatMap f) (ys.flatMap f) (zs.flatMap f) := by
  induction h with
  | nil => exact .nil
  | left a _ ih => exact (of_left (f a)).append ih
  | right a _ ih => exact (of_right (f a)).append ih

theorem flatMap_of_forall {f g k : γ → List α} (h : ∀ c, Interleaved (f c) (g c) (k c)) (cs : List γ) :
    Interleaved (cs.flatMap f) (cs.flatMap g) (cs.flatMap k) := by
  induction cs with
  | nil => exact .nil
  | cons c cs ih => exact (h c).append ih

theorem mem_iff (h : Interleaved xs ys zs) {a : α} : a ∈ zs ↔ a ∈ xs ∨ a ∈ ys := by
  induction h with
  | nil => simp
  | left b _ ih => simp only [List.mem_cons, ih, or_assoc]
  | right b _ ih => simp only [List.mem_cons, ih, or_left_comm]

theorem find?_eq (h : Interleaved xs ys zs) {p : α → Bool} (hys : ∀ y ∈ ys, p y = false) :
    zs.find? p = xs.find? p := by
  induction h with
  | nil => rfl
  | left a _ ih => rw [List.find?_cons, List.find?_cons, ih hys]
  | right a _ ih =>
    rw [List.find?_cons, hys a List.mem_cons_self]
    exact ih fun y hy => hys y (List.mem_cons_of_mem _ hy)

end Interleaved

/-! ## What is gathered -/

theorem gather_never {calls : List (Cancel → Contribution α)}
    (h : ∀ call ∈ calls, (call .never).cancel = .never) :
    gather .never calls = {
      items := calls.flatMap fun call => (call .never).items
      failures := calls.flatMap fun call => (call .never).failure.toList
      cancel := .never } := by
  induction calls with
  | nil => rfl
  | cons call rest ih =>
    simp only [gather, Cancel.poll, h call List.mem_cons_self, ih fun c hc => h c (List.mem_cons_of_mem _ hc)]
    rfl

/-- An answer that has become another one by some items put into it: it is the same just if there are none. -/
structure Gains (old added new : List α) : Prop where
  interleaved : Interleaved old added new
  same_iff : new = old ↔ added = []

theorem Interleaved.gains {old added new : List α} (h : Interleaved old added new) : Gains old added new :=
  ⟨h, h.eq_iff⟩

/-- Both answers are the same refusal, or the second has gained some items. -/
def GainsOrRefuses (old : Except BadLocation (List α)) (added : List α) (new : Except BadLocation (List α)) :
    Prop :=
  match old, new with
  | .ok old, .ok new => Gains old added new
  | .error e, .error e' => e = e'
  | _, _ => False

variable {ps extra qs : List Participant} {call : Participant → Cancel → Contribution α}

theorem interleaved_gather (h : Interleaved ps extra qs) (hcall : ∀ p ∈ qs, (call p .never).cancel = .never) :
    Interleaved (gather .never (ps.map call)).items (extra.flatMap fun p => (call p .never).items)
      (gather .never (qs.map call)).items := by
  have hall {l : List Participant} (hl : ∀ p ∈ l, p ∈ qs) :
      (gather .never (l.map call)).items = l.flatMap fun p => (call p .never).items := by
    rw [gather_never, List.flatMap_map]
    intro c hc
    obtain ⟨p, hp, rfl⟩ := List.mem_map.mp hc
    exact hcall p (hl p hp)
  rw [hall fun _ hp => h.mem_iff.mpr (.inl hp), hall fun _ hp => hp]
  exact h.flatMap _

theorem gains_behind (own : Except BadLocation (List α)) {old added new : List α} (h : Interleaved old added new) :
    GainsOrRefuses (own.map (· ++ old)) added (own.map (· ++ new)) := by
  cases own with
  | error e => exact rfl
  | ok items => exact ((Interleaved.of_left items).append h).gains

/-! ## Answers -/

/-- A participant does not give up a request that nobody gives up. -/
structure Participant.NeverStops (p : Participant) : Prop where
  diagnose (d : Document) (settings : Settings) : (p.diagnose d settings .never).cancel = .never
  fix (d : Document) (problem : Diagnostic) (range : Range) : (p.fix d problem range .never).cancel = .never
  link (d : Document) : (p.link d .never).cancel = .never
  define (r : Request) : (p.define r .never).cancel = .never
  refer (r : Request) (withDeclaration : Bool) : (p.refer r withDeclaration .never).cancel = .never
  lens (d : Document) (settings : Settings.CodeLens) : (p.lens d settings .never).cancel = .never
  highlight (r : Request) : (p.highlight r .never).cancel = .never
  rename (r : Request) (newText : String) : (p.rename r newText .never).cancel = .never

theorem Participant.NeverStops.definitions {p : Participant} (h : p.NeverStops) (r : Request) :
    (p.definitions r .never).cancel = .never := by
  unfold Participant.definitions
  split
  · exact h.define r
  · rfl

/-- A participant without a text for a hover, for which failing is one reason, is not seen in it. -/
theorem show?_eq (h : Interleaved ps extra qs) {target : Hover.Target} {request : Hover.Request}
    (hfails : ∀ p ∈ extra, ∃ e, p.hover target request = .error e) :
    Hover.show? qs target request .never = Hover.show? ps target request .never := by
  have hcancel (p : Participant) : (Hover.fragment target request p .never).cancel = .never := by
    unfold Hover.fragment
    cases p.hover target request <;> rfl
  have hsame : (gather .never (qs.map (Hover.fragment target request))).items =
      (gather .never (ps.map (Hover.fragment target request))).items := by
    refine (interleaved_gather h fun p _ => hcancel p).eq_iff.mpr (List.flatMap_eq_nil_iff.mpr fun p hp => ?_)
    obtain ⟨e, he⟩ := hfails p hp
    rw [Hover.fragment, he]
  unfold Hover.show?
  rw [hsame]

theorem collect_eq (h : Interleaved ps extra qs) {d : Document} {settings : Settings}
    (hqs : ∀ p ∈ qs, p.NeverStops)
    (hfails : ∀ p ∈ extra, ∀ e, (p.diagnose d settings .never).failure = some e → e.isUnavailable = false) :
    (Diagnostics.collect qs d settings .never).2 = (Diagnostics.collect ps d settings .never).2 := by
  have hall {l : List Participant} (hl : ∀ p ∈ l, p ∈ qs) :
      (gather .never (l.map fun p => p.diagnose d settings)).failures =
        l.flatMap fun p => (p.diagnose d settings .never).failure.toList := by
    rw [gather_never]
    · exact List.flatMap_map ..
    intro c hc
    obtain ⟨p, hp, rfl⟩ := List.mem_map.mp hc
    exact (hqs p (hl p hp)).diagnose d settings
  dsimp only [Diagnostics.collect]
  rw [hall fun _ hp => h.mem_iff.mpr (.inl hp), hall fun _ hp => hp]
  refine (h.flatMap _).find?_eq fun e he => ?_
  obtain ⟨p, hp, he⟩ := List.mem_flatMap.mp he
  exact hfails p hp e (Option.mem_toList.mp he)

/-- **What a participant contributes before it fails stays, and nothing else changes**: where participants are put
in among others, an answer gains the items that these contribute, whether or not they fail; a hover gains
nothing if they fail, and so does what a report waits for, unless they fail for a grammar that is not at hand. -/
theorem answers_gain (h : Interleaved ps extra qs) (hqs : ∀ p ∈ qs, p.NeverStops) (d : Document) (r : Request) :
    (∀ target request, (∀ p ∈ extra, ∃ e, p.hover target request = .error e) →
      Hover.show? qs target request .never = Hover.show? ps target request .never) ∧
    GainsOrRefuses (Navigation.definitions ps r .never) (extra.flatMap fun p => (p.definitions r .never).items)
      (Navigation.definitions qs r .never) ∧
    (∀ withDeclaration, Gains (Navigation.references ps r withDeclaration .never)
      (extra.flatMap fun p => (p.refer r withDeclaration .never).items)
      (Navigation.references qs r withDeclaration .never)) ∧
    GainsOrRefuses (Navigation.highlights ps r .never) (extra.flatMap fun p => (p.highlight r .never).items)
      (Navigation.highlights qs r .never) ∧
    (∀ newText, GainsOrRefuses ((Navigation.renameEdits ps r newText).map (·.edits))
      (extra.flatMap fun p => (p.rename r newText .never).items)
      ((Navigation.renameEdits qs r newText).map (·.edits))) ∧
    (∀ settings, Gains (Navigation.lenses ps d settings .never)
      (extra.flatMap fun p => (p.lens d settings .never).items) (Navigation.lenses qs d settings .never)) ∧
    (∀ range problems, Gains (Diagnostics.fixes ps d range problems .never)
      ((problems.filter (·.range.intersects range)).flatMap fun problem =>
        extra.flatMap fun p => (p.fix d problem range .never).items)
      (Diagnostics.fixes qs d range problems .never)) ∧
    Gains (Navigation.links ps d) (extra.flatMap fun p => (p.link d .never).items) (Navigation.links qs d) ∧
    ∀ settings, Gains (Diagnostics.collect ps d settings .never).1
        (extra.flatMap fun p => (p.diagnose d settings .never).items)
        (Diagnostics.collect qs d settings .never).1 ∧
      ((∀ p ∈ extra, ∀ e, (p.diagnose d settings .never).failure = some e → e.isUnavailable = false) →
        (Diagnostics.collect qs d settings .never).2 = (Diagnostics.collect ps d settings .never).2) := by
  refine ⟨fun target request => show?_eq h, ?_, fun withDeclaration => ?_, ?_, fun newText => ?_,
    fun settings => ?_, fun range problems => ?_, ?_, fun settings => ⟨?_, collect_eq h hqs⟩⟩
  · exact gains_behind (Navigation.pairLink r) (interleaved_gather h fun p hp => (hqs p hp).definitions r)
  · exact (interleaved_gather h fun p hp => (hqs p hp).refer r withDeclaration).gains
  · have hgathered := interleaved_gather h fun p hp => (hqs p hp).highlight r
    unfold Navigation.highlights
    cases Navigation.pairRanges r with
    | error e => exact rfl
    | ok ranges => exact gains_behind (.ok (ranges.map fun range => ⟨range, .read⟩)) hgathered
  · have hgathered := interleaved_gather h fun p hp => (hqs p hp).rename r newText
    unfold Navigation.renameEdits
    cases Navigation.pairRanges r with
    | error e => exact rfl
    | ok ranges => exact gains_behind (.ok (ranges.map fun range => ⟨range, newText⟩)) hgathered
  · exact (interleaved_gather h fun p hp => (hqs p hp).lens d settings).gains
  · have hall {l : List Participant} (hl : ∀ p ∈ l, p ∈ qs) : Diagnostics.fixes l d range problems .never =
        (problems.filter (·.range.intersects range)).flatMap fun problem =>
          l.flatMap fun p => (p.fix d problem range .never).items := by
      unfold Diagnostics.fixes
      rw [gather_never, List.flatMap_assoc]
      · simp only [List.flatMap_map]
      · intro c hc
        obtain ⟨problem, -, hc⟩ := List.mem_flatMap.mp hc
        obtain ⟨p, hp, rfl⟩ := List.mem_map.mp hc
        exact (hqs p (hl p hp)).fix d problem range
    rw [hall fun _ hp => h.mem_iff.mpr (.inl hp), hall fun _ hp => hp]
    exact (Interleaved.flatMap_of_forall (fun problem => h.flatMap _) _).gains
  · exact (interleaved_gather h fun p hp => (hqs p hp).link d).gains
  · exact ((Interleaved.of_left _).append
      (interleaved_gather h fun p hp => (hqs p hp).diagnose d settings)).gains

/-! ## A participant that fails -/

theorem Probe.neverStops (p : Probe) : p.participant.NeverStops where
  diagnose d settings := by
    show (p.diagnose d .never).cancel = .never
    unfold Probe.diagnose
    split <;> rfl
  fix _ _ _ := rfl
  link _ := rfl
  define r := by
    show (p.define r .never).cancel = .never
    unfold Probe.define
    split <;> rfl
  refer _ _ := rfl
  lens _ _ := rfl
  highlight _ := rfl
  rename _ _ := rfl

theorem Participant.FromDoctype.neverStops [Library] : participant.NeverStops where
  diagnose _ _ := rfl
  fix _ _ _ := rfl
  link d := by
    show (link d .never).cancel = .never
    unfold link
    split
    · exact (Contribution.mayStop_ofAttempts _).never
    · rfl
  define r := (mayStop_define r).never
  refer r withDeclaration := (mayStop_refer r withDeclaration).never
  lens d settings := (mayStop_lens d settings).never
  highlight r := (mayStop_highlight r).never
  rename _ _ := rfl

/-- Contributes to every feature and then fails. -/
def Probe.broken : Probe := { name := "p", mode := .failing }

theorem interleaved_broken : Interleaved [Participant.FromDoctype.participant] [Probe.broken.participant]
    [Probe.broken.participant, Participant.FromDoctype.participant] :=
  .right _ (.left _ .nil)

theorem neverStops_broken : ∀ p ∈ [Probe.broken.participant, Participant.FromDoctype.participant],
    p.NeverStops := by
  simp only [List.forall_mem_cons, List.not_mem_nil, false_implies, implies_true, and_true]
  exact ⟨Probe.broken.neverStops, Participant.FromDoctype.neverStops⟩

def aboutDeclaration : Request := ⟨Service.threeReferences, ⟨0, 30⟩, 30, 0⟩

/-- The highlight of a participant that fails comes in front of those of the participant behind it. -/
theorem answers_gain_highlight :
    Interleaved [Participant.FromDoctype.participant] [Probe.broken.participant]
      [Probe.broken.participant, Participant.FromDoctype.participant] ∧
    (∀ p ∈ [Probe.broken.participant, Participant.FromDoctype.participant], p.NeverStops) ∧
    ∃ found, Navigation.highlights [Participant.FromDoctype.participant] aboutDeclaration .never = .ok found ∧
      found.length = 4 ∧
      Navigation.highlights [Probe.broken.participant, Participant.FromDoctype.participant] aboutDeclaration
        .never = .ok (⟨.point ⟨0, 30⟩, .text⟩ :: found) ∧
      Gains found [⟨.point ⟨0, 30⟩, .text⟩] (⟨.point ⟨0, 30⟩, .text⟩ :: found) := by
  refine ⟨interleaved_broken, neverStops_broken, ?_⟩
  have hgains := (answers_gain interleaved_broken neverStops_broken Service.threeReferences
    aboutDeclaration).2.2.2.1
  have hlength : (Navigation.highlights [Participant.FromDoctype.participant] aboutDeclaration
      .never).toOption.map List.length = some 4 := by decide +kernel
  have hnew : Navigation.highlights [Probe.broken.participant, Participant.FromDoctype.participant]
      aboutDeclaration .never = (Navigation.highlights [Participant.FromDoctype.participant] aboutDeclaration
        .never).map (⟨.point ⟨0, 30⟩, .text⟩ :: ·) := by decide +kernel
  rw [hnew] at hgains ⊢
  cases hold : Navigation.highlights [Participant.FromDoctype.participant] aboutDeclaration .never with
  | error e =>
    rw [hold] at hlength
    cases hlength
  | ok found =>
    rw [hold] at hlength hgains
    exact ⟨found, rfl, Option.some.inj hlength, rfl, hgains⟩

/-- What a participant contributes before it fails is in the answer. -/
theorem link_of_broken : ¬ ∀ (ps extra qs : List Participant) (d : Document), Interleaved ps extra qs →
    (∀ p ∈ qs, p.NeverStops) → (∀ p ∈ extra, (p.link d .never).failure.isSome) →
      Navigation.links qs d = Navigation.links ps d := by
  intro h
  have hsame := h [] [Probe.broken.participant] [Probe.broken.participant] (.parse "<a/>" "file:///a.xml")
    (.right _ .nil) (fun p hp => List.mem_singleton.mp hp ▸ Probe.broken.neverStops)
    (fun p hp => List.mem_singleton.mp hp ▸ rfl)
  exact absurd (congrArg List.length hsame) (by decide +kernel)

end XmlAssist

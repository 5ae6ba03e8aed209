import XmlAssist.Proofs.Completion.Edits

/-!
# Requests that are given up

Work is asked for piece by piece, and before each piece whether the answer is still wanted. So a contribution
that is given up is a beginning of the whole one and leaves no polls, while one that is not is the whole one
(`Contribution.Curtailed`). The participants of the service only contribute in this way
(`Participant.MayStop`). Main statement: an answer that is given up at any poll is a beginning of the answer
that is not (`Service.answers_begin`).
-/

namespace XmlAssist

variable {α β : Type}

namespace Contribution

/-- What a contribution comes to if it may be given up, next to the whole one: the same with polls left, or a
beginning of it with none left. -/
inductive Curtailed (full c : Contribution α) : Prop where
  | whole {polls : Nat} (items : c.items = full.items) (cancel : c.cancel = .after polls)
  | cut (beginning : c.items <+: full.items) (cancel : c.cancel = .after 0)

theorem Curtailed.behind {full c : Contribution α} (h : Curtailed full c) (items : List α) :
    Curtailed { full with items := items ++ full.items } { c with items := items ++ c.items } := by
  cases h with
  | whole same cancel => exact .whole (congrArg (items ++ ·) same) cancel
  | cut beginning cancel => exact .cut ((List.prefix_append_right_inj items).mpr beginning) cancel

/-- A call that may be given up at each of its polls. -/
structure MayStop (call : Cancel → Contribution α) : Prop where
  never : (call .never).cancel = .never
  after (polls : Nat) : Curtailed (call .never) (call (.after polls))

theorem mayStop_of_eq {call : Cancel → Contribution α} {items : List α} {failure : Option Failure}
    (h : ∀ cancel, call cancel = { items, failure, cancel }) : MayStop call where
  never := by rw [h]
  after polls := by
    rw [h, h]
    exact .whole rfl rfl

theorem ofAttempts_cancel (cancel : Cancel) (attempts : List (Except BadLocation α)) :
    ofAttempts cancel attempts =
      { items := (ofAttempts .never attempts).items, failure := (ofAttempts .never attempts).failure, cancel } := by
  induction attempts with
  | nil => rfl
  | cons attempt rest ih =>
    cases attempt with
    | error => rfl
    | ok a => rw [ofAttempts, ofAttempts, ih]

theorem mayStop_ofAttempts (attempts : List (Except BadLocation α)) :
    MayStop fun cancel => ofAttempts cancel attempts :=
  mayStop_of_eq fun cancel => ofAttempts_cancel cancel attempts

theorem mayStop_visit (f : β → Except BadLocation (List α)) (candidates : List β) :
    MayStop fun cancel => visit f cancel candidates := by
  induction candidates with
  | nil => exact mayStop_of_eq fun _ => rfl
  | cons b rest ih =>
    have hstop : (visit f (.after 0) (b :: rest)) = { cancel := .after 0 } := rfl
    cases hb : f b with
    | error e =>
      have hgo (n : Nat) : visit f (.after (n + 1)) (b :: rest) =
          { failure := some (.ofBadLocation e), cancel := .after n } := by
        rw [visit, hb]
        rfl
      have hnever : visit f .never (b :: rest) = { failure := some (.ofBadLocation e), cancel := .never } := by
        rw [visit, hb]
        rfl
      refine ⟨by rw [hnever], fun polls => ?_⟩
      cases polls with
      | zero => exact .cut (hstop ▸ List.nil_prefix) rfl
      | succ n =>
        rw [hgo, hnever]
        exact .whole rfl rfl
    | ok items =>
      have hgo (n : Nat) : visit f (.after (n + 1)) (b :: rest) =
          { visit f (.after n) rest with items := items ++ (visit f (.after n) rest).items } := by
        rw [visit, hb]
        rfl
      have hnever : visit f .never (b :: rest) =
          { visit f .never rest with items := items ++ (visit f .never rest).items } := by
        rw [visit, hb]
        rfl
      refine ⟨by rw [hnever]; exact ih.never, fun polls => ?_⟩
      cases polls with
      | zero => exact .cut (hstop ▸ List.nil_prefix) rfl
      | succ n =>
        rw [hgo, hnever]
        exact (ih.after n).behind items

theorem MayStop.ofAttempts_andThen (attempts : List (Except BadLocation α)) {call : Cancel → Contribution α}
    (h : MayStop call) : MayStop fun cancel => (ofAttempts cancel attempts).andThen call := by
  cases hfailure : (ofAttempts .never attempts).failure with
  | some e =>
    have hcall (cancel : Cancel) : (ofAttempts cancel attempts).andThen call = ofAttempts cancel attempts := by
      rw [ofAttempts_cancel, andThen, hfailure]
    exact mayStop_of_eq fun cancel => (hcall cancel).trans (ofAttempts_cancel cancel attempts)
  | none =>
    have hcall (cancel : Cancel) : (ofAttempts cancel attempts).andThen call =
        { call cancel with items := (ofAttempts .never attempts).items ++ (call cancel).items } := by
      rw [ofAttempts_cancel, andThen, hfailure]
    refine ⟨by rw [hcall]; exact h.never, fun polls => ?_⟩
    rw [hcall, hcall]
    exact (h.after polls).behind _

end Contribution

open Contribution (MayStop)

theorem gather_isPrefix {calls : List (Cancel → Contribution α)}
    (h : ∀ call ∈ calls, MayStop call) (polls : Nat) :
    (gather (.after polls) calls).items <+: (gather .never calls).items := by
  induction calls generalizing polls with
  | nil => exact List.prefix_rfl
  | cons call rest ih =>
    have hrest := ih fun c hc => h c (List.mem_cons_of_mem _ hc)
    obtain ⟨hnever, hafter⟩ := h call List.mem_cons_self
    cases polls with
    | zero => exact List.nil_prefix
    | succ n =>
      simp only [gather, Cancel.poll, hnever]
      cases hafter n with
      | whole items cancel =>
        rw [items, cancel]
        exact (List.prefix_append_right_inj _).mpr (hrest _)
      | cut beginning cancel =>
        -- the next poll stops what follows
        have hnone : (gather (.after 0) rest).items = [] := by cases rest <;> rfl
        rw [cancel, hnone, List.append_nil]
        exact beginning.trans (List.prefix_append ..)

theorem gather_map_isPrefix {ps : List Participant} {call : Participant → Cancel → Contribution α}
    (h : ∀ p ∈ ps, MayStop (call p)) (polls : Nat) :
    (gather (.after polls) (ps.map call)).items <+: (gather .never (ps.map call)).items := by
  refine gather_isPrefix (fun c hc => ?_) polls
  obtain ⟨p, hp, rfl⟩ := List.mem_map.mp hc
  exact h p hp

/-! ## The participants of the service -/

namespace Participant

/-- What a participant contributes to features that may be given up can be given up at each of its polls. -/
structure MayStop (p : Participant) : Prop where
  diagnose (d : Document) (settings : Settings) : Contribution.MayStop (p.diagnose d settings)
  fix (d : Document) (problem : Diagnostic) (range : Range) : Contribution.MayStop (p.fix d problem range)
  define (r : Request) : Contribution.MayStop (p.define r)
  typeDefine (r : Request) : Contribution.MayStop (p.typeDefine r)
  refer (r : Request) (withDeclaration : Bool) : Contribution.MayStop (p.refer r withDeclaration)
  lens (d : Document) (settings : Settings.CodeLens) : Contribution.MayStop (p.lens d settings)
  highlight (r : Request) : Contribution.MayStop (p.highlight r)

open Contribution (mayStop_of_eq mayStop_ofAttempts mayStop_visit)

theorem mayStop_default : MayStop {} where
  diagnose _ _ := mayStop_of_eq fun _ => rfl
  fix _ _ _ := mayStop_of_eq fun _ => rfl
  define _ := mayStop_of_eq fun _ => rfl
  typeDefine _ := mayStop_of_eq fun _ => rfl
  refer _ _ := mayStop_of_eq fun _ => rfl
  lens _ _ := mayStop_of_eq fun _ => rfl
  highlight _ := mayStop_of_eq fun _ => rfl

theorem MayStop.definitions {p : Participant} (h : MayStop p) (r : Request) :
    Contribution.MayStop (p.definitions r) := by
  unfold Participant.definitions
  split
  · exact h.define r
  · exact mayStop_of_eq fun _ => rfl

namespace FromGrammar

theorem mayStop_diagnose [Library] (x : Grammar.Sources) (d : Document) (settings : Settings) :
    Contribution.MayStop (diagnose x d settings) := by
  unfold diagnose
  split
  · exact mayStop_of_eq fun _ => rfl
  · split
    · exact mayStop_of_eq fun _ => rfl
    · split
      · exact mayStop_of_eq fun _ => rfl
      · cases x.grammars d with
        | error e => exact mayStop_of_eq fun _ => rfl
        | ok grammars =>
          cases grammars with
          | nil => exact mayStop_of_eq fun _ => rfl
          | cons g rest => exact mayStop_visit ..

theorem mayStop_fix (d : Document) (problem : Diagnostic) : Contribution.MayStop (fix d problem) := by
  unfold fix
  cases d.spanOf problem.range with
  | error e => exact mayStop_of_eq fun _ => rfl
  | ok span =>
    simp only
    split
    · exact mayStop_ofAttempts _
    · split
      · exact mayStop_of_eq fun _ => rfl
      · split
        · exact mayStop_ofAttempts _
        · exact mayStop_of_eq fun _ => rfl

theorem mayStop_typeDefine [Library] (x : Grammar.Sources) (r : Request) : Contribution.MayStop (typeDefine x r) := by
  unfold typeDefine
  split
  · exact mayStop_of_eq fun _ => rfl
  · cases x.grammars r.document with
    | error e => exact mayStop_of_eq fun _ => rfl
    | ok grammars => exact mayStop_visit ..

theorem mayStop [Library] (x : Grammar.Sources) : MayStop (participant x) where
  diagnose := mayStop_diagnose x
  fix d problem _ := mayStop_fix d problem
  define _ := mayStop_of_eq fun _ => rfl
  typeDefine := mayStop_typeDefine x
  refer _ _ := mayStop_of_eq fun _ => rfl
  lens _ _ := mayStop_of_eq fun _ => rfl
  highlight _ := mayStop_of_eq fun _ => rfl

end FromGrammar

namespace FromDoctype

theorem mayStop_define (r : Request) : Contribution.MayStop (define r) := by
  unfold define
  simp only
  split
  · exact mayStop_of_eq fun _ => rfl
  · split
    · exact mayStop_of_eq fun _ => rfl
    · exact mayStop_ofAttempts _

theorem mayStop_refer (r : Request) (withDeclaration : Bool) :
    Contribution.MayStop (refer r withDeclaration) := by
  unfold refer
  cases requestedName? r with
  | none => exact mayStop_of_eq fun _ => rfl
  | some name => exact (mayStop_visit ..).ofAttempts_andThen _

theorem mayStop_lens (d : Document) (settings : Settings.CodeLens) :
    Contribution.MayStop (lens d settings) := by
  unfold lens
  split
  · exact mayStop_of_eq fun _ => rfl
  · exact mayStop_visit ..

theorem mayStop_highlight (r : Request) : Contribution.MayStop (highlight r) := by
  unfold highlight
  cases requestedName? r with
  | none => exact mayStop_of_eq fun _ => rfl
  | some name => exact mayStop_ofAttempts _

theorem mayStop [Library] : MayStop participant where
  diagnose _ _ := mayStop_of_eq fun _ => rfl
  fix _ _ _ := mayStop_of_eq fun _ => rfl
  define := mayStop_define
  typeDefine _ := mayStop_of_eq fun _ => rfl
  refer := mayStop_refer
  lens := mayStop_lens
  highlight := mayStop_highlight

end FromDoctype

theorem FromSchema.mayStop_define (r : Request) : Contribution.MayStop (define r) := by
  unfold define
  simp only
  split
  · exact mayStop_of_eq fun _ => rfl
  · split
    · exact mayStop_ofAttempts _
    · exact mayStop_of_eq fun _ => rfl

theorem mayStop_of_define {p : Participant} (hdefine : ∀ r, Contribution.MayStop (p.define r))
    (hrest : ∃ complete hover appliesTo define, p = { complete, hover, appliesTo, define }) : MayStop p := by
  obtain ⟨complete, hover, appliesTo, define, rfl⟩ := hrest
  exact { mayStop_default with define := hdefine }

end Participant

namespace Extension

theorem mayStop_builtIn [Library] {x : Extension} (hx : x ∈ builtIn) (sources : Grammar.Sources) :
    (x.participant sources).MayStop := by
  simp only [builtIn, List.mem_cons, List.not_mem_nil, or_false] at hx
  rcases hx with rfl | rfl | rfl | rfl | rfl
  · exact Participant.FromGrammar.mayStop sources
  · exact Participant.mayStop_of_define (fun _ => Contribution.mayStop_of_eq fun _ => rfl) ⟨_, _, _, _, rfl⟩
  · exact Participant.FromDoctype.mayStop
  · exact Participant.mayStop_of_define Participant.FromSchema.mayStop_define ⟨_, _, _, _, rfl⟩
  · exact Participant.mayStop_of_define (fun _ => Contribution.mayStop_of_eq fun _ => rfl) ⟨_, _, _, _, rfl⟩

end Extension

/-! ## The service -/

/-- Both answers refuse the request for the same reason, or the first is a beginning of the second. -/
def Begins : Except BadLocation (List α) → Except BadLocation (List α) → Prop
  | .ok part, .ok whole => part <+: whole
  | .error e, .error e' => e = e'
  | _, _ => False

namespace Service

variable {s : Service}

theorem mayStop_participants [Library] (hs : s.HasOwnParticipants) (feature : Feature) :
    ∀ p ∈ (s.consult feature).1, p.MayStop :=
  forall_participants (s := (s.perform (.lookUp feature)).2) hs Extension.mayStop_builtIn
    Participant.mayStop_default feature

theorem begins_answerAt (feature : Feature) (d : Document) (position : Position)
    {part whole : List Participant → Request → Except BadLocation (List α)}
    (h : ∀ r, Begins (part (s.consult feature).1 r) (whole (s.consult feature).1 r)) :
    Begins (s.answerAt feature d position part).1 (s.answerAt feature d position whole).1 := by
  unfold answerAt
  cases Request.ofPosition d position with
  | error e => exact rfl
  | ok r => exact h r

theorem begins_append (own : Except BadLocation (List α)) {part whole : List α} (h : part <+: whole) :
    Begins (own.map (· ++ part)) (own.map (· ++ whole)) := by
  cases own with
  | error e => exact rfl
  | ok items => exact (List.prefix_append_right_inj items).mpr h

/-- **A request that is given up has a beginning of its answer**: whatever the document, the settings and the
position, and at whatever poll the request is given up. -/
theorem answers_begin [Library] (hs : s.HasOwnParticipants) (d : Document) (position : Position)
    (withDeclaration : Bool) (range : Range) (problems : List Diagnostic) (polls : Nat) :
    (s.diagnostics d (.after polls)).1 <+: (s.diagnostics d .never).1 ∧
      Begins (s.definitions d position (.after polls)).1 (s.definitions d position .never).1 ∧
      Begins (s.typeDefinitions d position (.after polls)).1 (s.typeDefinitions d position .never).1 ∧
      Begins (s.references d position withDeclaration (.after polls)).1
        (s.references d position withDeclaration .never).1 ∧
      Begins (s.highlights d position (.after polls)).1 (s.highlights d position .never).1 ∧
      (s.lenses d (.after polls)).1 <+: (s.lenses d .never).1 ∧
      (s.fixes d range problems (.after polls)).1 <+: (s.fixes d range problems .never).1 := by
  have hps (feature : Feature) := mayStop_participants hs feature
  refine ⟨?_, begins_answerAt _ _ _ fun r => ?_, begins_answerAt _ _ _ fun r => ?_,
    begins_answerAt _ _ _ fun r => ?_, begins_answerAt _ _ _ fun r => ?_, ?_, ?_⟩
  · unfold diagnostics collectDiagnostics
    by_cases henabled : s.settings.validation.enabled = true
    · simp only [if_pos henabled]
      exact (List.prefix_append_right_inj _).mpr
        (gather_map_isPrefix (fun p hp => (hps _ p hp).diagnose d s.settings) polls)
    · simp only [if_neg henabled]
      exact List.prefix_rfl
  · exact begins_append (Navigation.pairLink r)
      (gather_map_isPrefix (fun p hp => (hps _ p hp).definitions r) polls)
  · exact gather_map_isPrefix (fun p hp => (hps _ p hp).typeDefine r) polls
  · exact gather_map_isPrefix (fun p hp => (hps _ p hp).refer r withDeclaration) polls
  · have hgathered := gather_map_isPrefix (fun p hp => (hps .highlighting p hp).highlight r) polls
    have hbegins := begins_append
      ((Navigation.pairRanges r).map (·.map fun range => ({ range, kind := .read } : Highlight))) hgathered
    unfold Navigation.highlights
    cases hpair : Navigation.pairRanges r with
    | error e => exact rfl
    | ok ranges =>
      rw [hpair] at hbegins
      exact hbegins
  · unfold lenses
    split
    · exact gather_map_isPrefix (fun p hp => (hps _ p hp).lens d s.settings.codeLens) polls
    · exact List.prefix_rfl
  · refine gather_isPrefix (fun call hcall => ?_) polls
    obtain ⟨problem, -, hcall⟩ := List.mem_flatMap.mp hcall
    obtain ⟨p, hp, rfl⟩ := List.mem_map.mp hcall
    exact (hps _ p hp).fix d problem range

def threeReferences : Document := .parse "<!ELEMENT a (b,b,b)><!ELEMENT b EMPTY>" "file:///a.dtd"

/-- Given up at the fourth poll, the first of which is before the participant, two of three references are
found. -/
theorem answers_begin_references : new.HasOwnParticipants ∧
    (new.references threeReferences ⟨0, 30⟩ false (.after 3)).1.toOption.map List.length = some 2 ∧
    (new.references threeReferences ⟨0, 30⟩ false .never).1.toOption.map List.length = some 3 ∧
    Begins (new.references threeReferences ⟨0, 30⟩ false (.after 3)).1
      (new.references threeReferences ⟨0, 30⟩ false .never).1 :=
  ⟨hasOwnParticipants_new, by decide +kernel, by decide +kernel,
    (answers_begin hasOwnParticipants_new threeReferences ⟨0, 30⟩ false {} [] 3).2.2.2.1⟩

end Service

end XmlAssist

import XmlAssist.Extension.FixedGrammar
import XmlAssist.Library.Own
import XmlAssist.Proofs.Completion.Cursor

/-!
# Edits at the cursor

The participants of the service propose to replace just the text that a request is about
(`Participant.InPlace`), and that text is at the cursor; so is what the service itself proposes to
replace. Main statement: the edits of all proposals cover the cursor, except for those that insert
text at the end of the white space of a tag or behind the `>` of a start tag
(`Service.complete_covers`).
-/

namespace XmlAssist

namespace Completion

/-! ## Edits of proposals -/

/-- The ranges of all edits in the list are as told. -/
def Edits (P : Range → Prop) (items : List Item) : Prop :=
  ∀ item ∈ items, ∀ edit, item.edit = some edit → P edit.range

section edits
variable {P : Range → Prop} {x : Response} {item : Item} {items items' : List Item}

theorem edits_nil : Edits P [] := nofun

theorem Edits.append (h : Edits P items) (h' : Edits P items') : Edits P (items ++ items') := by
  intro item hitem
  rcases List.mem_append.mp hitem with hitem | hitem
  · exact h item hitem
  · exact h' item hitem

theorem edits_singleton {range : Range} {text : String} (hr : P range) (h : item.edit = some ⟨range, text⟩) :
    Edits P [item] := by
  refine List.forall_mem_singleton.mpr fun edit hedit => ?_
  obtain rfl := Option.some.inj (hedit.symm.trans h)
  exact hr

theorem edits_map {α : Type} {f : α → Item} {range : Range} (hr : P range)
    (h : ∀ a, ∃ text, (f a).edit = some ⟨range, text⟩) (as : List α) : Edits P (as.map f) := by
  intro item hitem
  obtain ⟨a, -, rfl⟩ := List.mem_map.mp hitem
  obtain ⟨text, htext⟩ := h a
  exact edits_singleton hr htext _ (List.mem_singleton_self _)

theorem Edits.addAll (hx : Edits P x.items) (h : Edits P items) : Edits P (x.addAll items).items :=
  hx.append h

theorem Edits.addAttributes (hx : Edits P x.items) (h : Edits P items) :
    Edits P (items.foldl (·.addAttribute ·) x).items := by
  induction items generalizing x with
  | nil => exact hx
  | cons item items ih =>
    obtain ⟨hitem, hitems⟩ := List.forall_mem_cons.mp h
    refine ih ?_ hitems
    dsimp only [Response.addAttribute]
    split
    · exact hx
    · exact hx.append (List.forall_mem_singleton.mpr hitem)

end edits

end Completion

/-! ## Participants -/

open Completion (Edits)

/-- The participant proposes to replace what it is asked about, and nothing else. -/
def Participant.InPlace (p : Participant) : Prop :=
  ∀ (place : Completion.Place) (r : Completion.Request) (response : Completion.Response) (P : Range → Prop),
    P r.range → Edits P response.items → Edits P (p.complete place r response).items

namespace Participant

theorem inPlace_default : ({} : Participant).InPlace := fun _ _ _ _ _ hx => hx

section participants
variable {P : Range → Prop} {r : Completion.Request}

theorem FromGrammar.edits_elements (hr : P r.range) (pre : Option String) (withBracket : Bool)
    (declared : List Grammar.Element) : Edits P (declared.map (elementItem r pre withBracket)) :=
  Completion.edits_map hr (fun _ => ⟨_, rfl⟩) _

section grammar
variable [Library]

theorem FromGrammar.edits_tagItems (hr : P r.range) (x : Grammar.Sources) : Edits P (tagItems x r) := by
  unfold tagItems
  split
  · split
    · exact edits_elements hr _ _ _
    · exact Completion.edits_nil
  · split
    · exact edits_elements hr _ _ _
    · exact Completion.edits_nil

theorem FromGrammar.edits_contentItems (hr : P r.range) (x : Grammar.Sources) :
    Edits P (contentItems x r) := by
  unfold contentItems
  split
  · exact Completion.edits_nil
  split
  · exact (Completion.edits_map hr (fun _ => ⟨_, rfl⟩) _).append (edits_elements hr _ _ _)
  · exact Completion.edits_nil

theorem FromGrammar.edits_attributeItems (hr : P r.range) (x : Grammar.Sources) (withValue : Bool) :
    Edits P (attributeItems x r withValue) := by
  unfold attributeItems
  split
  · exact Completion.edits_map hr (fun _ => ⟨_, rfl⟩) _
  · exact Completion.edits_nil

theorem FromGrammar.edits_valueItems (hr : P r.range) (x : Grammar.Sources) : Edits P (valueItems x r) := by
  unfold valueItems
  split
  · split
    · exact Completion.edits_map hr (fun _ => ⟨_, rfl⟩) _
    · exact Completion.edits_nil
  · exact Completion.edits_nil

theorem FromGrammar.inPlace (x : Grammar.Sources) : (FromGrammar.participant x).InPlace := by
  intro place r response P hr hx
  cases place with
  | tagOpen => exact hx.addAll (edits_tagItems hr x)
  | content => exact hx.addAll (edits_contentItems hr x)
  | attributeName withValue => exact hx.addAttributes (edits_attributeItems hr x withValue)
  | attributeValue typed => exact hx.addAll (edits_valueItems hr x)

end grammar

theorem Prolog.edits_valueItems (hr : P r.range) (name : String) : Edits P (valueItems r name) :=
  Completion.edits_map hr (fun _ => ⟨_, rfl⟩) _

theorem Prolog.inPlace : Prolog.participant.InPlace := by
  intro place r response P hr hx
  show Edits P (Prolog.complete place r response).items
  unfold Prolog.complete
  split
  · exact hx
  split
  · split
    · exact hx
    · exact hx.addAttributes (Completion.edits_map hr (fun _ => ⟨_, rfl⟩) _)
  · split
    · exact hx.addAll (edits_valueItems hr _)
    · exact hx
  · exact hx

theorem FromSchema.inPlace : FromSchema.participant.InPlace := by
  intro place r response P hr hx
  show Edits P (FromSchema.complete place r response).items
  unfold FromSchema.complete
  split
  · dsimp only
    split
    · exact hx
    split
    · exact hx
    · exact hx.addAll (Completion.edits_map hr (fun _ => ⟨_, rfl⟩) _)
  · exact hx

theorem FromInstance.edits_nameItems (hr : P r.range) (withValue : Bool) :
    Edits P (nameItems r withValue) := by
  unfold nameItems
  split
  · exact Completion.edits_nil
  dsimp only
  split
  · split
    · exact Completion.edits_singleton hr rfl
    · exact Completion.edits_nil
  · exact Completion.edits_map hr (fun _ => ⟨_, rfl⟩) _

theorem FromInstance.edits_valueItems (hr : P r.range) : Edits P (valueItems r) := by
  unfold valueItems
  split
  · split
    · exact Completion.edits_map hr (fun _ => ⟨_, rfl⟩) _
    · exact Completion.edits_nil
  · exact Completion.edits_nil

theorem FromInstance.inPlace : FromInstance.participant.InPlace := by
  intro place r response P hr hx
  cases place with
  | attributeName withValue => exact hx.addAttributes (edits_nameItems hr withValue)
  | attributeValue typed => exact hx.addAll (edits_valueItems hr)
  | _ => exact hx

end participants

end Participant

theorem Extension.inPlace_builtIn [Library] {x : Extension} (h : x ∈ builtIn) (sources : Grammar.Sources) :
    (x.participant sources).InPlace := by
  simp only [builtIn, List.mem_cons, List.not_mem_nil, or_false] at h
  rcases h with rfl | rfl | rfl | rfl | rfl
  · exact Participant.FromGrammar.inPlace sources
  · exact Participant.Prolog.inPlace
  · exact Participant.inPlace_default
  · exact Participant.FromSchema.inPlace
  · exact Participant.FromInstance.inPlace

/-! ## Proposals at a spot -/

namespace Completion

/-- The offset of the request is that of its position, in a document with its own lines. -/
structure Sound (r : XmlAssist.Request) : Prop where
  lines : r.document.lines = LineIndex.ofText r.document.text
  offset : r.document.offsetAt r.position = .ok r.offset

/-- The range fits the place of the request. -/
abbrev FitsRequest (r : XmlAssist.Request) : Range → Prop := Fits r.document r.position r.offset

section suggesting
variable {r : Request} {response : Response} {ps : List Participant} {start stop : Nat}

theorem fits_rangeOf (hr : Sound r.toRequest) (hnear : Near r.document r.offset start stop) {range : Range}
    (h : r.document.rangeOf ⟨start, stop⟩ = .ok range) : FitsRequest r.toRequest range :=
  fits_of_near hr.lines hr.offset hnear h

theorem fits_range (hr : Sound r.toRequest) (hnear : Near r.document r.offset r.replaced.start r.replaced.stop) :
    FitsRequest r.toRequest r.range := by
  unfold Request.range
  split
  · rename_i range hrange
    exact fits_rangeOf hr hnear hrange
  · exact .inl ⟨Position.le_refl _, Position.le_refl _⟩

theorem edits_consult {P : Range → Prop} (hps : ∀ p ∈ ps, p.InPlace) (place : Place) (hrange : P r.range)
    (hx : Edits P response.items) (cancel : Cancel) : Edits P (consult place r response cancel ps).items := by
  induction ps generalizing response cancel with
  | nil => exact hx
  | cons p ps ih =>
    obtain ⟨hp, hps⟩ := List.forall_mem_cons.mp hps
    simp only [consult]
    split
    · exact hx
    · exact ih hps (hp place r response P hrange hx) _

theorem edits_suggestStartTag (hps : ∀ p ∈ ps, p.InPlace) (hr : Sound r.toRequest)
    (hx : Edits (FitsRequest r.toRequest) response.items) (hnear : Near r.document r.offset start stop)
    (cancel : Cancel) :
    Edits (FitsRequest r.toRequest) (suggestStartTag ps r response cancel start stop).items := by
  have hrange : FitsRequest r.toRequest (r.replacing start stop).range :=
    fits_range (r := r.replacing start stop) hr hnear
  have hconsult := edits_consult hps .tagOpen hrange hx cancel
  simp only [suggestStartTag]
  split
  · exact hconsult
  · exact hconsult.addAll (edits_map hrange (fun _ => ⟨_, rfl⟩) _)

theorem edits_suggestEndTag (hr : Sound r.toRequest) (hx : Edits (FitsRequest r.toRequest) response.items)
    (hnear : Near r.document r.offset start stop) (leaveOut : Bool) :
    Edits (FitsRequest r.toRequest) (suggestEndTag r response start leaveOut stop).items := by
  unfold suggestEndTag
  dsimp only
  split
  · exact hx
  · rename_i range hrange
    split
    · exact hx
    · exact hx.append (edits_singleton (fits_rangeOf hr hnear hrange) rfl)

theorem le_prologStop (s : String) (stop : Nat) : stop ≤ prologStop s stop := by
  simp only [prologStop]
  split
  · omega
  · omega
  · exact Nat.le_refl _

theorem edits_suggestProlog (hr : Sound r.toRequest) (hx : Edits (FitsRequest r.toRequest) response.items)
    (hstart : start ≤ r.offset) (hstop : r.offset ≤ stop) :
    Edits (FitsRequest r.toRequest) (suggestProlog r response start stop).items := by
  unfold suggestProlog
  split
  · exact hx
  split
  · exact hx
  · rename_i range hrange
    have hnear := Near.of_le (d := r.document) hstart
      (Nat.le_trans hstop (le_prologStop r.document.text stop))
    exact hx.append (edits_singleton (fits_rangeOf hr hnear hrange) rfl)

theorem near_valueRequest (hnear : Near r.document r.offset start stop) :
    let v := (valueRequest r start stop).1
    v.toRequest = r.toRequest ∧ Near r.document r.offset v.replaced.start v.replaced.stop := by
  simp only [valueRequest]
  split
  · split
    · rename_i hquote
      split
      all_goals
        split
        · exact ⟨rfl, .of_le hquote.2 ‹_›⟩
        · exact ⟨rfl, hnear⟩
    · exact ⟨rfl, hnear⟩
  · exact ⟨rfl, hnear⟩

theorem edits_suggest (hps : ∀ p ∈ ps, p.InPlace) (hr : Sound r.toRequest)
    (hx : Edits (FitsRequest r.toRequest) response.items) {spot : Spot}
    (hnear : spot.Near r.document r.offset) (cancel : Cancel) :
    Edits (FitsRequest r.toRequest) (suggest ps r response cancel spot).items := by
  cases spot with
  | tag start stop =>
    have hspan := Near.of_le (d := r.document) hnear.1 hnear.2
    exact edits_suggestEndTag (r := r.replacing start stop) hr
      (edits_suggestStartTag hps hr hx hspan cancel) hspan true
  | startTag start stop => exact edits_suggestStartTag hps hr hx (.of_le hnear.1 hnear.2) cancel
  | endTag start stop => exact edits_suggestEndTag hr hx (.of_le hnear.1 hnear.2) false
  | attributeName start stop =>
    exact edits_consult hps _ (fits_range (r := r.replacing start stop) hr hnear) hx cancel
  | attributeValue start stop =>
    obtain ⟨hrequest, hvalue⟩ := near_valueRequest hnear
    dsimp only [suggest]
    generalize valueRequest r start stop = v at hrequest hvalue
    obtain ⟨v, typed⟩ := v
    dsimp only at hrequest hvalue ⊢
    rw [← hrequest] at hr hx hvalue ⊢
    exact edits_consult hps _ (fits_range hr hvalue) hx cancel
  | content =>
    have hhere := Near.of_le (d := r.document) (Nat.le_refl r.offset) (Nat.le_refl r.offset)
    exact edits_consult hps _ (fits_range (r := r.replacing r.offset r.offset) hr hhere) hx cancel
  | counterpart stop tag =>
    dsimp only [suggest]
    split
    · exact hx
    · rename_i range hrange
      exact hx.append (edits_singleton (fits_rangeOf hr hnear hrange) rfl)
  | prolog start stop => exact edits_suggestProlog hr hx hnear.1 hnear.2

end suggesting

end Completion

/-! ## The service -/

namespace Service

open Completion (Fits Sound FitsRequest)

variable {s : Service}

/-- The extensions are the service's own ones and others that provide grammars at most. -/
def HasOwnParticipants [Library] (s : Service) : Prop :=
  ∀ x ∈ s.roster, x ∈ Extension.builtIn ∨ ∀ sources, x.participant sources = {}

section
variable [Library]

/-- What holds of the participants of the service's own extensions, and of one that does nothing, holds of all
that take part. -/
theorem forall_participants {P : Participant → Prop} (hs : s.HasOwnParticipants)
    (hown : ∀ {x}, x ∈ Extension.builtIn → ∀ sources, P (x.participant sources)) (hnone : P {})
    (feature : Feature) : ∀ p ∈ s.participants feature, P p := by
  intro p hp
  obtain ⟨id, -, rfl⟩ := List.mem_map.mp hp
  have hdefault : s.extension id ∈ s.roster ∨ s.extension id = default := by
    rw [extension, Array.getD_eq_getD_getElem?]
    cases h : s.roster[id]? with
    | none => exact .inr rfl
    | some x => exact .inl (Array.mem_of_getElem? h)
  rcases hdefault with hmem | hdefault
  · rcases hs _ hmem with hmem | hsilent
    · exact hown hmem _
    · rw [hsilent]
      exact hnone
  · rw [hdefault]
    exact hnone

theorem inPlace_participants (hs : s.HasOwnParticipants) (feature : Feature) :
    ∀ p ∈ s.participants feature, p.InPlace :=
  forall_participants hs Extension.inPlace_builtIn Participant.inPlace_default feature

end

theorem requestAt_eq {d : Document} {position : Position} {offset : Nat}
    (h : d.offsetAt position = .ok offset) (settings : Settings) :
    ∃ r, Completion.requestAt d position settings = .ok r ∧
      r.toRequest = { document := d, position, offset, node := d.nodeBefore offset } := by
  refine ⟨{
      document := d, position, offset, node := d.nodeBefore offset, settings,
      replaced := ⟨offset, offset⟩ },
    ?_, rfl⟩
  simp only [Completion.requestAt, XmlAssist.Request.behind, h]
  rfl

/-- **The edits of proposals are at the cursor**: whatever the document and the settings, a position
of the text gets proposals, and their edits cover the position, but for those that insert text at
the end of the white space of a tag that the cursor is in, or behind the `>` of a start tag that the
cursor is right before. -/
theorem complete_covers [Library] (hs : s.HasOwnParticipants) (text uri : String) {position : Position} {offset : Nat}
    (hoffset : (Document.parse text uri).offsetAt position = .ok offset) (cancel : Cancel) :
    ∃ list, (s.complete (Document.parse text uri) position cancel).1 = .ok list ∧
      ∀ item ∈ list.items, ∀ edit, item.edit = some edit →
        edit.range.Covers position ∨ ∃ stop, Completion.Overshoot (Document.parse text uri) offset stop ∧
          (Document.parse text uri).rangeOf ⟨stop, stop⟩ = .ok edit.range := by
  obtain ⟨r, hrequest, hr⟩ := requestAt_eq hoffset s.settings
  have hsound : Sound r.toRequest := by
    rw [hr]
    exact ⟨rfl, hoffset⟩
  have hdocument : r.document = Document.parse text uri := by rw [hr]
  have hposition : r.position = position := by rw [hr]
  have hplace : r.offset = offset := by rw [hr]
  have hnode : r.node = (Document.parse text uri).nodeBefore r.offset := by rw [hr]
  obtain ⟨hsame, hnear⟩ := Completion.near_locate cancel hdocument hnode
  simp only [complete, hrequest]
  generalize Completion.locate r cancel = located at hsame hnear ⊢
  obtain ⟨spot, r', cancel'⟩ := located
  dsimp only at hsame hnear ⊢
  cases spot with
  | none => exact ⟨_, rfl, nofun⟩
  | some spot =>
    refine ⟨_, rfl, ?_⟩
    have hfits (ps : List Participant) (hps : ∀ p ∈ ps, p.InPlace) (response : Completion.Response)
        (hx : response.items = []) : Completion.Edits (Fits (Document.parse text uri) position offset)
          (Completion.suggest ps r' response cancel' spot).items := by
      have hempty : Completion.Edits (FitsRequest r'.toRequest) response.items := by
        rw [hx]
        exact Completion.edits_nil
      have hspot : spot.Near r'.document r'.offset := by
        rw [hsame, hdocument]
        exact hnear spot rfl
      have hedits := Completion.edits_suggest hps (hsame ▸ hsound) hempty hspot cancel'
      rwa [FitsRequest, hsame, hdocument, hposition, hplace] at hedits
    refine hfits _ ?_ _ rfl
    split
    · exact inPlace_participants (s := (s.perform (.lookUp .completion)).2) hs _
    · exact nofun

theorem hasOwnParticipants_new [Library] : new.HasOwnParticipants := fun _ hx => .inl (List.mem_toArray.mp hx)

/-- At the end of a text nothing is behind the cursor. -/
theorem complete_covers_end :
    (Document.parse "<a></" "file:///a.xml").offsetAt ⟨0, 5⟩ = .ok 5 ∧
      ∃ list, (new.complete (Document.parse "<a></" "file:///a.xml") ⟨0, 5⟩ .never).1 = .ok list ∧
        ∀ item ∈ list.items, ∀ edit, item.edit = some edit → edit.range.Covers ⟨0, 5⟩ := by
  have hoffset : (Document.parse "<a></" "file:///a.xml").offsetAt ⟨0, 5⟩ = .ok 5 := by decide +kernel
  obtain ⟨list, hlist, hedits⟩ := complete_covers hasOwnParticipants_new "<a></" "file:///a.xml" hoffset .never
  refine ⟨hoffset, list, hlist, fun item hitem edit hedit => ?_⟩
  rcases hedits item hitem edit hedit with hcovers | ⟨stop, hover, -⟩
  · exact hcovers
  · cases hover with
    | space _ _ _ _ lt => exact absurd lt (by decide +kernel)
    | bracket _ _ _ byte => exact absurd byte (by decide +kernel)

/-- An XML declaration with two blanks between its attributes. -/
def gap : String := "<?xml version=\"1.0\"  standalone=\"yes\" ?>\n<root/>"

/-- Between the two blanks `encoding` is proposed, to be inserted right before `standalone`. -/
theorem attribute_behind_cursor : ¬ ∀ (s : Service) (text uri : String) (position : Position) (offset : Nat)
    (cancel : Cancel), s.HasOwnParticipants → (Document.parse text uri).offsetAt position = .ok offset →
      ∃ list, (s.complete (Document.parse text uri) position cancel).1 = .ok list ∧
        ∀ item ∈ list.items, ∀ edit, item.edit = some edit → edit.range.Covers position := by
  intro h
  obtain ⟨list, hlist, hcovers⟩ := h new gap "file:///a.xml" ⟨0, 20⟩ 20 .never hasOwnParticipants_new
    (by decide +kernel)
  have hranges : (new.complete (Document.parse gap "file:///a.xml") ⟨0, 20⟩ .never).1.toOption.map
      (·.items.map fun item => item.edit.map (·.range)) =
        some [some ⟨⟨0, 21⟩, ⟨0, 21⟩⟩] := by decide +kernel
  rw [hlist] at hranges
  have hitems : list.items.map (fun item => item.edit.map (·.range)) = [some (.point ⟨0, 21⟩)] :=
    Option.some.inj hranges
  have hbehind : some (Range.point ⟨0, 21⟩) ∈ list.items.map fun item => item.edit.map (·.range) := by
    rw [hitems]
    exact List.mem_singleton_self _
  obtain ⟨item, hitem, hrange⟩ := List.mem_map.mp hbehind
  obtain ⟨edit, hedit, hrange⟩ := Option.map_eq_some_iff.mp hrange
  have hcover := hcovers item hitem edit hedit
  rw [hrange] at hcover
  exact absurd hcover (by decide)

end Service

end XmlAssist

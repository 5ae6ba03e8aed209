import XmlAssist.Proofs.Lexer.Extent
import XmlAssist.Proofs.Text.Ranges
import XmlAssist.Service

/-!
# Where the cursor is found

The tokens up to a cursor are read again, and the one with the cursor says what is completed and which
text is replaced. Main statement: that text is at the cursor (`Completion.near_locate`), except that
attributes are inserted at the end of the white space of a tag, and an end tag behind the `>` of a
start tag, also if the cursor is before (`Completion.Overshoot`). Positions are in the order of
offsets, so the range of a text at the cursor covers the position (`Completion.fits_of_near`).
-/

namespace XmlAssist

/-- The position is in the range or at one of its ends. -/
def Range.Covers (range : Range) (p : Position) : Prop := range.start.le p = true ∧ p.le range.stop = true

instance (range : Range) (p : Position) : Decidable (range.Covers p) := inferInstanceAs (Decidable (_ ∧ _))

/-! ## Places around the cursor -/

/-- White space in these modes is that of a tag, between attributes and before values. -/
def Lexer.tagModes : List Lexer.Mode := [.inTag, .afterAttributeName, .inProlog, .beforeAttributeValue]

namespace Completion

/-- The tokens that are read again to find a cursor. -/
def reread (d : Document) (offset : Nat) : List (Token × Lexer) :=
  (Lexer.restart d.text (d.span (d.nodeBefore offset)).start .content).run d.text

/-- Text is inserted at `stop`, behind the cursor: at the end of the white space of a tag that the
cursor is in, or behind the `>` of a start tag that the cursor is right before. -/
inductive Overshoot (d : Document) (offset : Nat) : (stop : Nat) → Prop where
  | space {t x} (mem : (t, x) ∈ reread d offset) (kind : t.kind = .blank) (mode : x.mode ∈ Lexer.tagModes)
      (start : t.start ≤ offset) (lt : offset < Text.skipWhile Lexer.isSpace d.text offset) :
      Overshoot d offset (Text.skipWhile Lexer.isSpace d.text offset)
  | bracket {t x} (mem : (t, x) ∈ reread d offset) (kind : t.kind = .startTagClose) (start : t.start = offset)
      (byte : Text.byte? d.text offset = some 0x3E) : Overshoot d offset (offset + 1)

/-- The cursor is in the text to replace or at one of its ends, or there is no such text and the
place to insert at is behind the cursor. -/
def Near (d : Document) (offset start stop : Nat) : Prop :=
  start ≤ offset ∧ offset ≤ stop ∨ start = stop ∧ Overshoot d offset stop

/-- What is completed is at the cursor. -/
def Spot.Near (d : Document) (offset : Nat) : Spot → Prop
  | .tag start stop | .startTag start stop | .endTag start stop | .prolog start stop =>
    start ≤ offset ∧ offset ≤ stop
  | .attributeName start stop | .attributeValue start stop => Completion.Near d offset start stop
  | .content => True
  | .counterpart stop _ => Completion.Near d offset stop stop

/-- The range covers the cursor, or it is the place behind the cursor at which text is inserted. -/
def Fits (d : Document) (position : Position) (offset : Nat) (range : Range) : Prop :=
  range.Covers position ∨ ∃ stop, Overshoot d offset stop ∧ d.rangeOf ⟨stop, stop⟩ = .ok range

section places
variable {d : Document} {position : Position} {offset start stop : Nat} {range : Range}

theorem Near.of_le (hstart : start ≤ offset) (hstop : offset ≤ stop) : Near d offset start stop :=
  .inl ⟨hstart, hstop⟩

theorem fits_of_near (hlines : d.lines = LineIndex.ofText d.text) (hoffset : d.offsetAt position = .ok offset)
    (hnear : Near d offset start stop) (h : d.rangeOf ⟨start, stop⟩ = .ok range) :
    Fits d position offset range := by
  rcases hnear with ⟨hstart, hstop⟩ | ⟨rfl, hover⟩
  · have hposition : d.positionAt offset = .ok position := by
      unfold Document.offsetAt at hoffset
      unfold Document.positionAt
      rw [hlines] at hoffset ⊢
      exact LineIndex.positionAt_eq_ok_iff.mpr (LineIndex.offsetAt_eq_ok_iff.mp hoffset)
    obtain ⟨hfirst, hlast⟩ := Document.positions_of_rangeOf h
    exact .inl ⟨Document.le_of_positionAt hlines hfirst hposition hstart,
      Document.le_of_positionAt hlines hposition hlast hstop⟩
  · exact .inr ⟨start, hover, h⟩

end places

/-! ## Finding the cursor -/

section finding
variable {d : Document} {r : Request} {t : Token} {x : Lexer} {next : Option Token}

theorem skipWhile_of_lt {p : UInt8 → Bool} {s : String} {i j : Nat} (hij : i ≤ j)
    (hj : j < Text.skipWhile p s i) : Text.skipWhile p s j = Text.skipWhile p s i := by
  fun_induction Text.skipWhile p s i with
  | case1 i hi hp ih =>
    rcases Nat.lt_or_eq_of_le hij with hlt | rfl
    · exact ih hlt hj
    · rw [Text.skipWhile, dif_pos hi, if_pos hp]
  | case2 => omega
  | case3 => omega

theorem le_stopBehind (hnext : ∀ n ∈ next, n.kind ≠ .eos → n.start < n.stop) (kind : Token.Kind)
    (hkind : kind ≠ .eos) (offset : Nat) : offset ≤ stopBehind offset t next kind := by
  unfold stopBehind
  cases next with
  | none => exact Nat.le_refl _
  | some n =>
    dsimp only
    split
    · rename_i h
      have := hnext n rfl (h.2.1 ▸ hkind)
      omega
    · exact Nat.le_refl _

theorem near_space (hmem : (t, x) ∈ reread d r.offset) (hkind : t.kind = .blank)
    (hmode : x.mode ∈ Lexer.tagModes) (hstart : t.start ≤ r.offset) (hstop : r.offset ≤ t.stop) :
    Near d r.offset t.stop t.stop := by
  rcases Nat.lt_or_eq_of_le hstop with hlt | heq
  · have hextent := (Lexer.extent_run _ _ _ hmem).blank hkind
    have hskip : Text.skipWhile Lexer.isSpace d.text r.offset = t.stop := by
      rw [hextent] at hlt ⊢
      exact skipWhile_of_lt hstart hlt
    refine .inr ⟨rfl, ?_⟩
    rw [← hskip] at hlt ⊢
    exact .space hmem hkind hmode hstart hlt
  · exact .of_le (Nat.le_of_eq heq.symm) hstop

theorem near_bracket (hmem : (t, x) ∈ reread d r.offset) (hkind : t.kind = .startTagClose)
    (hstart : t.start ≤ r.offset) (hstop : r.offset ≤ t.stop) : Near d r.offset t.stop t.stop := by
  obtain ⟨hbyte, hextent⟩ := (Lexer.extent_run _ _ _ hmem).close hkind
  dsimp only at hbyte hextent
  rcases Nat.lt_or_eq_of_le hstop with hlt | heq
  · have heq : t.start = r.offset := by omega
    refine .inr ⟨rfl, ?_⟩
    rw [hextent, heq]
    exact .bracket hmem hkind heq (heq ▸ hbyte)
  · exact .of_le (Nat.le_of_eq heq.symm) hstop

theorem near_spotInSpace (hmem : (t, x) ∈ reread d r.offset) (hkind : t.kind = .blank)
    (hnext : ∀ n ∈ next, n.kind ≠ .eos → n.start < n.stop) (hstart : t.start ≤ r.offset)
    (hstop : r.offset ≤ t.stop) {spot : Spot} (h : spotInSpace r.offset t next x.mode = some spot) :
    spot.Near d r.offset := by
  have hspace (hmode : x.mode ∈ Lexer.tagModes) := near_space hmem hkind hmode hstart hstop
  cases hmode : x.mode with
  | afterStartTagOpen =>
    rw [hmode] at h
    obtain rfl := Option.some.inj h
    exact ⟨hstart, le_stopBehind hnext _ (by decide) _⟩
  | inTag | afterAttributeName | inProlog | beforeAttributeValue =>
    rw [hmode] at h hspace
    obtain rfl := Option.some.inj h
    exact hspace (by decide)
  | afterEndTagOpen =>
    rw [hmode] at h
    obtain rfl := Option.some.inj h
    exact ⟨by omega, hstop⟩
  | content =>
    rw [hmode] at h
    obtain rfl := Option.some.inj h
    trivial
  | _ =>
    rw [hmode] at h
    cases h

theorem slashBefore?_le {s : String} {start slash : Nat} (h : slashBefore? s start = some slash) :
    slash ≤ start := by
  simp only [slashBefore?] at h
  split at h
  · obtain rfl := Option.some.inj h
    -- what is left without the white space at its end is a part of the text before
    obtain ⟨blanks, hblanks⟩ := List.dropWhile_suffix (l := (Text.slice s 0 start).toList.reverse) Text.isBlank
    have hsize := Text.size_slice_le s 0 start
    rw [← String.ofList_toList (s := Text.slice s 0 start),
      ← List.reverse_reverse (Text.slice s 0 start).toList, ← hblanks, List.reverse_append,
      String.ofList_append, Text.size_append] at hsize
    omega
  · cases h

theorem found_of_ite {c : Prop} [Decidable c] {found : Option Spot} {other : Finding} {spot : Spot}
    (h : (if c then Finding.found found else other) = .found (some spot)) (hother : ∀ o, other ≠ .found o) :
    c ∧ found = some spot := by
  split at h
  · exact ⟨‹c›, Finding.found.inj h⟩
  · exact absurd h (hother _)

theorem near_examine (hmem : (t, x) ∈ reread d r.offset)
    (hnext : ∀ n ∈ next, n.kind ≠ .eos → n.start < n.stop) (hstart : t.start ≤ r.offset) {spot : Spot}
    (h : examine r t x.mode next = .found (some spot)) : spot.Near d r.offset := by
  have hbehind (kind : Token.Kind) (hkind : kind ≠ .eos) : r.offset ≤ stopBehind r.offset t next kind :=
    le_stopBehind hnext kind hkind r.offset
  simp only [examine, Bool.and_eq_true, decide_eq_true_eq] at h
  cases hkind : t.kind <;> simp only [hkind] at h
  case startTagOpen =>
    obtain ⟨-, hspot⟩ := found_of_ite h (by simp)
    obtain rfl := Option.some.inj hspot
    exact ⟨Nat.le_refl _, hbehind _ (by decide)⟩
  case startTagName =>
    obtain ⟨hstop, hspot⟩ := found_of_ite h (by simp)
    obtain rfl := Option.some.inj hspot
    exact ⟨hstart, hstop⟩
  case attributeName =>
    obtain ⟨hstop, hspot⟩ := found_of_ite h (by simp)
    obtain rfl := Option.some.inj hspot
    exact .of_le hstart hstop
  case assign =>
    obtain ⟨-, hspot⟩ := found_of_ite h (by simp)
    obtain rfl := Option.some.inj hspot
    exact .of_le (Nat.le_refl _) (hbehind _ (by decide))
  case attributeValue =>
    obtain ⟨hstop, hspot⟩ := found_of_ite h (by simp)
    obtain rfl := Option.some.inj hspot
    exact .of_le hstart hstop
  case blank =>
    obtain ⟨hstop, hspot⟩ := found_of_ite h (by simp)
    exact near_spotInSpace hmem hkind hnext hstart hstop hspot
  case startTagClose =>
    split at h
    · obtain ⟨⟨hstop, -⟩, hspot⟩ := found_of_ite h (by simp)
      obtain rfl := Option.some.inj hspot
      exact near_bracket hmem hkind hstart hstop
    · cases h
  case endTagOpen =>
    split at h
    · cases h
    split at h
    · obtain rfl := Option.some.inj (Finding.found.inj h)
      trivial
    · obtain rfl := Option.some.inj (Finding.found.inj h)
      exact ⟨by omega, hbehind _ (by decide)⟩
  case endTagName =>
    split at h
    · rename_i slash hslash
      obtain ⟨hstop, hspot⟩ := found_of_ite h (by simp)
      obtain rfl := Option.some.inj hspot
      exact ⟨Nat.le_trans (slashBefore?_le hslash) hstart, hstop⟩
    · cases h
  case text =>
    obtain ⟨-, hspot⟩ := found_of_ite h (by simp)
    obtain rfl := Option.some.inj hspot
    trivial
  case instructionOpen =>
    obtain ⟨⟨hhere, -⟩, hspot⟩ := found_of_ite h (by simp)
    obtain rfl := Option.some.inj hspot
    exact ⟨Nat.le_of_eq hhere, Nat.le_of_eq hhere.symm⟩
  case prologName | instructionTarget =>
    obtain ⟨⟨-, hstop⟩, hspot⟩ := found_of_ite h (by simp)
    obtain rfl := Option.some.inj hspot
    exact ⟨hstart, hstop⟩
  all_goals cases h

theorem near_locateIn (cancel : Cancel) {ts : List (Token × Lexer)}
    (hts : ∀ t ∈ ts, t ∈ reread d r.offset) :
    (locateIn r cancel ts).2.1.toRequest = r.toRequest ∧
      ∀ spot, (locateIn r cancel ts).1 = some spot → spot.Near d r.offset := by
  induction ts generalizing r cancel with
  | nil => exact ⟨rfl, nofun⟩
  | cons first rest ih =>
    obtain ⟨t, x⟩ := first
    obtain ⟨hmem, hrest⟩ := List.forall_mem_cons.mp hts
    have hnext : ∀ n ∈ rest.head?.map (·.1), n.kind ≠ .eos → n.start < n.stop := by
      intro n hn
      obtain ⟨next, hnext, rfl⟩ := Option.mem_map.mp hn
      exact (Lexer.extent_run _ _ _ (hrest next (List.mem_of_mem_head? hnext))).lt
    rw [locateIn]
    split
    · refine ⟨rfl, fun spot h => ?_⟩
      dsimp only at h
      split at h
      · cases h
        trivial
      · cases h
    split
    · exact ⟨rfl, nofun⟩
    rename_i hstart
    dsimp only
    split
    · exact ⟨rfl, nofun⟩
    split
    · rename_i spot hspot
      refine ⟨rfl, fun found h => ?_⟩
      obtain rfl : spot = some found := h
      exact near_examine hmem hnext (Nat.le_of_not_lt hstart) hspot
    · exact ih (r := { r with lastTag := _ }) _ hrest
    · exact ih (r := { r with lastAttribute := _ }) _ hrest
    · exact ih _ hrest

theorem near_locate (cancel : Cancel) (hdocument : r.document = d) (hnode : r.node = d.nodeBefore r.offset) :
    (locate r cancel).2.1.toRequest = r.toRequest ∧
      ∀ spot, (locate r cancel).1 = some spot → spot.Near d r.offset := by
  unfold locate
  dsimp only
  split
  · exact ⟨rfl, nofun⟩
  · refine near_locateIn cancel fun t ht => ?_
    rw [reread]
    rwa [hdocument, hnode] at ht

end finding

end Completion

end XmlAssist

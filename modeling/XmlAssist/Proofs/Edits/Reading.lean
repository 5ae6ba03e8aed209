import XmlAssist.Proofs.Lexer.TagOpen
import XmlAssist.Proofs.Lexer.TagPrefix
import XmlAssist.Proofs.Text.Splice
import XmlAssist.Proofs.Tree.Along

/-!
# Reading an edited text

What is read before and behind a change of a text. Up to a `<` that stands in both texts all is the
same (`Leads.upTo`), and so is all behind a change, but for the place (`Leads.sameTokens`). Read
backwards, the name of a tag stands behind its bracket with nothing but white space between them
(`Leads.before_name`), and all that is read in a start tag follows a `<` (`Leads.before_inTag`).
-/

namespace XmlAssist

open Text (SameTo Stretch shift byte? size isBoundary rest bytesOf)

namespace Text

variable {s s' : String} {i j i' j' k n : Nat}

theorem byte?_eq_getElem? (s : String) (i : Nat) : byte? s i = (bytesOf s)[i]? := by
  rw [byte?_eq_head?, rest, List.head?_drop]

theorem bytesOf_slice (hi : isBoundary s i = true) (hj : isBoundary s j = true) (h : i ≤ j) :
    bytesOf (slice s i j) = (rest s i).take (j - i) := by
  obtain ⟨hstands, hsize⟩ := stands_slice hi hj h
  obtain ⟨r, hr⟩ := hstands.rest
  rw [hr, List.take_left' (by rw [length_bytesOf]; omega)]

theorem of_mem_slice {p : UInt8 → Bool} {b : UInt8} (hi : isBoundary s i = true) (hj : isBoundary s j = true)
    (h : i ≤ j) (hle : j ≤ skipWhile p s i) (hb : b ∈ bytesOf (slice s i j)) : p b = true := by
  rw [bytesOf_slice hi hj h] at hb
  obtain ⟨k, hget⟩ := List.mem_iff_getElem?.mp hb
  rw [List.getElem?_take] at hget
  split at hget
  · rw [rest, List.getElem?_drop, ← byte?_eq_getElem?] at hget
    exact byte_of_lt_skipWhile (Nat.le_add_right i k) (by omega) hget
  · cases hget

theorem slice_congr (hi : isBoundary s i = true) (hj : isBoundary s j = true)
    (hi' : isBoundary s' i' = true) (hj' : isBoundary s' j' = true) (h : i ≤ j) (hlen : j' = i' + (j - i))
    (hbytes : ∀ k < j - i, byte? s' (i' + k) = byte? s (i + k)) : slice s' i' j' = slice s i j := by
  refine eq_of_bytesOf_eq ?_
  rw [bytesOf_slice hi hj h, bytesOf_slice hi' hj' (by omega)]
  refine List.ext_getElem? fun k => ?_
  rw [List.getElem?_take, List.getElem?_take, hlen, Nat.add_sub_cancel_left]
  split
  · rename_i hk
    rw [rest, rest, List.getElem?_drop, List.getElem?_drop, ← byte?_eq_getElem?, ← byte?_eq_getElem?,
      hbytes k hk]
  · rfl

theorem sameTo_append (u v v' : String) : SameTo (u ++ v) (u ++ v') (size u) := by
  refine ⟨fun {j} hj => ?_, ?_, ?_⟩
  · have hbytes (w : String) : byte? (u ++ w) j = (bytesOf u)[j]? := by
      rw [byte?_eq_getElem?, bytesOf_append, List.getElem?_append_left (by rwa [length_bytesOf])]
    rw [hbytes, hbytes]
  all_goals rw [size_append]; omega

/-- Up to a bracket or the end in both texts. -/
theorem SameTo.stretch (h : SameTo s s' k) (hb : ∀ b ∈ byte? s k, b = 0x3C) (hb' : ∀ b ∈ byte? s' k, b = 0x3C) :
    Stretch s 0 s' 0 k := by
  have hat {t : String} (ht : ∀ b ∈ byte? t k, b = 0x3C) : AtBracket ((bytesOf t).drop k) := by
    intro b hmem
    rw [List.head?_drop, ← byte?_eq_getElem?] at hmem
    exact ht b hmem
  have htake : (bytesOf s').take k = (bytesOf s).take k := by
    refine List.ext_getElem? fun j => ?_
    rw [List.getElem?_take, List.getElem?_take]
    split
    · rename_i hj
      rw [← byte?_eq_getElem?, ← byte?_eq_getElem?, h.byte hj]
    · rfl
  refine ⟨(bytesOf s).take k, (bytesOf s).drop k, (bytesOf s').drop k, ?_, ?_, ?_, hat hb, hat hb'⟩
  · rw [List.take_append_drop]
    rfl
  · rw [← htake, List.take_append_drop]
    rfl
  · rw [List.length_take, length_bytesOf]
    exact Nat.min_eq_left h.le

end Text

namespace Lexer

variable {s s' : String} {x y z : Lexer} {l : List (Token × Lexer)} {i i' n k : Nat}

theorem shiftRead_zero (p : Token × Lexer) : shiftRead 0 0 p = p := by
  obtain ⟨⟨kind, start, stop, fault⟩, x⟩ := p
  simp [shiftRead, Token.shift, shift, goTo]

theorem stopsIn_bracket (h : byte? s (i + n) = some 0x3C) (h' : byte? s' (i' + n) = some 0x3C) :
    StopsIn s i s' i' n (i + n) := by
  refine ⟨Nat.le_refl _, .inr ⟨fun hsize => ?_, fun hsize => ?_⟩⟩
  · exact absurd (Text.lt_size_of_byte? h) (by omega)
  · exact absurd (Text.lt_size_of_byte? h') (by omega)

/-- What is read up to a bracket is read in every text that is the same up to a bracket there. -/
theorem Leads.upTo (h : Leads s .document l y) (hsame : SameTo s s' y.pos)
    (hb : byte? s y.pos = some 0x3C) (hb' : byte? s' y.pos = some 0x3C) : Leads s' .document l y := by
  have hstop : StopsIn s 0 s' 0 y.pos y.pos := by
    have hbracket : StopsIn s 0 s' 0 y.pos (0 + y.pos) :=
      stopsIn_bracket (by simpa using hb) (by simpa using hb')
    rwa [Nat.zero_add] at hbracket
  have hread := h.stretch (hsame.stretch (by simp [hb]) (by simp [hb'])) (Text.isBoundary_zero s) (Nat.zero_le _)
    hstop (.inl rfl) (by rintro ⟨⟩)
  simp only [shift, Nat.sub_zero, Nat.zero_add, goTo_self] at hread
  rwa [(List.map_congr_left fun p _ => shiftRead_zero p).trans (List.map_id' l)] at hread

theorem Leads.boundaries (h : Leads s x l y) (hx : isBoundary s x.pos = true) {p : Token × Lexer}
    (hp : p ∈ l) : isBoundary s p.1.start = true ∧ isBoundary s p.1.stop = true := by
  induction h with
  | here => cases hp
  | @next x y l hlt hrest ih =>
    have hnext := boundary_step hx hlt
    rcases List.mem_cons.mp hp with rfl | hp
    · rw [start_step hx hlt, stop_step hx hlt]
      exact ⟨hx, hnext⟩
    · exact ih hnext hp

/-- The tokens of a stretch are the same at its other place. -/
theorem Leads.sameTokens (h : Leads s x l y) (m : Stretch s i s' i' n) (hx : isBoundary s x.pos = true)
    (hx' : isBoundary s' (shift i i' x.pos) = true) (hle : i ≤ x.pos) (hstop : y.pos ≤ i + n)
    (h' : Leads s' (x.goTo (shift i i' x.pos)) (l.map (shiftRead i i')) (y.goTo (shift i i' y.pos))) :
    List.Forall₂ (SameToken s s') l (l.map (shiftRead i i')) := by
  rw [List.forall₂_map_right_iff, List.forall₂_same]
  intro p hp
  have hbounds := h.bounds hx hp
  have hat := h.boundaries hx hp
  have hat' := h'.boundaries hx' (List.mem_map_of_mem hp)
  refine ⟨rfl, ?_, rfl⟩
  refine Text.slice_congr hat.1 hat.2 hat'.1 hat'.2 (by omega) ?_ fun k hk => ?_
  · simp only [shiftRead, Token.shift, shift]
    omega
  · have hbyte := m.byte?_of_lt (k := p.1.start - i + k) (by omega)
    rw [show i + (p.1.start - i + k) = p.1.start + k by omega] at hbyte
    rw [← hbyte]
    simp only [shiftRead, Token.shift, shift]
    congr 1
    omega

theorem Leads.sameTokens_upTo (h : Leads s x l y) (h' : Leads s' x l y) (hsame : SameTo s s' k)
    (hx : isBoundary s x.pos = true) (hx' : isBoundary s' x.pos = true) (hk : y.pos ≤ k) :
    List.Forall₂ (SameToken s s') l l := by
  rw [List.forall₂_same]
  intro p hp
  have hbounds := h.bounds hx hp
  have hat := h.boundaries hx hp
  have hat' := h'.boundaries hx' hp
  refine ⟨rfl, Text.slice_congr hat.1 hat.2 hat'.1 hat'.2 (by omega) (by omega) fun j hj => ?_, rfl⟩
  exact hsame.byte (by omega)

/-- **Behind a change** the same tokens are read up to the end of the text. -/
theorem Leads.behind_change (h : Leads s x l y) (hx : isBoundary s x.pos = true) (hpos : x.pos = i)
    (hy : y.pos = size s) (hrest : rest s i = rest s' i') (hbase : i = i' ∨ (2 ≤ i ∧ 2 ≤ i'))
    (hi' : i' ≤ size s') (hmode : x.mode ≠ .afterInstructionOpen) :
    ∃ l' y', Leads s' (x.goTo i') l' y' ∧ y'.pos = size s' ∧ List.Forall₂ (SameToken s s') l l' ∧
      l' = l.map (shiftRead i i') := by
  have hi : i ≤ size s := hpos ▸ Text.le_size_of_isBoundary hx
  have hlen : (rest s i).length = size s - i := by rw [rest, List.length_drop, Text.length_bytesOf]
  have hlen' : (rest s i).length = size s' - i' := by
    rw [hrest, rest, List.length_drop, Text.length_bytesOf]
  have m := Text.stretch_of_rest_eq hrest
  have hstop : StopsIn s i s' i' (rest s i).length y.pos := ⟨by omega, .inr (by omega)⟩
  have hx' : isBoundary s' (shift i i' x.pos) = true := by
    have hsame := m.isBoundary_iff (k := 0) (by omega) (by omega) (Nat.zero_le _)
    rw [hpos, Text.shift_self]
    exact hsame.trans (hpos ▸ hx)
  have h' := h.stretch m hx (Nat.le_of_eq hpos.symm) hstop hbase fun hm => absurd hm hmode
  have hsame := h.sameTokens m hx hx' (Nat.le_of_eq hpos.symm) (by omega) h'
  rw [show shift i i' x.pos = i' by rw [hpos, Text.shift_self]] at h'
  exact ⟨_, _, h', by simp only [goTo_pos, shift]; omega, hsame, rfl⟩

/-! ## Read backwards -/

theorem Leads.of_concat {p : Token × Lexer} (h : Leads s x (l ++ [p]) y) :
    ∃ z, Leads s x l z ∧ z.pos < size s ∧ z.step s = p ∧ y = p.2 := by
  obtain ⟨z, hz, hlast⟩ := h.of_append
  cases hlast with
  | next hlt hrest =>
    cases hrest
    exact ⟨z, hz, hlt, rfl, rfl⟩

theorem Leads.consistent (h : Leads s x l y) (hc : x.Consistent) (hx : isBoundary s x.pos = true) :
    y.Consistent := by
  induction h with
  | here => exact hc
  | next hlt _ ih => exact ih (hc.step hx hlt) (boundary_step hx hlt)

theorem Reads.mode_of_startTagName {pos : Nat} {spaced : Bool} (h : Reads x pos spaced .startTagName y) :
    x.mode = .afterStartTagOpen := by
  cases h with
  | startTagName hmode => exact hmode
  | content _ h => simp [StartsContent, contentOpeners] at h
  | declaration _ h => simp [StartsDeclaration, dtdOpeners] at h

theorem Reads.mode_of_endTagName {pos : Nat} {spaced : Bool} (h : Reads x pos spaced .endTagName y) :
    x.mode = .afterEndTagOpen := by
  cases h with
  | endTagName hmode => exact hmode
  | content _ h => simp [StartsContent, contentOpeners] at h
  | declaration _ h => simp [StartsDeclaration, dtdOpeners] at h

theorem Falls.ne_afterOpen {spaced : Bool} (h : Falls x spaced y) :
    y.mode ≠ .afterStartTagOpen ∧ y.mode ≠ .afterEndTagOpen := by
  cases h with
  | backInTag =>
    rw [moved_mode, tagMode]
    split <;> simp
  | _ => simp [moved]

theorem Reads.afterEndTagOpen {pos : Nat} {spaced : Bool} {kind : Token.Kind}
    (h : Reads x pos spaced kind y) (hmode : y.mode = .afterEndTagOpen) :
    kind = .endTagOpen ∨ (kind = .blank ∧ x.mode = .afterEndTagOpen) := by
  cases h with
  | blank => exact .inr ⟨rfl, hmode⟩
  | unknown hx =>
    rw [moved_mode] at hmode
    rw [hmode] at hx
    simp at hx
  | content _ hk =>
    rw [moved_mode] at hmode
    subst hmode
    rcases hk with ⟨-, hk⟩ | hk
    · cases hk
    · exact .inl (by simpa [contentOpeners] using hk)
  | declaration _ hk =>
    rw [moved_mode] at hmode
    subst hmode
    rcases hk with ⟨-, hk⟩ | hk
    · cases hk
    · simp [dtdOpeners] at hk
  | attributeValue =>
    rw [moved_mode, tagMode] at hmode
    split at hmode <;> cases hmode
  | commentClose | cdataClose | prologClose | instructionClose =>
    rw [moved_mode, contentMode] at hmode
    split at hmode <;> cases hmode
  | _ => cases hmode

theorem mode_of_name (hc : x.Consistent) (hx : isBoundary s x.pos = true) (hlt : x.pos < size s) :
    ((x.step s).1.kind = .startTagName → x.mode = .afterStartTagOpen) ∧
      ((x.step s).1.kind = .endTagName → x.mode = .afterEndTagOpen) := by
  obtain ⟨z, spaced, hz, hreads⟩ := lex_turns hc hlt
  rw [step_eq_lex hx hlt]
  refine ⟨fun hkind => ?_, fun hkind => ?_⟩
  · have hreads : Reads z _ _ (lex s x).kind _ := hreads
    rw [show (lex s x).kind = .startTagName from hkind] at hreads
    have hmode := hreads.mode_of_startTagName
    rcases hz with rfl | hf
    · exact hmode
    · exact absurd hmode hf.ne_afterOpen.1
  · have hreads : Reads z _ _ (lex s x).kind _ := hreads
    rw [show (lex s x).kind = .endTagName from hkind] at hreads
    have hmode := hreads.mode_of_endTagName
    rcases hz with rfl | hf
    · exact hmode
    · exact absurd hmode hf.ne_afterOpen.2

theorem step_of_afterOpen (hc : x.Consistent) (hx : isBoundary s x.pos = true) (hlt : x.pos < size s) :
    ((x.step s).2.mode = .afterStartTagOpen →
      (x.step s).1.kind = .startTagOpen ∨ ((x.step s).1.kind = .blank ∧ x.mode = .afterStartTagOpen)) ∧
    ((x.step s).2.mode = .afterEndTagOpen →
      (x.step s).1.kind = .endTagOpen ∨ ((x.step s).1.kind = .blank ∧ x.mode = .afterEndTagOpen)) := by
  obtain ⟨z, spaced, hz, hreads⟩ := lex_turns hc hlt
  rw [step_eq_lex hx hlt]
  refine ⟨fun hmode => ?_, fun hmode => ?_⟩
  · refine (Reads.afterStartTagOpen hreads hmode).imp_right fun ⟨hkind, hbefore⟩ => ?_
    rcases hz with rfl | hf
    · exact ⟨hkind, hbefore⟩
    · exact absurd hbefore hf.ne_afterOpen.1
  · refine (Reads.afterEndTagOpen hreads hmode).imp_right fun ⟨hkind, hbefore⟩ => ?_
    rcases hz with rfl | hf
    · exact ⟨hkind, hbefore⟩
    · exact absurd hbefore hf.ne_afterOpen.2

/-- Between the bracket of a tag and its name there is nothing but white space. -/
theorem Leads.before_name (h : Leads s x l y) (hc : x.Consistent) (hx : isBoundary s x.pos = true)
    {mode : Mode} {kind : Token.Kind} (hkinds : (mode = .afterStartTagOpen ∧ kind = .startTagOpen) ∨
      (mode = .afterEndTagOpen ∧ kind = .endTagOpen)) (hmode : x.mode ≠ mode) (hy : y.mode = mode) :
    ∃ l₀ z m, l = l₀ ++ z.step s :: m ∧ Leads s x l₀ z ∧ z.pos < size s ∧
      (z.step s).1.kind = kind ∧ (z.step s).2.mode = mode ∧ Leads s (z.step s).2 m y ∧
      ∀ p ∈ m, p.1.kind = .blank ∧ p.2.mode = mode := by
  induction l using List.reverseRecOn generalizing y with
  | nil =>
    cases h
    exact absurd hy hmode
  | append_singleton l p ih =>
    obtain ⟨z, hz, hlt, rfl, rfl⟩ := h.of_concat
    have hstep := step_of_afterOpen (hz.consistent hc hx) (hz.boundary hx) hlt
    have hlast : (z.step s).1.kind = kind ∨ ((z.step s).1.kind = .blank ∧ z.mode = mode) := by
      rcases hkinds with ⟨rfl, rfl⟩ | ⟨rfl, rfl⟩
      · exact hstep.1 hy
      · exact hstep.2 hy
    rcases hlast with hkind | ⟨hblank, hz'⟩
    · exact ⟨l, z, [], rfl, hz, hlt, hkind, hy, .here _, List.forall_mem_nil _⟩
    · obtain ⟨l₀, w, m, rfl, hw, hwlt, hkind, hmode, hm, hall⟩ := ih hz hz'
      have hlist : l₀ ++ w.step s :: m ++ [z.step s] = l₀ ++ w.step s :: (m ++ [z.step s]) := by
        rw [List.append_assoc, List.cons_append]
      refine ⟨l₀, w, m ++ [z.step s], hlist, hw, hwlt, hkind, hmode, hm.append (Leads.one hlt),
        fun p hp => ?_⟩
      rcases List.mem_append.mp hp with hp | hp
      · exact hall p hp
      · rw [List.mem_singleton.mp hp]
        exact ⟨hblank, hy⟩

/-- What is read in a start tag stands behind a `<`. -/
theorem Leads.before_inTag (h : Leads s x l y) (hc : x.Consistent) (hx : isBoundary s x.pos = true)
    (hmode : x.inStartTag = false) (hy : y.inStartTag = true) :
    ∃ l₀ z m, l = l₀ ++ z.step s :: m ∧ Leads s x l₀ z ∧ z.pos < size s ∧
      (z.step s).1.kind = .startTagOpen ∧ Leads s (z.step s).2 m y ∧ (z.step s).2.inStartTag = true ∧
      StaysInTag m ∧ ∀ p ∈ m, p.1.kind.inStartTag = true := by
  induction l using List.reverseRecOn generalizing y with
  | nil =>
    cases h
    rw [hmode] at hy
    cases hy
  | append_singleton l p ih =>
    obtain ⟨z, hz, hlt, rfl, rfl⟩ := h.of_concat
    obtain ⟨w, hw, hin, hreads⟩ := exists_reads (hz.consistent hc hx) (hz.boundary hx) hlt
    by_cases hopen : (z.step s).1.kind = .startTagOpen
    · exact ⟨l, z, [], rfl, hz, hlt, hopen, .here _, hy, List.forall_mem_nil _, List.forall_mem_nil _⟩
    · have hbefore : z.inStartTag = true ∧ (z.step s).1.kind.inStartTag = true := by
        by_cases hname : (z.step s).1.kind = .startTagName
        · have hm := (mode_of_name (hz.consistent hc hx) (hz.boundary hx) hlt).1 hname
          rw [hname]
          exact ⟨by rw [inStartTag, hm], rfl⟩
        · rw [hreads.inStartTag_eq hw hopen hname, Bool.and_eq_true, hin] at hy
          refine ⟨hy.1, ?_⟩
          have hstays := hy.2
          generalize (z.step s).1.kind = kind at hstays
          cases kind <;> first | rfl | cases hstays
      obtain ⟨l₀, o, m, rfl, ho, holt, hkind, hm, hin₀, hstays, hkinds⟩ := ih hz hbefore.1
      have hlist : l₀ ++ o.step s :: m ++ [z.step s] = l₀ ++ o.step s :: (m ++ [z.step s]) := by
        rw [List.append_assoc, List.cons_append]
      refine ⟨l₀, o, m ++ [z.step s], hlist, ho, holt, hkind, hm.append (Leads.one hlt), hin₀, ?_, ?_⟩
      · intro p hp
        rcases List.mem_append.mp hp with hp | hp
        · exact hstays p hp
        · rw [List.mem_singleton.mp hp]
          exact hy
      · intro p hp
        rcases List.mem_append.mp hp with hp | hp
        · exact hkinds p hp
        · rw [List.mem_singleton.mp hp]
          exact hbefore.2

end Lexer

end XmlAssist

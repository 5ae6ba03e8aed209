import XmlAssist.Proofs.Text.Boundary

/-!
# Pieces of a text

A text that is put together from pieces has each of them at the offset where those before it end.
What the lexer sees there is read off the bytes of the piece: `rest s i` are the bytes from an
offset on, and the ways of `Text.Bytes` to move an offset are functions of them.
-/

namespace XmlAssist.Text

/-- The bytes of `s` from offset `i` on. -/
def rest (s : String) (i : Nat) : List UInt8 := (bytesOf s).drop i

variable {s p q lit : String} {i j : Nat} {r l : List UInt8} {b : UInt8} {f : UInt8 → Bool}

/-! ## The bytes from an offset on -/

theorem bytesOf_append (p q : String) : bytesOf (p ++ q) = bytesOf p ++ bytesOf q := by
  simp [bytesOf]

theorem size_append (p q : String) : size (p ++ q) = size p + size q := String.utf8ByteSize_append

theorem eq_of_bytesOf_eq (h : bytesOf p = bytesOf q) : p = q := by
  apply String.toByteArray_inj.mp
  apply ByteArray.ext
  exact Array.toList_inj.mp h

theorem size_pos (h : p ≠ "") : 0 < size p := by
  refine Nat.pos_of_ne_zero fun h0 => h ?_
  exact String.utf8ByteSize_eq_zero_iff.mp h0

theorem byte?_eq_head? (s : String) (i : Nat) : byte? s i = (rest s i).head? := by
  unfold byte? rest
  rw [List.head?_drop]
  split
  · rename_i h
    have hi : i < (bytesOf s).length := by rwa [length_bytesOf]
    rw [List.getElem?_eq_getElem hi]
    rfl
  · rename_i h
    rw [List.getElem?_eq_none (by rw [length_bytesOf]; exact Nat.le_of_not_lt h)]

theorem byte?_of_rest (h : rest s i = b :: r) : byte? s i = some b := by
  rw [byte?_eq_head?, h]
  rfl

theorem rest_add (h : rest s i = l ++ r) : rest s (i + l.length) = r := by
  unfold rest at h ⊢
  rw [← List.drop_drop, h, List.drop_left]

theorem rest_succ (h : rest s i = b :: r) : rest s (i + 1) = r := rest_add (l := [b]) h

theorem rest_of_lt (h : i < s.utf8ByteSize) : rest s i = s.getUTF8Byte ⟨i⟩ h :: rest s (i + 1) := by
  have hb := byte?_of_lt h
  rw [byte?_eq_head?, List.head?_eq_some_iff] at hb
  obtain ⟨r, hr⟩ := hb
  rw [hr, rest_succ hr]

theorem rest_eq_nil (h : size s ≤ i) : rest s i = [] := by
  rw [rest, List.drop_eq_nil_iff, length_bytesOf]
  exact h

theorem lt_size_of_rest (h : rest s i = b :: r) : i < size s := lt_size_of_byte? (byte?_of_rest h)

theorem skipWhile_eq (f : UInt8 → Bool) (s : String) (i : Nat) :
    skipWhile f s i = i + ((rest s i).takeWhile f).length := by
  fun_induction skipWhile f s i with
  | case1 i hi hf ih =>
    rw [rest_of_lt hi, List.takeWhile_cons_of_pos hf, ih, List.length_cons]
    omega
  | case2 i hi hf =>
    rw [rest_of_lt hi, List.takeWhile_cons_of_neg (by simpa using hf)]
    rfl
  | case3 i hi =>
    rw [rest_eq_nil (Nat.le_of_not_lt hi)]
    rfl

theorem skipWhile_of_rest (h : rest s i = l ++ r) (hl : ∀ b ∈ l, f b = true)
    (hr : ∀ b ∈ r.head?, f b = false) : skipWhile f s i = i + l.length := by
  have hstop : r.takeWhile f = [] := by
    cases r with
    | nil => rfl
    | cons b r => exact List.takeWhile_cons_of_neg (by simp [hr b rfl])
  rw [skipWhile_eq, h, List.takeWhile_append_of_pos hl, hstop, List.append_nil]

theorem startsAt_eq (s : String) (i : Nat) (l : List UInt8) :
    startsAt s i l = l.isPrefixOf (rest s i) := by
  induction l generalizing i with
  | nil => simp [startsAt]
  | cons b l ih =>
    rw [startsAt, ih, byte?_eq_head?]
    cases h : rest s i with
    | nil => simp
    | cons c r =>
      rw [rest_succ h, List.head?_cons, List.isPrefixOf]
      rw [Option.some_beq_some, BEq.comm]

/-! ## The next place of a literal -/

/-- The last byte of a literal stands nowhere else in it. -/
def EndsOnce (l : List UInt8) : Prop := ∃ z init, l = init ++ [z] ∧ z ∉ init

/-- A literal whose last byte is nowhere else in it cannot start inside a text without it and end in
a copy of it that follows. -/
theorem not_prefix_of_endsOnce {text : List UInt8} (hl : EndsOnce l) (hfree : ¬ l <:+: text)
    (hne : text ≠ []) : ¬ l <+: text ++ l ++ r := by
  obtain ⟨z, init, rfl, hz⟩ := hl
  intro h
  by_cases hle : (init ++ [z]).length ≤ text.length
  · rw [List.append_assoc] at h
    exact hfree (List.prefix_of_prefix_length_le h (List.prefix_append ..) hle).isInfix
  · -- the last byte of the copy that starts in `text` is one of the other copy before its last
    have hlen : text.length ≤ init.length := by
      simp only [List.length_append, List.length_singleton] at hle
      omega
    have hlt : init.length - text.length < init.length := by
      have := List.length_pos_iff.mpr hne
      omega
    have hlast : (text ++ (init ++ [z]) ++ r)[init.length]? = some z := by
      obtain ⟨t, ht⟩ := h
      rw [← ht]
      simp
    rw [List.append_assoc, List.getElem?_append_right hlen, List.append_assoc,
      List.getElem?_append_left hlt] at hlast
    exact hz (List.mem_of_getElem? hlast)

theorem find?_of_rest {text : List UInt8} (h : rest s i = text ++ l ++ r) (hl : EndsOnce l)
    (hfree : ¬ l <:+: text) : find? l s i = some (i + text.length) := by
  induction text generalizing i with
  | nil =>
    rw [find?, if_pos]
    · rfl
    · rw [startsAt_eq, h, List.nil_append, List.isPrefixOf_iff_prefix]
      exact List.prefix_append ..
  | cons c text ih =>
    have hnot : ¬ startsAt s i l = true := by
      rw [startsAt_eq, h, List.isPrefixOf_iff_prefix]
      exact not_prefix_of_endsOnce hl hfree (by simp)
    rw [find?, if_neg hnot, if_pos (lt_size_of_rest h),
      ih (rest_succ h) fun hinfix => hfree (List.infix_cons hinfix), List.length_cons]
    congr 1
    omega

/-! ## Pieces -/

/-- The text `p` stands at offset `i` of `s`. -/
def Stands (s : String) (i : Nat) (p : String) : Prop :=
  ∃ before behind, s = before ++ p ++ behind ∧ size before = i

theorem stands_self (s : String) : Stands s 0 s := ⟨"", "", by simp, rfl⟩

theorem Stands.left (h : Stands s i (p ++ q)) : Stands s i p := by
  obtain ⟨before, behind, rfl, rfl⟩ := h
  exact ⟨before, q ++ behind, by simp only [String.append_assoc], rfl⟩

theorem Stands.right (h : Stands s i (p ++ q)) : Stands s (i + size p) q := by
  obtain ⟨before, behind, rfl, rfl⟩ := h
  exact ⟨before ++ p, behind, by simp only [String.append_assoc], size_append before p⟩

theorem Stands.isBoundary (h : Stands s i p) : isBoundary s i = true := by
  obtain ⟨before, behind, rfl, rfl⟩ := h
  rw [Text.isBoundary, String.Pos.Raw.isValid_eq_true_iff, String.append_assoc,
    String.Pos.Raw.isValid_iff_exists_append]
  exact ⟨before, p ++ behind, rfl, rfl⟩

theorem Stands.isBoundary_stop (h : Stands s i p) : Text.isBoundary s (i + size p) = true := by
  refine Stands.isBoundary (p := "") (Stands.right (p := p) ?_)
  rwa [String.append_empty]

theorem Stands.rest (h : Stands s i p) : ∃ r, rest s i = bytesOf p ++ r := by
  obtain ⟨before, behind, rfl, rfl⟩ := h
  refine ⟨bytesOf behind, ?_⟩
  rw [Text.rest, bytesOf_append, bytesOf_append, List.append_assoc, ← length_bytesOf, List.drop_left]

theorem Stands.rest_append (h : Stands s i (p ++ q)) :
    ∃ r, Text.rest s i = bytesOf p ++ (bytesOf q ++ r) := by
  obtain ⟨r, hr⟩ := h.rest
  exact ⟨r, by rw [hr, bytesOf_append, List.append_assoc]⟩

theorem pos?_of_isBoundary (h : isBoundary s i = true) : ∃ p, s.pos? ⟨i⟩ = some p ∧ p.offset = ⟨i⟩ := by
  rw [isBoundary, String.Pos.Raw.isValid_eq_true_iff] at h
  have hslice : String.Pos.Raw.isValidForSlice s.toSlice ⟨i⟩ = true :=
    String.Pos.Raw.isValidForSlice_eq_true_iff.mpr h.toSlice
  refine ⟨s.pos ⟨i⟩ h, ?_, rfl⟩
  rw [String.pos?, String.Slice.pos?, dif_pos hslice]
  rfl

theorem Stands.slice (h : Stands s i p) : slice s i (i + size p) = p := by
  obtain ⟨start, hstart, hi⟩ := pos?_of_isBoundary h.isBoundary
  obtain ⟨stop, hstop, hj⟩ := pos?_of_isBoundary h.isBoundary_stop
  rw [Text.slice, slice?, hstart, hstop]
  show (if i ≤ i + size p then some (s.extract start stop) else none).getD "" = p
  rw [if_pos (Nat.le_add_right ..), Option.getD_some]
  apply String.toByteArray_inj.mp
  rw [String.toByteArray_extract, hi, hj]
  obtain ⟨before, behind, rfl, rfl⟩ := h
  rw [String.append_assoc, String.toByteArray_append, String.toByteArray_append]
  show (before.toByteArray ++ _).extract (before.utf8ByteSize + 0) (before.utf8ByteSize + size p) = _
  rw [← String.size_toByteArray, ByteArray.extract_append_size_add,
    ByteArray.extract_append_eq_left String.size_toByteArray.symm]

theorem offset_of_pos? {q : s.Pos} (h : s.pos? ⟨j⟩ = some q) : q.offset.byteIdx = j := by
  rw [String.pos?, String.Slice.pos?] at h
  split at h
  · obtain rfl := Option.some.inj h
    rfl
  · cases h

theorem size_slice_le (s : String) (i j : Nat) : size (Text.slice s i j) ≤ j := by
  unfold Text.slice slice?
  split
  · rename_i p q hp hq
    split
    · rw [Option.getD_some, size, ← String.size_toByteArray, String.toByteArray_extract,
        ByteArray.size_extract, offset_of_pos? hq]
      omega
    · exact Nat.zero_le _
  · exact Nat.zero_le _

theorem exists_append_of_isBoundary (h : isBoundary s i = true) :
    ∃ before behind, s = before ++ behind ∧ size before = i := by
  rw [isBoundary, String.Pos.Raw.isValid_eq_true_iff, String.Pos.Raw.isValid_iff_exists_append] at h
  obtain ⟨before, behind, rfl, hi⟩ := h
  exact ⟨before, behind, rfl, (congrArg String.Pos.Raw.byteIdx hi).symm⟩

theorem exists_stands (hi : isBoundary s i = true) (hj : isBoundary s j = true) (h : i ≤ j) :
    ∃ p, Stands s i p ∧ i + size p = j := by
  obtain ⟨before, behind, hs, rfl⟩ := exists_append_of_isBoundary hi
  obtain ⟨before', behind', hs', rfl⟩ := exists_append_of_isBoundary hj
  have hlists : before.toList ++ behind.toList = before'.toList ++ behind'.toList := by
    rw [← String.toList_append, ← String.toList_append, ← hs, ← hs']
  rcases List.append_eq_append_iff.mp hlists with ⟨mid, hmid, -⟩ | ⟨mid, hmid, -⟩
  · have hbefore : before' = before ++ String.ofList mid := by
      rw [← String.toList_inj, String.toList_append, String.toList_ofList, hmid]
    refine ⟨String.ofList mid, ⟨before, behind', ?_, rfl⟩, ?_⟩
    · rw [hs', hbefore]
    · rw [hbefore, size_append]
  · have hbefore : before = before' ++ String.ofList mid := by
      rw [← String.toList_inj, String.toList_append, String.toList_ofList, hmid]
    have hsize := congrArg size hbefore
    rw [size_append] at hsize
    refine ⟨"", ⟨before, behind, by rw [hs, String.append_empty], rfl⟩, ?_⟩
    rw [show size "" = 0 from rfl]
    omega

theorem stands_slice (hi : isBoundary s i = true) (hj : isBoundary s j = true) (h : i ≤ j) :
    Stands s i (slice s i j) ∧ i + size (slice s i j) = j := by
  obtain ⟨p, hp, rfl⟩ := exists_stands hi hj h
  rw [hp.slice]
  exact ⟨hp, rfl⟩

theorem Stands.append (hp : Stands s i p) (hq : Stands s (i + size p) q) : Stands s i (p ++ q) := by
  obtain ⟨before, behind, hs, rfl⟩ := hp
  obtain ⟨before', behind', hs', hsize⟩ := hq
  have hbytes : bytesOf (before ++ p) ++ bytesOf behind = bytesOf before' ++ bytesOf (q ++ behind') := by
    rw [← bytesOf_append, ← bytesOf_append, ← String.append_assoc, ← hs, ← hs']
  have hlength : (bytesOf (before ++ p)).length = (bytesOf before').length := by
    rw [length_bytesOf, length_bytesOf, size_append, hsize]
  have hbefore : before ++ p = before' := eq_of_bytesOf_eq (List.append_inj_left hbytes hlength)
  exact ⟨before, behind', by rw [hs', ← hbefore]; simp only [String.append_assoc], rfl⟩

theorem slice_append {k : Nat} (hi : isBoundary s i = true) (hj : isBoundary s j = true)
    (hk : isBoundary s k = true) (hij : i ≤ j) (hjk : j ≤ k) :
    slice s i j ++ slice s j k = slice s i k := by
  obtain ⟨hleft, hmid⟩ := stands_slice hi hj hij
  obtain ⟨hright, hstop⟩ := stands_slice hj hk hjk
  have hall := (hleft.append (hmid.symm ▸ hright)).slice
  rw [size_append, ← Nat.add_assoc, hmid, hstop] at hall
  exact hall.symm

/-! ## Characters of a text -/

section characters
variable {c : Char}

theorem mem_bytesOf_of_mem (hc : c ∈ p.toList) (hb : b ∈ String.utf8EncodeChar c) : b ∈ bytesOf p := by
  obtain ⟨before, behind, hsplit⟩ := List.append_of_mem hc
  have hp : p = String.ofList before ++ (String.ofList [c] ++ String.ofList behind) := by
    rw [← String.toList_inj, hsplit]
    simp
  have hbytes : bytesOf (String.ofList [c]) = String.utf8EncodeChar c := by
    simp [bytesOf, List.utf8Encode_singleton]
  rw [hp, bytesOf_append, bytesOf_append, hbytes]
  simp [hb]

theorem utf8EncodeChar_of_lt (h : c.toNat < 128) : String.utf8EncodeChar c = [UInt8.ofNat c.toNat] := by
  have hle : c.val.toNat ≤ 127 := Nat.le_of_lt_succ h
  simp only [String.utf8EncodeChar, hle, if_true]
  rfl

theorem lt_of_utf8EncodeChar (h : ∀ b ∈ String.utf8EncodeChar c, b < 0x80) : c.toNat < 128 := by
  refine Nat.lt_of_not_le fun hle => ?_
  have hlength : 1 < (String.utf8EncodeChar c).length := by
    have hnot : ¬ c.val.toNat ≤ 127 := Nat.not_le_of_lt hle
    simp only [String.utf8EncodeChar, hnot, if_false]
    split
    · simp
    · split <;> simp
  have hmem := List.getElem_mem (Nat.lt_of_succ_lt hlength)
  exact not_lt_utf8EncodeChar c hlength _ hmem (h _ hmem)

theorem not_mem_toList (hc : c.toNat < 128) (h : UInt8.ofNat c.toNat ∉ bytesOf p) : c ∉ p.toList := by
  intro hmem
  refine h (mem_bytesOf_of_mem hmem ?_)
  rw [utf8EncodeChar_of_lt hc]
  exact List.mem_singleton_self _

end characters

end XmlAssist.Text

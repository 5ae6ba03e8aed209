import XmlAssist.Text.Bytes

/-!
# Where characters start

The bytes of a text are those of its characters: a byte either starts one or continues one, and a
byte below `0x80` is a character of its own. So an offset at such a byte, and the one behind it, are
boundaries, and every way of `Text.Bytes` to move an offset stops at a boundary as long as it only
ever decides on such bytes.
-/

namespace XmlAssist.Text

/-! ## Bytes -/

theorem byte?_eq_some {s : String} {i : Nat} {b : UInt8} (h : byte? s i = some b) :
    ∃ hi : i < s.utf8ByteSize, s.getUTF8Byte ⟨i⟩ hi = b := by
  unfold byte? at h
  split at h
  · exact ⟨‹_›, Option.some.inj h⟩
  · cases h

theorem byte?_of_lt {s : String} {i : Nat} (h : i < s.utf8ByteSize) :
    byte? s i = some (s.getUTF8Byte ⟨i⟩ h) := dif_pos h

theorem lt_size_of_byte? {s : String} {i : Nat} {b : UInt8} (h : byte? s i = some b) :
    i < size s := (byte?_eq_some h).1

theorem length_bytesOf (s : String) : (bytesOf s).length = size s := by
  simp [bytesOf, size]

theorem forall_byte {P : UInt8 → Prop} (h : ∀ n : Fin 256, P (UInt8.ofFin n)) (b : UInt8) : P b :=
  h b.toFin

theorem forall_mem_of_all {P : UInt8 → Prop} [DecidablePred P] {bs : List UInt8}
    (h : bs.all (P ·) = true) : ∀ b ∈ bs, P b := by
  simpa using h

theorem isUTF8FirstByte_of_lt {b : UInt8} : b < 0x80 → b.IsUTF8FirstByte :=
  forall_byte (P := fun b => b < 0x80 → b.IsUTF8FirstByte) (by decide +kernel) b

theorem not_isUTF8FirstByte_of_isContinuation {b : UInt8} :
    isContinuation b = true → ¬ b.IsUTF8FirstByte :=
  forall_byte (P := fun b => isContinuation b = true → ¬ b.IsUTF8FirstByte) (by decide +kernel) b

/-! ## Bytes of a character -/

theorem isContinuation_ofNat (v : Nat) : isContinuation (UInt8.ofNat (v % 64 + 128)) = true := by
  have hv : v % 64 < 64 := Nat.mod_lt _ (by decide)
  simp only [isContinuation, Bool.and_eq_true, decide_eq_true_eq, UInt8.le_iff_toNat_le,
    UInt8.lt_iff_toNat_lt, UInt8.toNat_ofNat']
  constructor <;> simp <;> omega

theorem isContinuation_utf8EncodeChar (c : Char) (i : Nat) (hi : i < (String.utf8EncodeChar c).length)
    (h0 : 0 < i) : isContinuation (String.utf8EncodeChar c)[i] = true := by
  obtain ⟨j, rfl⟩ := Nat.exists_eq_add_of_lt h0
  have htail : ∀ b ∈ (String.utf8EncodeChar c).tail, isContinuation b = true := by
    simp only [String.utf8EncodeChar]
    split
    · simp
    · split
      · simp only [List.tail_cons, List.forall_mem_cons, isContinuation_ofNat]
        simp
      · split <;>
        · simp only [List.tail_cons, List.forall_mem_cons, isContinuation_ofNat]
          simp
  refine htail _ (List.mem_iff_getElem.mpr ⟨j, by simp only [List.length_tail]; omega, ?_⟩)
  rw [List.getElem_tail]
  simp

theorem isUTF8FirstByte_or_isContinuation (s : String) (i : Nat) (h : i < s.utf8ByteSize) :
    (s.getUTF8Byte ⟨i⟩ h).IsUTF8FirstByte ∨ isContinuation (s.getUTF8Byte ⟨i⟩ h) = true := by
  induction s using String.push_induction with
  | empty => simp at h
  | push s c ih =>
    simp only [String.getUTF8Byte, String.toByteArray_push]
    by_cases hi : i < s.utf8ByteSize
    · rw [ByteArray.getElem_append_left (by simpa using hi)]
      exact ih hi
    · have hsize : s.toByteArray.size ≤ i := by simpa using hi
      rw [ByteArray.getElem_append_right hsize]
      simp only [List.utf8Encode_singleton, List.getElem_toByteArray]
      by_cases h0 : i - s.toByteArray.size = 0
      · left
        simpa using h0
      · right
        exact isContinuation_utf8EncodeChar c _ _ (Nat.pos_of_ne_zero h0)

theorem not_lt_ofNat {n : Nat} (h : 128 ≤ n) (hn : n < 256) : ¬ UInt8.ofNat n < 0x80 := by
  simp only [UInt8.lt_iff_toNat_lt, UInt8.toNat_ofNat', Nat.mod_eq_of_lt hn]
  simp
  omega

theorem not_lt_utf8EncodeChar (c : Char) (hc : 1 < (String.utf8EncodeChar c).length) :
    ∀ b ∈ String.utf8EncodeChar c, ¬ b < 0x80 := by
  intro b hb
  simp only [String.utf8EncodeChar] at hb hc
  split at hb
  · rename_i h
    rw [if_pos h] at hc
    simp at hc
  · split at hb
    · simp only [List.mem_cons, List.not_mem_nil, or_false] at hb
      rcases hb with rfl | rfl <;> exact not_lt_ofNat (by omega) (by omega)
    · split at hb
      · simp only [List.mem_cons, List.not_mem_nil, or_false] at hb
        rcases hb with rfl | rfl | rfl <;> exact not_lt_ofNat (by omega) (by omega)
      · simp only [List.mem_cons, List.not_mem_nil, or_false] at hb
        rcases hb with rfl | rfl | rfl | rfl <;> exact not_lt_ofNat (by omega) (by omega)

theorem not_lt_of_isContinuation_succ (s : String) (i : Nat) (h : i + 1 < s.utf8ByteSize)
    (hc : isContinuation (s.getUTF8Byte ⟨i + 1⟩ h) = true) :
    ¬ s.getUTF8Byte ⟨i⟩ (Nat.lt_of_succ_lt h) < 0x80 := by
  induction s using String.push_induction with
  | empty => simp at h
  | push s c ih =>
    simp only [String.getUTF8Byte, String.toByteArray_push] at hc ⊢
    by_cases hi : i + 1 < s.utf8ByteSize
    · rw [ByteArray.getElem_append_left (by simpa using hi)] at hc
      rw [ByteArray.getElem_append_left (by simp; omega)]
      exact ih hi hc
    · have hsize : s.toByteArray.size ≤ i + 1 := by simpa using hi
      rw [ByteArray.getElem_append_right hsize] at hc
      simp only [List.utf8Encode_singleton, List.getElem_toByteArray] at hc
      -- the byte that continues a character is not its first one
      have hpos : s.toByteArray.size ≤ i := by
        refine Nat.le_of_not_lt fun hlt => not_isUTF8FirstByte_of_isContinuation hc ?_
        rw [UInt8.isUTF8FirstByte_getElem_utf8EncodeChar]
        omega
      have hlen : i + 1 - s.toByteArray.size < (String.utf8EncodeChar c).length := by
        simp at h ⊢
        omega
      rw [ByteArray.getElem_append_right hpos]
      simp only [List.utf8Encode_singleton, List.getElem_toByteArray]
      exact not_lt_utf8EncodeChar c (by omega) _ (List.getElem_mem _)

/-! ## Boundaries -/

theorem isBoundary_iff {s : String} {i : Nat} :
    isBoundary s i = true ↔ i = size s ∨ ∃ b, byte? s i = some b ∧ b.IsUTF8FirstByte := by
  rw [isBoundary, String.Pos.Raw.isValid_eq_true_iff, String.Pos.Raw.isValid_iff_isUTF8FirstByte]
  refine or_congr (by simp [String.Pos.Raw.ext_iff]) ⟨?_, ?_⟩
  · rintro ⟨h, hb⟩
    exact ⟨_, byte?_of_lt h, hb⟩
  · rintro ⟨b, hb, hfirst⟩
    obtain ⟨h, rfl⟩ := byte?_eq_some hb
    exact ⟨h, hfirst⟩

theorem isBoundary_size (s : String) : isBoundary s (size s) = true := isBoundary_iff.mpr (.inl rfl)

theorem isBoundary_zero (s : String) : isBoundary s 0 = true := by
  rw [isBoundary, String.Pos.Raw.isValid_eq_true_iff]
  exact String.Pos.Raw.isValid_zero

theorem le_size_of_isBoundary {s : String} {i : Nat} (h : isBoundary s i = true) : i ≤ size s := by
  rcases isBoundary_iff.mp h with rfl | ⟨b, hb, _⟩
  · exact Nat.le_refl _
  · exact Nat.le_of_lt (lt_size_of_byte? hb)

theorem isBoundary_of_lt {s : String} {i : Nat} {b : UInt8} (h : byte? s i = some b)
    (hb : b < 0x80) : isBoundary s i = true :=
  isBoundary_iff.mpr (.inr ⟨b, h, isUTF8FirstByte_of_lt hb⟩)

theorem isBoundary_of_not_isContinuation {s : String} {i : Nat} {b : UInt8} (h : byte? s i = some b)
    (hb : isContinuation b = false) : isBoundary s i = true := by
  obtain ⟨hi, rfl⟩ := byte?_eq_some h
  rcases isUTF8FirstByte_or_isContinuation s i hi with hfirst | hcont
  · exact isBoundary_iff.mpr (.inr ⟨_, h, hfirst⟩)
  · rw [hcont] at hb
    cases hb

theorem isBoundary_succ {s : String} {i : Nat} {b : UInt8} (h : byte? s i = some b)
    (hb : b < 0x80) : isBoundary s (i + 1) = true := by
  obtain ⟨hi, rfl⟩ := byte?_eq_some h
  by_cases hlast : i + 1 < s.utf8ByteSize
  · rcases isUTF8FirstByte_or_isContinuation s (i + 1) hlast with hfirst | hcont
    · exact isBoundary_iff.mpr (.inr ⟨_, byte?_of_lt hlast, hfirst⟩)
    · exact absurd hb (not_lt_of_isContinuation_succ s i hlast hcont)
  · have : i + 1 = size s := by
      have hi' : i < s.utf8ByteSize := hi
      show i + 1 = s.utf8ByteSize
      omega
    rw [this]
    exact isBoundary_size s

/-! ## Moves of an offset -/

theorem skipWhile_stop {p : UInt8 → Bool} {s : String} {i : Nat} {b : UInt8}
    (h : byte? s (skipWhile p s i) = some b) : p b = false := by
  fun_induction skipWhile p s i with
  | case1 i hi hp ih => exact ih h
  | case2 i hi hp =>
    rw [byte?_of_lt hi] at h
    simpa [Option.some.inj h] using hp
  | case3 i hi => exact absurd (lt_size_of_byte? h) hi

theorem isBoundary_skipWhile_of_stop {p : UInt8 → Bool} {s : String} {i : Nat}
    (hp : ∀ {j b}, byte? s j = some b → p b = false → isBoundary s j = true) (hi : i ≤ size s) :
    isBoundary s (skipWhile p s i) = true := by
  have hle := skipWhile_le p s i hi
  rcases Nat.lt_or_ge (skipWhile p s i) (size s) with hlt | hge
  · exact hp (byte?_of_lt hlt) (skipWhile_stop (byte?_of_lt hlt))
  · rw [Nat.le_antisymm hle hge]
    exact isBoundary_size s

theorem isBoundary_skipWhile {p : UInt8 → Bool} {s : String} {i : Nat}
    (hp : ∀ b, p b = false → b < 0x80) (hi : i ≤ size s) : isBoundary s (skipWhile p s i) = true :=
  isBoundary_skipWhile_of_stop (fun hb hpb => isBoundary_of_lt hb (hp _ hpb)) hi

theorem isBoundary_skipWhile_of_lt {p : UInt8 → Bool} {s : String} {i : Nat}
    (hp : ∀ b, p b = true → b < 0x80) (hi : isBoundary s i = true) :
    isBoundary s (skipWhile p s i) = true := by
  fun_induction skipWhile p s i with
  | case1 i h hb ih => exact ih (isBoundary_succ (byte?_of_lt h) (hp _ hb))
  | case2 => exact hi
  | case3 => exact hi

theorem isBoundary_skipUntil {p : UInt8 → Bool} {s : String} {i : Nat}
    (hp : ∀ b, p b = true → b < 0x80) (hi : i ≤ size s) : isBoundary s (skipUntil p s i) = true :=
  isBoundary_skipWhile (fun b hb => hp b (by simpa using hb)) hi

theorem lt_skipWhile {p : UInt8 → Bool} {s : String} {i : Nat} {b : UInt8}
    (h : byte? s i = some b) (hb : p b = true) : i < skipWhile p s i := by
  obtain ⟨hi, rfl⟩ := byte?_eq_some h
  rw [skipWhile, dif_pos hi, if_pos hb]
  exact le_skipWhile p s (i + 1)

theorem isBoundary_of_startsAt {s : String} {i : Nat} {lit : List UInt8}
    (hlit : ∀ b ∈ lit, b < 0x80) (hi : isBoundary s i = true) (h : startsAt s i lit = true) :
    isBoundary s (i + lit.length) = true := by
  induction lit generalizing i with
  | nil => exact hi
  | cons b lit ih =>
    simp only [startsAt, Bool.and_eq_true, beq_iff_eq] at h
    have hb : b < 0x80 := hlit b (by simp)
    have := ih (fun c hc => hlit c (by simp [hc])) (isBoundary_succ h.1 hb) h.2
    rwa [List.length_cons, show i + (lit.length + 1) = i + 1 + lit.length by omega]

theorem isBoundary_startsAt {s : String} {i : Nat} {lit : List UInt8} (hlit : ∀ b ∈ lit, b < 0x80)
    (hne : lit ≠ []) (h : startsAt s i lit = true) : isBoundary s i = true := by
  cases lit with
  | nil => exact absurd rfl hne
  | cons b lit =>
    simp only [startsAt, Bool.and_eq_true, beq_iff_eq] at h
    exact isBoundary_of_lt h.1 (hlit b (by simp))

theorem startsAt_of_find? {s : String} {i j : Nat} {lit : List UInt8} (h : find? lit s i = some j) :
    i ≤ j ∧ startsAt s j lit = true := by
  fun_induction find? lit s i with
  | case1 i hi =>
    obtain rfl := Option.some.inj h
    exact ⟨Nat.le_refl _, hi⟩
  | case2 i hi hlt ih =>
    obtain ⟨hle, hj⟩ := ih h
    exact ⟨by omega, hj⟩
  | case3 => cases h

theorem isBoundary_nextChar {s : String} {i : Nat} (h : i < size s) (hi : isBoundary s i = true) :
    isBoundary s (nextChar s i) = true := by
  rw [nextChar, if_pos hi]
  exact isBoundary_skipWhile_of_stop isBoundary_of_not_isContinuation h

end XmlAssist.Text

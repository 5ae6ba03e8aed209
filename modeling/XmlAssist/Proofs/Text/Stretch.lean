import XmlAssist.Markup.Lexer
import XmlAssist.Proofs.Text.Piece

/-!
# Two texts that agree over a stretch

An edit leaves most of a text as it is, though at another place. `Stretch s i s' i' n` says that the
`n` bytes of `s` at `i` stand in `s'` at `i'`, and that in both texts markup follows them, or nothing.
What moves an offset inside the stretch then moves it in both texts by the same amount, as long as
its decisions take a `<` for the end of the text: `shift i i'` carries an offset over.
-/

namespace XmlAssist.Text

/-- Nothing follows, or markup. -/
def AtBracket (r : List UInt8) : Prop := ∀ b ∈ r.head?, b = 0x3C

theorem atBracket_nil : AtBracket [] := nofun

/-- The `n` bytes of `s` at `i` stand in `s'` at `i'`, with markup or nothing behind them. -/
def Stretch (s : String) (i : Nat) (s' : String) (i' n : Nat) : Prop :=
  ∃ l r r', rest s i = l ++ r ∧ rest s' i' = l ++ r' ∧ l.length = n ∧ AtBracket r ∧ AtBracket r'

/-- The offset that is as far behind `i'` as `j` is behind `i`. -/
def shift (i i' j : Nat) : Nat := i' + (j - i)

@[simp] theorem shift_self (i i' : Nat) : shift i i' i = i' := by simp [shift]

@[simp] theorem shift_add (i i' k : Nat) : shift i i' (i + k) = i' + k := by simp [shift]

theorem shift_succ {i i' j : Nat} (h : i < j) : shift (i + 1) (i' + 1) j = shift i i' j := by
  simp only [shift]
  omega

theorem shift_add_left {i i' j k : Nat} (h : i + k ≤ j) :
    shift (i + k) (i' + k) j = shift i i' j := by
  simp only [shift]
  omega

variable {s s' : String} {i i' n k : Nat} {p : UInt8 → Bool} {α : Type}

theorem stretch_of_rest_eq (h : rest s i = rest s' i') : Stretch s i s' i' (rest s i).length :=
  ⟨rest s i, [], [], by simp, by simp [h], rfl, atBracket_nil, atBracket_nil⟩

namespace Stretch

variable (m : Stretch s i s' i' n)
include m

theorem symm : Stretch s' i' s i n := by
  obtain ⟨l, r, r', h, h', hl, hr, hr'⟩ := m
  exact ⟨l, r', r, h', h, hl, hr', hr⟩

theorem drop (hk : k ≤ n) : Stretch s (i + k) s' (i' + k) (n - k) := by
  obtain ⟨l, r, r', h, h', rfl, hr, hr'⟩ := m
  refine ⟨l.drop k, r, r', ?_, ?_, List.length_drop, hr, hr'⟩
  · rw [rest, ← List.drop_drop, ← rest, h, List.drop_append_of_le_length hk]
  · rw [rest, ← List.drop_drop, ← rest, h', List.drop_append_of_le_length hk]

/-! ## Single bytes -/

theorem byte?_of_lt (hk : k < n) : byte? s' (i' + k) = byte? s (i + k) := by
  obtain ⟨l, r, r', h, h', rfl, -, -⟩ := m
  rw [byte?_eq_head?, byte?_eq_head?, rest, rest, ← List.drop_drop, ← List.drop_drop, ← rest, ← rest,
    h, h', List.head?_drop, List.head?_drop, List.getElem?_append_left hk,
    List.getElem?_append_left hk]

theorem exists_byte? (hk : k < n) : ∃ b, byte? s (i + k) = some b := by
  obtain ⟨l, r, r', h, -, rfl, -, -⟩ := m
  refine ⟨l[k], ?_⟩
  rw [byte?_eq_head?, rest, ← List.drop_drop, ← rest, h, List.head?_drop,
    List.getElem?_append_left hk, List.getElem?_eq_getElem hk]

theorem byte?_stop : byte? s (i + n) = none ∨ byte? s (i + n) = some 0x3C := by
  obtain ⟨l, r, r', h, -, rfl, hr, -⟩ := m
  rw [byte?_eq_head?, rest_add h]
  cases r with
  | nil => exact .inl rfl
  | cons b r => exact .inr (congrArg some (hr b rfl))

theorem test (f : Option UInt8 → α) (hf : f none = f (some 0x3C)) (hk : k ≤ n) :
    f (byte? s' (i' + k)) = f (byte? s (i + k)) := by
  rcases Nat.lt_or_eq_of_le hk with hlt | rfl
  · rw [m.byte?_of_lt hlt]
  · rcases m.byte?_stop with h | h <;> rcases m.symm.byte?_stop with h' | h' <;> rw [h, h'] <;>
      first | rfl | exact hf | exact hf.symm

theorem isBoundary_iff (hi : i + k ≤ size s) (hi' : i' + k ≤ size s') (hk : k ≤ n) :
    isBoundary s' (i' + k) = isBoundary s (i + k) := by
  -- a boundary is an offset at which no byte stands, or one that starts a character
  have hchar {t : String} {j : Nat} (hj : j ≤ size t) :
      isBoundary t j = true ↔ ∀ b ∈ byte? t j, b.IsUTF8FirstByte := by
    rw [Text.isBoundary_iff]
    constructor
    · rintro (rfl | ⟨b, hb, hfirst⟩) c hc
      · exact absurd (lt_size_of_byte? hc) (Nat.lt_irrefl _)
      · rwa [← Option.some.inj (hb.symm.trans hc)]
    · intro h
      rcases Nat.lt_or_eq_of_le hj with hlt | rfl
      · exact .inr ⟨_, Text.byte?_of_lt hlt, h _ (Text.byte?_of_lt hlt)⟩
      · exact .inl rfl
  have htest := m.test (fun o => ∀ b ∈ o, b.IsUTF8FirstByte) ?_ hk
  · rw [Bool.eq_iff_iff, hchar hi, hchar hi', htest]
  · simp only [Option.mem_def, Option.some.injEq, forall_eq', eq_iff_iff]
    exact ⟨fun _ => by decide, nofun⟩

/-! ## Runs of bytes -/

theorem skipWhile_eq_takeWhile (hp : p 0x3C = false) :
    ∃ k ≤ n, skipWhile p s i = i + k ∧ skipWhile p s' i' = i' + k := by
  obtain ⟨l, r, r', h, h', rfl, hr, hr'⟩ := m
  have hstop {t : List UInt8} (ht : AtBracket t) : (l ++ t).takeWhile p = l.takeWhile p := by
    have hnone : t.takeWhile p = [] := by
      cases t with
      | nil => rfl
      | cons b t => exact List.takeWhile_cons_of_neg (by simp [ht b rfl, hp])
    rw [List.takeWhile_append]
    split
    · rename_i hall
      rw [hnone, List.append_nil, (List.takeWhile_prefix p).eq_of_length hall]
    · rfl
  refine ⟨(l.takeWhile p).length, (List.takeWhile_prefix p).length_le, ?_, ?_⟩
  · rw [skipWhile_eq, h, hstop hr]
  · rw [skipWhile_eq, h', hstop hr']

theorem skipWhile_eq (hp : p 0x3C = false) : skipWhile p s' i' = shift i i' (skipWhile p s i) := by
  obtain ⟨k, -, h, h'⟩ := m.skipWhile_eq_takeWhile hp
  rw [h, h', shift_add]

theorem skipWhile_or (p : UInt8 → Bool) :
    (∃ k < n, skipWhile p s i = i + k ∧ skipWhile p s' i' = i' + k) ∨
      (i + n ≤ skipWhile p s i ∧ i' + n ≤ skipWhile p s' i') := by
  obtain ⟨l, r, r', h, h', rfl, -, -⟩ := m
  rw [Text.skipWhile_eq, Text.skipWhile_eq, h, h', List.takeWhile_append, List.takeWhile_append]
  split
  · right
    simp
  · rename_i hne
    exact .inl ⟨_, Nat.lt_of_le_of_ne (List.takeWhile_prefix p).length_le hne, rfl, rfl⟩

theorem startsAt_eq {l : List UInt8} (hn : 0 < n) (hlit : 0x3C ∉ l.tail) :
    startsAt s' i' l = startsAt s i l := by
  cases l with
  | nil => rfl
  | cons b l =>
    have hsame (l : List UInt8) (hlit : 0x3C ∉ l) :
        ∀ k ≤ n, startsAt s' (i' + k) l = startsAt s (i + k) l := by
      induction l with
      | nil => exact fun _ _ => rfl
      | cons b l ih =>
        rw [List.mem_cons, not_or] at hlit
        intro k hk
        have hbyte := m.test (· == some b) (by simpa using hlit.1) hk
        rw [startsAt, startsAt, hbyte]
        rcases Nat.lt_or_eq_of_le hk with hlt | rfl
        · rw [Nat.add_assoc, Nat.add_assoc, ih hlit.2 (k + 1) hlt]
        · rcases m.byte?_stop with h | h
          · rw [h]
            rfl
          · rw [h, Option.some_beq_some, beq_false_of_ne hlit.1, Bool.false_and, Bool.false_and]
    have hbyte : byte? s' i' = byte? s i := m.byte?_of_lt (k := 0) hn
    rw [startsAt, startsAt, hbyte, hsame l hlit 1 hn]

theorem le_of_startsAt {l : List UInt8} (hlit : 0x3C ∉ l) (h : startsAt s i l = true) :
    l.length ≤ n := by
  induction l generalizing i i' n with
  | nil => exact Nat.zero_le _
  | cons b l ih =>
    rw [List.mem_cons, not_or] at hlit
    rw [startsAt, Bool.and_eq_true, beq_iff_eq] at h
    have hn : 0 < n := by
      refine Nat.pos_of_ne_zero fun h0 => ?_
      subst h0
      rcases m.byte?_stop with h' | h' <;> rw [Nat.add_zero, h.1] at h'
      · cases h'
      · exact hlit.1 (Option.some.inj h').symm
    have := ih (m.drop hn) hlit.2 h.2
    simp only [List.length_cons]
    omega

theorem nextChar_eq (hn : 0 < n) (hi : i < size s) (hi' : i' < size s') :
    nextChar s' i' = shift i i' (nextChar s i) := by
  have hboundary := m.isBoundary_iff (k := 0) (Nat.le_of_lt hi) (Nat.le_of_lt hi') (Nat.zero_le n)
  simp only [Nat.add_zero] at hboundary
  have hskip := (m.drop hn).skipWhile_eq (p := isContinuation) (by decide)
  have hle := le_skipWhile isContinuation s (i + 1)
  rw [nextChar, nextChar, hboundary, hskip]
  split
  · exact shift_succ hle
  · rw [Nat.min_eq_left hi, Nat.min_eq_left hi']
    exact (shift_add i i' 1).symm

end Stretch

end XmlAssist.Text

namespace XmlAssist.Lexer

open Text (Stretch shift shift_add shift_succ byte? size)

variable {s s' : String} {i i' n d : Nat} {u : List UInt8}

section stretch
variable (m : Stretch s i s' i' n)
include m

/-! ## Names, white space and literals -/

theorem space?_stretch : space? s' i' = (space? s i).map (shift i i') := by
  obtain ⟨k, -, h, h'⟩ := m.skipWhile_eq_takeWhile (p := isSpace) (by decide)
  simp only [space?, h, h']
  split
  · rename_i hlt
    rw [if_pos (by omega), Option.map_some, shift_add]
  · rename_i hlt
    rw [if_neg (by omega), Option.map_none]

theorem name?_stretch : name? s' i' = (name? s i).map (shift i i') := by
  have hname := m.test (fun o => o.filter isNameStart) (by decide) (Nat.zero_le n)
  simp only [Nat.add_zero] at hname
  have hskip := m.skipWhile_eq (p := isName) (by decide)
  have heq (t : String) (j : Nat) :
      name? t j = ((byte? t j).filter isNameStart).map fun _ => Text.skipWhile isName t j := by
    rw [name?]
    cases byte? t j with
    | none => rfl
    | some b => cases hb : isNameStart b <;> simp [hb, Option.filter]
  rw [heq, heq, hname, hskip]
  cases (byte? s i).filter isNameStart <;> rfl

theorem literal?_stretch {lit : String} (hn : 0 < n) (hlit : 0x3C ∉ (Text.bytesOf lit).tail) :
    literal? lit s' i' = (literal? lit s i).map (shift i i') := by
  rw [literal?, literal?, m.startsAt_eq hn hlit]
  split
  · rw [Option.map_some, shift_add]
  · rfl

theorem keyword?_stretch {w : String} (hn : 0 < n) (hword : 0x3C ∉ Text.bytesOf w) :
    keyword? w s' i' = (keyword? w s i).map (shift i i') := by
  have hlit := literal?_stretch m hn fun h => hword (List.mem_of_mem_tail h)
  have heq (t : String) (j : Nat) : keyword? w t j =
      (literal? w t j).bind fun k => if (byte? t k).any isName then none else some k := by
    rw [keyword?]
    cases literal? w t j with
    | none => rfl
    | some k => cases h : byte? t k <;> simp [h]
  rw [heq, heq, hlit]
  cases h : literal? w s i with
  | none => rfl
  | some j =>
    obtain ⟨hstarts, rfl⟩ : Text.startsAt s i (Text.bytesOf w) = true ∧ i + size w = j := by
      simpa [literal?] using h
    have hle := m.le_of_startsAt hword hstarts
    rw [Text.length_bytesOf] at hle
    have hbyte := m.test (fun o => o.any isName) (by decide) hle
    simp only [Option.map_some, Option.bind_some, shift_add, hbyte]
    split
    · rfl
    · rw [Option.map_some, shift_add]

theorem untilAny_stretch (hstops : 0x3C ∈ u) :
    untilAny u s' i' = shift i i' (untilAny u s i) :=
  m.skipWhile_eq (by simpa using hstops)

theorem quoted?_stretch (hstops : 0x3C ∈ u) :
    quoted? u s' i' = (quoted? u s i).map fun p => (shift i i' p.1, p.2) := by
  have hquote := m.test (fun o => o.filter isQuoteByte) (by decide) (Nat.zero_le n)
  simp only [Nat.add_zero] at hquote
  have heq (t : String) (j : Nat) : quoted? u t j = ((byte? t j).filter isQuoteByte).map fun q =>
      let k := untilAny (q :: u) t (j + 1)
      if byte? t k == some q then (k + 1, true) else (k, false) := by
    rw [quoted?]
    cases byte? t j with
    | none => rfl
    | some b => cases hb : isQuoteByte b <;> simp [hb, Option.filter, apply_ite]
  rw [heq, heq, hquote]
  cases hq : (byte? s i).filter isQuoteByte with
  | none => rfl
  | some q =>
    obtain ⟨hbyte, hquote⟩ := Option.filter_eq_some_iff.mp hq
    have hn : 0 < n := by
      refine Nat.pos_of_ne_zero fun h0 => ?_
      subst h0
      rcases m.byte?_stop with h | h <;> rw [Nat.add_zero, hbyte] at h
      · cases h
      · obtain rfl := Option.some.inj h
        cases hquote
    obtain ⟨k, hk, h, h'⟩ := (m.drop hn).skipWhile_eq_takeWhile (p := fun b => !(q :: u).contains b)
      (by simp [hstops])
    have hne : q ≠ 0x3C := by
      rintro rfl
      cases hquote
    have htest := m.test (· == some q) (by simpa using hne.symm) (k := 1 + k) (by omega)
    simp only [← Nat.add_assoc] at htest
    have hu : untilAny (q :: u) s (i + 1) = i + 1 + k := h
    have hu' : untilAny (q :: u) s' (i' + 1) = i' + 1 + k := h'
    simp only [Option.map_some, hu, hu', htest]
    split
    · simp only [Nat.add_assoc, shift_add]
    · simp only [Nat.add_assoc, shift_add]

end stretch

theorem groupEnd_stretch (m : Stretch s i s' i' n) :
    ∃ k ≤ n, groupEnd s i d = i + k ∧ groupEnd s' i' d = i' + k := by
  induction n generalizing i i' d with
  | zero =>
    -- at a bracket, and at the end, the group ends
    have hstop {t : String} {j : Nat} (h : byte? t j = none ∨ byte? t j = some 0x3C) :
        groupEnd t j d = j := by
      rw [groupEnd]
      rcases h with h | h
      · rw [dif_neg fun hlt => by rw [Text.byte?_of_lt hlt] at h; cases h]
      · obtain ⟨hlt, hb⟩ := Text.byte?_eq_some h
        simp [dif_pos hlt, hb]
    exact ⟨0, Nat.le_refl _, hstop m.byte?_stop, hstop m.symm.byte?_stop⟩
  | succ n ih =>
    obtain ⟨b, hb⟩ := m.exists_byte? (Nat.succ_pos n)
    have hb' := (m.byte?_of_lt (Nat.succ_pos n)).trans hb
    obtain ⟨hlt, hb⟩ := Text.byte?_eq_some hb
    obtain ⟨hlt', hb'⟩ := Text.byte?_eq_some hb'
    have hnext {d : Nat} : ∃ k ≤ n + 1, groupEnd s (i + 1) d = i + k ∧ groupEnd s' (i' + 1) d = i' + k := by
      obtain ⟨k, hk, h, h'⟩ := ih (d := d) (m.drop (k := 1) (by omega))
      exact ⟨k + 1, by omega, by omega, by omega⟩
    simp only [Nat.add_zero] at hlt hlt' hb hb'
    rw [groupEnd, dif_pos hlt, groupEnd.eq_1 s', dif_pos hlt']
    simp only [hb, hb']
    have hhere : ∃ k ≤ n + 1, i = i + k ∧ i' = i' + k := ⟨0, Nat.zero_le _, rfl, rfl⟩
    split
    · exact hnext
    · split
      · split
        · exact hhere
        · exact hnext
      · split
        · exact hhere
        · exact hnext

end XmlAssist.Lexer

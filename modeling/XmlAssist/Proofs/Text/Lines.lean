import Mathlib
import XmlAssist.Proofs.Text.Piece
import XmlAssist.Text.LineIndex

/-!
# Offsets and positions

A position names a line and a place in it, and `At` says which offset that is: a boundary of the
line, as many UTF-16 units behind its start. Both directions of the conversion compute this relation,
`positionAt` from the offset and `offsetAt` from the position, so that they are inverse to each
other; and the relation goes up with the offset.
-/

namespace XmlAssist

namespace Text

variable {s p q : String} {i j : Nat}

/-! ## UTF-16 units -/

theorem units16_pos (c : Char) : 0 < units16 c := by
  unfold units16
  split <;> decide

theorem length16_eq_sum (s : String) : length16 s = (s.toList.map units16).sum := by
  have hfold (l : List Char) (n : Nat) :
      l.foldl (fun n c => n + units16 c) n = n + (l.map units16).sum := by
    induction l generalizing n with
    | nil => rfl
    | cons c l ih => simp [ih, Nat.add_assoc]
  rw [length16, hfold, Nat.zero_add]

theorem length16_append (p q : String) : length16 (p ++ q) = length16 p + length16 q := by
  simp [length16_eq_sum]

theorem length16_pos (h : p ≠ "") : 0 < length16 p := by
  rw [length16_eq_sum]
  cases hp : p.toList with
  | nil => exact absurd (String.toList_eq_nil_iff.mp hp) h
  | cons c l =>
    have := units16_pos c
    simp only [List.map_cons, List.sum_cons]
    omega

theorem length16_slice_lt {k : Nat} (hi : isBoundary s i = true) (hj : isBoundary s j = true)
    (hk : isBoundary s k = true) (hij : i ≤ j) (hjk : j < k) :
    length16 (slice s i j) < length16 (slice s i k) := by
  rw [← slice_append hi hj hk hij (Nat.le_of_lt hjk), length16_append]
  have hne : slice s j k ≠ "" := by
    intro hempty
    have hsize := (stands_slice hj hk (Nat.le_of_lt hjk)).2
    rw [hempty, show size "" = 0 from rfl] at hsize
    omega
  have := length16_pos hne
  omega

/-! ## Lines -/

def IsFeed (s : String) (i : Nat) : Prop := byte? s i = some 10

instance (s : String) : DecidablePred (IsFeed s) :=
  fun i => inferInstanceAs (Decidable (byte? s i = some 10))

/-- Line number `line` goes from `start` up to `stop`, where its line feed stands or the text ends. -/
structure IsLine (s : String) (line start stop : Nat) : Prop where
  number : Nat.count (IsFeed s) start = line
  first : start = 0 ∨ ∃ i, IsFeed s i ∧ start = i + 1
  last : stop = size s ∨ IsFeed s stop
  le : start ≤ stop
  feedless : ∀ i, start ≤ i → i < stop → ¬ IsFeed s i

/-- The offset is the place of the position: a boundary of its line, not behind the line feed, as
many units behind the start of the line as the position says. -/
def At (s : String) (position : Position) (offset : Nat) : Prop :=
  ∃ start stop, IsLine s position.line start stop ∧ start ≤ offset ∧ offset ≤ stop ∧
    isBoundary s offset = true ∧ length16 (slice s start offset) = position.character

theorem IsFeed.lt_size (h : IsFeed s i) : i < size s := lt_size_of_byte? h

theorem IsFeed.isBoundary (h : IsFeed s i) : isBoundary s i = true := isBoundary_of_lt h (by decide)

variable {line start stop : Nat}

theorem IsLine.isBoundary_start (h : IsLine s line start stop) : isBoundary s start = true := by
  rcases h.first with rfl | ⟨i, hfeed, rfl⟩
  · exact isBoundary_zero s
  · exact isBoundary_succ hfeed (by decide)

theorem IsLine.isBoundary_stop (h : IsLine s line start stop) : isBoundary s stop = true := by
  rcases h.last with rfl | hfeed
  · exact isBoundary_size s
  · exact hfeed.isBoundary

theorem start_le_of_count_le (hfirst : start = 0 ∨ ∃ i, IsFeed s i ∧ start = i + 1)
    (h : Nat.count (IsFeed s) start ≤ Nat.count (IsFeed s) j) : start ≤ j := by
  rcases hfirst with rfl | ⟨i, hfeed, rfl⟩
  · exact Nat.zero_le _
  · refine Nat.succ_le_of_lt (Nat.lt_of_not_le fun hle => ?_)
    have hbefore := Nat.count_monotone (IsFeed s) hle
    have hbehind : Nat.count (IsFeed s) i < Nat.count (IsFeed s) (i + 1) :=
      Nat.count_lt_count_succ_iff.mpr hfeed
    omega

theorem IsLine.count_eq (h : IsLine s line start stop) (hle : start ≤ i) (hi : i ≤ stop) :
    Nat.count (IsFeed s) i = line := by
  obtain ⟨n, rfl⟩ := Nat.exists_eq_add_of_le hle
  rw [Nat.count_add, h.number]
  have hnone : Nat.count (fun k => IsFeed s (start + k)) n = 0 :=
    Nat.count_iff_forall_not.mpr fun k hk => h.feedless _ (by omega) (by omega)
  omega

end Text

open Text

namespace LineIndex

variable {s : String} {i k line : Nat}

/-! ## The line feeds -/

theorem offsetsWhere_eq (p : UInt8 → Bool) (s : String) (i : Nat) (found : Array Nat) :
    (offsetsWhere p s i found).toList =
      found.toList ++ (List.range' i (size s - i)).filter fun j => (byte? s j).any p := by
  fun_induction offsetsWhere p s i found with
  | case1 i found h ih =>
    have hlen : size s - i = (size s - (i + 1)) + 1 := by
      have : i < size s := h
      omega
    rw [hlen, List.range'_succ, List.filter_cons, byte?_of_lt h, Option.any_some]
    by_cases hp : p (s.getUTF8Byte ⟨i⟩ h) = true
    · simp only [dif_pos hp, if_pos hp] at ih ⊢
      simp [ih]
    · simp only [dif_neg hp, if_neg hp] at ih ⊢
      exact ih
  | case2 i found h =>
    have hlen : size s - i = 0 := Nat.sub_eq_zero_of_le (Nat.le_of_not_lt h)
    simp [hlen]

theorem feeds_ofText (s : String) :
    (ofText s).feeds.toList = (List.range (size s)).filter fun i => decide (IsFeed s i) := by
  rw [ofText, offsetsWhere_eq, List.range_eq_range', Nat.sub_zero]
  simp only [List.nil_append]
  congr 1
  funext i
  cases h : byte? s i <;> simp [IsFeed, h, beq_eq_decide]

theorem getElem?_filter_range (p : Nat → Prop) [DecidablePred p] (n k i : Nat) :
    ((List.range n).filter fun i => decide (p i))[k]? = some i ↔ i < n ∧ p i ∧ Nat.count p i = k := by
  induction n with
  | zero => simp
  | succ n ih =>
    have hlength : ((List.range n).filter fun i => decide (p i)).length = Nat.count p n := by
      rw [Nat.count, List.countP_eq_length_filter]
    rw [List.range_succ, List.filter_append, List.getElem?_append, hlength]
    by_cases hk : k < Nat.count p n
    · rw [if_pos hk, ih]
      have hne : Nat.count p i = k → i ≠ n := fun hcount hi => by
        rw [hi] at hcount
        omega
      constructor
      · rintro ⟨hlt, h⟩
        exact ⟨by omega, h⟩
      · rintro ⟨hlt, h⟩
        have := hne h.2
        exact ⟨by omega, h⟩
    · rw [if_neg hk]
      have hlast : i < n + 1 → p i → Nat.count p i = k → i = n := fun hlt hp hcount => by
        have : i < n → Nat.count p i < Nat.count p n := Nat.count_strict_mono hp
        omega
      by_cases hp : p n
      · rw [List.filter_singleton, decide_eq_true hp, cond_true, List.getElem?_singleton]
        constructor
        · intro h
          split at h
          · obtain rfl := Option.some.inj h
            exact ⟨Nat.lt_succ_self _, hp, by omega⟩
          · cases h
        · rintro ⟨hlt, hpi, hcount⟩
          obtain rfl := hlast hlt hpi hcount
          rw [if_pos (by omega)]
      · rw [List.filter_singleton, decide_eq_false hp, cond_false, List.getElem?_nil]
        constructor
        · nofun
        · rintro ⟨hlt, hpi, hcount⟩
          exact absurd (hlast hlt hpi hcount ▸ hpi) hp

theorem feeds_getElem? : (ofText s).feeds[k]? = some i ↔ IsFeed s i ∧ Nat.count (IsFeed s) i = k := by
  rw [← Array.getElem?_toList, feeds_ofText, getElem?_filter_range]
  exact ⟨fun h => h.2, fun h => ⟨h.1.lt_size, h⟩⟩

theorem size_feeds (s : String) : (ofText s).feeds.size = Nat.count (IsFeed s) (size s) := by
  rw [← Array.length_toList, feeds_ofText, Nat.count, List.countP_eq_length_filter]

theorem lineOf_ofText (h : i ≤ size s) : (ofText s).lineOf i = Nat.count (IsFeed s) i := by
  obtain ⟨n, hn⟩ := Nat.exists_eq_add_of_le h
  rw [lineOf, ← Array.countP_toList, feeds_ofText, hn, List.countP_filter, List.range_add,
    List.countP_append, Nat.count]
  -- feeds at `i` or behind it do not count
  have hbehind : ((List.range n).map (i + ·)).countP
      (fun a => decide (a < i) && decide (IsFeed s a)) = 0 := by
    simp [List.countP_eq_zero]
  rw [hbehind, Nat.add_zero]
  refine List.countP_congr fun a ha => ?_
  simp [List.mem_range.mp ha]

theorem lineStart?_eq_some_iff {start : Nat} : (ofText s).lineStart? line = some start ↔
    Nat.count (IsFeed s) start = line ∧ (start = 0 ∨ ∃ i, IsFeed s i ∧ start = i + 1) := by
  have hsucc {i : Nat} (h : IsFeed s i) : Nat.count (IsFeed s) (i + 1) = Nat.count (IsFeed s) i + 1 :=
    Nat.count_succ_eq_succ_count_iff.mpr h
  cases line with
  | zero =>
    rw [lineStart?, Option.some.injEq]
    constructor
    · rintro rfl
      exact ⟨Nat.count_zero _, .inl rfl⟩
    · rintro ⟨hcount, rfl | ⟨i, hfeed, rfl⟩⟩
      · rfl
      · rw [hsucc hfeed] at hcount
        omega
  | succ n =>
    rw [lineStart?, Option.map_eq_some_iff]
    constructor
    · rintro ⟨i, hi, rfl⟩
      obtain ⟨hfeed, hcount⟩ := feeds_getElem?.mp hi
      exact ⟨by rw [hsucc hfeed, hcount], .inr ⟨i, hfeed, rfl⟩⟩
    · rintro ⟨hcount, rfl | ⟨i, hfeed, rfl⟩⟩
      · rw [Nat.count_zero] at hcount
        omega
      · rw [hsucc hfeed] at hcount
        exact ⟨i, feeds_getElem?.mpr ⟨hfeed, by omega⟩, rfl⟩

theorem lineEnd?_eq_some_iff {stop : Nat} : (ofText s).lineEnd? line = some stop ↔
    Nat.count (IsFeed s) stop = line ∧ (stop = size s ∨ IsFeed s stop) := by
  rw [lineEnd?, lineCount]
  cases hget : (ofText s).feeds[line]? with
  | some i =>
    obtain ⟨hfeed, hcount⟩ := feeds_getElem?.mp hget
    have hlt := Nat.count_strict_mono hfeed hfeed.lt_size
    rw [size_feeds, if_pos (by omega), Option.getD_some, Option.some.injEq]
    constructor
    · rintro rfl
      exact ⟨hcount, .inr hfeed⟩
    · rintro ⟨hstop, rfl | hstopFeed⟩
      · omega
      · exact Nat.count_injective hfeed hstopFeed (hcount.trans hstop.symm)
  | none =>
    have hle := Array.getElem?_eq_none_iff.mp hget
    rw [size_feeds] at hle ⊢
    constructor
    · intro h
      split at h
      · obtain rfl : size s = stop := Option.some.inj h
        exact ⟨by omega, .inl rfl⟩
      · cases h
    · rintro ⟨hstop, rfl | hstopFeed⟩
      · rw [if_pos (by omega)]
        rfl
      · rw [feeds_getElem?.mpr ⟨hstopFeed, hstop⟩] at hget
        cases hget

theorem isLine_iff {start stop : Nat} : IsLine s line start stop ↔
    (ofText s).lineStart? line = some start ∧ (ofText s).lineEnd? line = some stop := by
  rw [lineStart?_eq_some_iff, lineEnd?_eq_some_iff]
  constructor
  · intro h
    exact ⟨⟨h.number, h.first⟩, h.count_eq h.le (Nat.le_refl _), h.last⟩
  · rintro ⟨⟨hnumber, hfirst⟩, hstop, hlast⟩
    refine ⟨hnumber, hfirst, hlast, ?_, fun i hle hi hfeed => ?_⟩
    · exact start_le_of_count_le hfirst (by omega)
    · have := Nat.count_monotone (IsFeed s) hle
      have := Nat.count_strict_mono hfeed hi
      omega

theorem exists_isLine_iff : (∃ start stop, IsLine s line start stop) ↔ line < (ofText s).lineCount := by
  constructor
  · rintro ⟨start, stop, hline⟩
    have hend := (isLine_iff.mp hline).2
    rw [lineEnd?] at hend
    split at hend
    · assumption
    · cases hend
  · intro h
    have hstart : ∃ start, (ofText s).lineStart? line = some start := by
      cases line with
      | zero => exact ⟨0, rfl⟩
      | succ n =>
        have hn : n < (ofText s).feeds.size := Nat.lt_of_succ_lt_succ h
        rw [lineStart?, Array.getElem?_eq_getElem hn]
        exact ⟨_, rfl⟩
    obtain ⟨start, hstart⟩ := hstart
    exact ⟨start, _, isLine_iff.mpr ⟨hstart, if_pos h⟩⟩

theorem exists_isLine_count (h : i ≤ size s) :
    ∃ start stop, IsLine s (Nat.count (IsFeed s) i) start stop ∧ start ≤ i ∧ i ≤ stop := by
  have hle := Nat.count_monotone (IsFeed s) h
  obtain ⟨start, stop, hline⟩ := exists_isLine_iff.mpr
    (show Nat.count (IsFeed s) i < (ofText s).lineCount by rw [lineCount, size_feeds]; omega)
  refine ⟨start, stop, hline, start_le_of_count_le hline.first (Nat.le_of_eq hline.number), ?_⟩
  rcases hline.last with rfl | hfeed
  · exact h
  · refine Nat.le_of_not_lt fun hlt => ?_
    have := Nat.count_strict_mono hfeed hlt
    have := hline.count_eq hline.le (Nat.le_refl _)
    omega

/-! ## Both directions -/

theorem size_ofList_cons (c : Char) (l : List Char) :
    size (String.ofList (c :: l)) = c.utf8Size + size (String.ofList l) := by
  rw [← List.singleton_append, String.ofList_append, size_append]
  simp

theorem seek_eq_some_iff {start n o : Nat} {cs : List Char} : seek start n cs = some o ↔
    ∃ before behind, cs = before ++ behind ∧ length16 (String.ofList before) = n ∧
      start + size (String.ofList before) = o := by
  simp only [length16_eq_sum, String.toList_ofList]
  induction cs generalizing start n with
  | nil =>
    rw [seek]
    constructor
    · intro h
      split at h
      · rename_i hn
        obtain rfl := Option.some.inj h
        exact ⟨[], [], rfl, hn.symm, by simp⟩
      · cases h
    · rintro ⟨before, behind, hnil, hn, ho⟩
      obtain ⟨rfl, rfl⟩ := List.append_eq_nil_iff.mp hnil.symm
      rw [if_pos (by simpa using hn.symm), ← ho]
      simp
  | cons c cs ih =>
    -- a character has a unit at least, so that the search stops before `c` only for `n = 0`
    have hpos := units16_pos c
    rw [seek]
    constructor
    · intro h
      split at h
      · rename_i hn
        obtain rfl := Option.some.inj h
        exact ⟨[], c :: cs, rfl, hn.symm, by simp⟩
      · split at h
        · cases h
        · obtain ⟨before, behind, rfl, hn, rfl⟩ := ih.mp h
          refine ⟨c :: before, behind, rfl, ?_, ?_⟩
          · rw [List.map_cons, List.sum_cons]
            omega
          · rw [size_ofList_cons]
            omega
    · rintro ⟨before, behind, hsplit, hn, ho⟩
      cases before with
      | nil =>
        rw [if_pos (by simpa using hn.symm), ← ho]
        simp
      | cons c' before =>
        obtain ⟨rfl, rfl⟩ := List.cons.inj hsplit
        rw [List.map_cons, List.sum_cons] at hn
        rw [size_ofList_cons] at ho
        rw [if_neg (by omega), if_neg (by omega)]
        exact ih.mpr ⟨before, behind, rfl, by omega, by omega⟩

theorem seek_line {start stop n o : Nat} (h : IsLine s line start stop) :
    seek start n (slice s start stop).toList = some o ↔
      start ≤ o ∧ o ≤ stop ∧ isBoundary s o = true ∧ length16 (slice s start o) = n := by
  obtain ⟨hstands, hsize⟩ := stands_slice h.isBoundary_start h.isBoundary_stop h.le
  rw [seek_eq_some_iff]
  constructor
  · rintro ⟨before, behind, hsplit, rfl, rfl⟩
    have hslice : slice s start stop = String.ofList before ++ String.ofList behind := by
      rw [← String.toList_inj, hsplit, String.toList_append, String.toList_ofList, String.toList_ofList]
    rw [hslice] at hstands hsize
    rw [size_append] at hsize
    refine ⟨Nat.le_add_right .., by omega, hstands.left.isBoundary_stop, ?_⟩
    rw [hstands.left.slice]
  · rintro ⟨hle, hstop, hbound, hunits⟩
    have hsplit := slice_append h.isBoundary_start hbound h.isBoundary_stop hle hstop
    refine ⟨(slice s start o).toList, (slice s o stop).toList, ?_, ?_, ?_⟩
    · rw [← String.toList_append, hsplit]
    · rw [String.ofList_toList, hunits]
    · rw [String.ofList_toList, (stands_slice h.isBoundary_start hbound hle).2]

variable {o : Nat} {p : Position}

theorem positionAt_line {start stop : Nat} (h : IsLine s line start stop) (hle : start ≤ o)
    (hstop : o ≤ stop) (hbound : isBoundary s o = true) :
    (ofText s).positionAt s o = .ok ⟨line, length16 (slice s start o)⟩ := by
  have hsize := le_size_of_isBoundary hbound
  have hnot : ¬ (ofText s).length < o := Nat.not_lt_of_le hsize
  have hline : (ofText s).lineOf o = line := by rw [lineOf_ofText hsize, h.count_eq hle hstop]
  have hstart : (ofText s).lineStart? line = some start := (isLine_iff.mp h).1
  simp only [positionAt, if_neg hnot, hbound, hline, hstart, Option.getD_some]
  rfl

theorem isBoundary_of_positionAt (h : (ofText s).positionAt s o = .ok p) : isBoundary s o = true := by
  unfold positionAt at h
  split at h
  · cases h
  · split at h
    · cases h
    · simp_all

theorem positionAt_eq_ok_iff : (ofText s).positionAt s o = .ok p ↔ At s p o := by
  constructor
  · intro h
    have hbound := isBoundary_of_positionAt h
    obtain ⟨start, stop, hline, hle, hstop⟩ := exists_isLine_count (le_size_of_isBoundary hbound)
    rw [positionAt_line hline hle hstop hbound] at h
    obtain rfl := Except.ok.inj h
    exact ⟨start, stop, hline, hle, hstop, hbound, rfl⟩
  · rintro ⟨start, stop, hline, hle, hstop, hbound, hunits⟩
    rw [positionAt_line hline hle hstop hbound, hunits]

theorem exists_positionAt_iff : (∃ p, (ofText s).positionAt s o = .ok p) ↔ isBoundary s o = true := by
  refine ⟨fun ⟨p, hp⟩ => isBoundary_of_positionAt hp, fun hbound => ?_⟩
  obtain ⟨start, stop, hline, hle, hstop⟩ := exists_isLine_count (le_size_of_isBoundary hbound)
  exact ⟨_, positionAt_line hline hle hstop hbound⟩

theorem offsetAt_line {start stop : Nat} (h : IsLine s p.line start stop) :
    (ofText s).offsetAt s p = (seek start p.character (slice s start stop).toList).elim
      (.error (.character p.line p.character)) .ok := by
  obtain ⟨hstart, hstop⟩ := isLine_iff.mp h
  simp only [offsetAt, hstart, hstop]
  cases seek start p.character (slice s start stop).toList <;> rfl

theorem offsetAt_of_lineCount_le (h : (ofText s).lineCount ≤ p.line) :
    (ofText s).offsetAt s p = .error (.line p.line (ofText s).lineCount) := by
  have hnone : (ofText s).lineEnd? p.line = none := if_neg (Nat.not_lt_of_le h)
  rw [offsetAt, hnone]
  cases (ofText s).lineStart? p.line <;> rfl

/-- The offset of a position is its place, if it has one; without a place it is refused for its
line, or for its character. -/
theorem offsetAt_cases (s : String) (p : Position) :
    (∃ o, (ofText s).offsetAt s p = .ok o ∧ At s p o) ∨
    ((ofText s).offsetAt s p = .error (.line p.line (ofText s).lineCount) ∧
      (ofText s).lineCount ≤ p.line) ∨
    ((ofText s).offsetAt s p = .error (.character p.line p.character) ∧
      p.line < (ofText s).lineCount ∧ ∀ o, ¬ At s p o) := by
  by_cases hlt : p.line < (ofText s).lineCount
  · obtain ⟨start, stop, hline⟩ := exists_isLine_iff.mpr hlt
    rw [offsetAt_line hline]
    cases hseek : seek start p.character (slice s start stop).toList with
    | some o => exact .inl ⟨o, rfl, start, stop, hline, (seek_line hline).mp hseek⟩
    | none =>
      refine .inr (.inr ⟨rfl, hlt, ?_⟩)
      -- a place of the position would be on this very line, where none was found
      rintro o ⟨start', stop', hline', hplace⟩
      obtain ⟨hstart, hstop⟩ := isLine_iff.mp hline
      obtain ⟨hstart', hstop'⟩ := isLine_iff.mp hline'
      obtain rfl := Option.some.inj (hstart.symm.trans hstart')
      obtain rfl := Option.some.inj (hstop.symm.trans hstop')
      rw [(seek_line hline).mpr hplace] at hseek
      cases hseek
  · have hle := Nat.le_of_not_lt hlt
    exact .inr (.inl ⟨offsetAt_of_lineCount_le hle, hle⟩)

theorem offsetAt_eq_ok_iff : (ofText s).offsetAt s p = .ok o ↔ At s p o := by
  constructor
  · intro h
    rcases offsetAt_cases s p with ⟨o', ho, hat⟩ | ⟨herror, -⟩ | ⟨herror, -⟩
    · obtain rfl := Except.ok.inj (h.symm.trans ho)
      exact hat
    all_goals
      rw [h] at herror
      cases herror
  · rintro ⟨start, stop, hline, hplace⟩
    rw [offsetAt_line hline, (seek_line hline).mpr hplace]
    rfl

end LineIndex

/-! ## The order -/

theorem Position.lt_iff {p q : Position} : p.lt q = true ↔
    p.line < q.line ∨ p.line = q.line ∧ p.character < q.character := by
  simp [Position.lt, Position.compare, Ordering.isLT_then, Nat.compare_eq_lt]

theorem Text.At.lt {s : String} {p q : Position} {o r : Nat} (hp : At s p o) (hq : At s q r)
    (hlt : o < r) : p.lt q = true := by
  obtain ⟨start, stop, hline, hle, hstop, hbound, hunits⟩ := hp
  obtain ⟨start', stop', hline', hle', hstop', hbound', hunits'⟩ := hq
  rw [Position.lt_iff]
  have hcount := Nat.count_monotone (IsFeed s) (Nat.le_of_lt hlt)
  rw [hline.count_eq hle hstop, hline'.count_eq hle' hstop'] at hcount
  -- on one line the units between the two places decide
  rcases Nat.lt_or_eq_of_le hcount with hless | heq
  · exact .inl hless
  · refine .inr ⟨heq, ?_⟩
    rw [heq, LineIndex.isLine_iff] at hline
    have hstart := (LineIndex.isLine_iff.mp hline').1
    obtain rfl := Option.some.inj (hline.1.symm.trans hstart)
    rw [← hunits, ← hunits']
    exact length16_slice_lt hline'.isBoundary_start hbound hbound' hle hlt

namespace LineIndex

/-- Offsets and positions of a text stand for each other: the boundaries have positions, in the same
order, and the positions that denote a boundary of their line have offsets; all others are refused
for the line or for the character. -/
structure Corresponds (s : String) : Prop where
  lineCount : (ofText s).lineCount = Nat.count (IsFeed s) (size s) + 1
  position : ∀ o, (∃ p, (ofText s).positionAt s o = .ok p) ↔ o ≤ size s ∧ isBoundary s o = true
  place : ∀ o p, (ofText s).positionAt s o = .ok p ↔ At s p o
  offset_position : ∀ o p, (ofText s).positionAt s o = .ok p → (ofText s).offsetAt s p = .ok o
  position_offset : ∀ o p, (ofText s).offsetAt s p = .ok o → (ofText s).positionAt s o = .ok p
  line_error : ∀ p line n, (ofText s).offsetAt s p = .error (.line line n) ↔
    (ofText s).lineCount ≤ p.line ∧ line = p.line ∧ n = (ofText s).lineCount
  character_error : ∀ p line n, (ofText s).offsetAt s p = .error (.character line n) ↔
    (p.line < (ofText s).lineCount ∧ ∀ start stop, IsLine s p.line start stop →
      ∀ o, start ≤ o → o ≤ stop → isBoundary s o = true →
        length16 (slice s start o) ≠ p.character) ∧ line = p.line ∧ n = p.character
  increasing : ∀ o r p q, (ofText s).positionAt s o = .ok p → (ofText s).positionAt s r = .ok q →
    o < r → p.lt q = true

/-- **Offsets and positions** of every text stand for each other. -/
theorem offsets_correspond (s : String) : Corresponds s where
  lineCount := by rw [lineCount, size_feeds]
  position o := by
    rw [exists_positionAt_iff]
    exact ⟨fun h => ⟨le_size_of_isBoundary h, h⟩, And.right⟩
  place _ _ := positionAt_eq_ok_iff
  offset_position _ _ h := offsetAt_eq_ok_iff.mpr (positionAt_eq_ok_iff.mp h)
  position_offset _ _ h := positionAt_eq_ok_iff.mpr (offsetAt_eq_ok_iff.mp h)
  line_error p line n := by
    rcases offsetAt_cases s p with ⟨o, ho, start, stop, hline, -⟩ | ⟨herror, hle⟩ | ⟨herror, hlt, -⟩
    · have := exists_isLine_iff.mp ⟨start, stop, hline⟩
      simp [ho]
      omega
    · simp [herror, hle, eq_comm]
    · simp [herror, hlt]
  character_error p line n := by
    rcases offsetAt_cases s p with ⟨o, ho, start, stop, hline, hle, hstop, hbound, hunits⟩ |
      ⟨herror, hle⟩ | ⟨herror, hlt, hnone⟩
    · rw [ho]
      refine ⟨nofun, fun h => absurd hunits ?_⟩
      exact h.1.2 start stop hline o hle hstop hbound
    · rw [herror]
      refine ⟨nofun, fun h => absurd h.1.1 (Nat.not_lt_of_le hle)⟩
    · have hunits : ∀ start stop, IsLine s p.line start stop → ∀ o, start ≤ o → o ≤ stop →
          isBoundary s o = true → length16 (slice s start o) ≠ p.character :=
        fun start stop hline o hle hstop hbound hunits =>
          hnone o ⟨start, stop, hline, hle, hstop, hbound, hunits⟩
      rw [herror, and_iff_right (And.intro hlt hunits)]
      simp [eq_comm]
  increasing _ _ _ _ hp hq hlt := (positionAt_eq_ok_iff.mp hp).lt (positionAt_eq_ok_iff.mp hq) hlt

end LineIndex

end XmlAssist

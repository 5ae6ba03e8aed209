import XmlAssist.Proofs.Lexer.Order
import XmlAssist.Proofs.Text.Stretch

/-!
# Reading a stretch at another place

A lexer that stands at the start of a stretch of one text and a lexer in the same state that stands
at the start of the same stretch in another text read the same token there (`lex_stretch`). Most
tokens end at a `<` at the latest, so that it does not matter what follows the stretch. The others
look for a closing literal as far as the text goes (`Mode.looksFar`): they are the same if they stop
in the stretch, where at its end both texts must agree on whether they end there too.
-/

namespace XmlAssist

def Lexer.goTo (x : Lexer) (pos : Nat) : Lexer := { x with pos }

/-- What is read at `i`, read at `i'`. -/
def Lexed.shift (i i' : Nat) (r : Lexed) : Lexed :=
  { r with lexer := r.lexer.goTo (Text.shift i i' r.lexer.pos) }

namespace Lexer

open Text (Stretch shift shift_self shift_add byte? size)

section goTo
variable (x : Lexer) (pos pos' : Nat)

@[simp] theorem goTo_pos : (x.goTo pos).pos = pos := rfl
@[simp] theorem goTo_mode : (x.goTo pos).mode = x.mode := rfl
@[simp] theorem goTo_spaced : (x.goTo pos).spaced = x.spaced := rfl
@[simp] theorem goTo_inProlog : (x.goTo pos).inProlog = x.inProlog := rfl
@[simp] theorem goTo_inSubset : (x.goTo pos).inSubset = x.inSubset := rfl
@[simp] theorem goTo_inDtd : (x.goTo pos).inDtd = x.inDtd := rfl
@[simp] theorem goTo_contentMode : (x.goTo pos).contentMode = x.contentMode := rfl
@[simp] theorem goTo_tagMode : (x.goTo pos).tagMode = x.tagMode := rfl
@[simp] theorem goTo_goTo : (x.goTo pos).goTo pos' = x.goTo pos' := rfl
@[simp] theorem goTo_self : x.goTo x.pos = x := rfl

end goTo

/-- The mode looks for what closes its construct beyond the next `<`. -/
def Mode.looksFar : Mode → Bool
  | .inComment | .inCData | .afterInstructionOpen | .inInstruction | .declaration .entityNamed => true
  | _ => false

/-- A token that stops at `stop` stops in the stretch, and if it stops at the end of the stretch, then
either both texts end there or none. -/
structure StopsIn (s : String) (i : Nat) (s' : String) (i' n stop : Nat) : Prop where
  le : stop ≤ i + n
  last : stop < i + n ∨ (size s = i + n ↔ size s' = i' + n)

variable {s s' : String} {x : Lexer} {i i' n : Nat} {u : List UInt8}

theorem shift_emit (kind : Token.Kind) (k : Nat) (mode : Mode) (fault : Option Token.Fault) :
    (x.emit kind (x.pos + k) mode fault).shift x.pos i' =
      (x.goTo i').emit kind (i' + k) mode fault := by
  simp only [Lexed.shift, emit, goTo, shift_add]

/-! ## Far looks -/

theorem find?_stretch {lit : List UInt8} (m : Stretch s i s' i' n) (hne : lit ≠ []) (hlit : 0x3C ∉ lit) :
    (∃ k < n, Text.find? lit s i = some (i + k) ∧ Text.find? lit s' i' = some (i' + k)) ∨
      ((∀ j ∈ Text.find? lit s i, i + n < j) ∧ ∀ j ∈ Text.find? lit s' i', i' + n < j) := by
  have hpos : 0 < lit.length := List.length_pos_iff.mpr hne
  induction n generalizing i i' with
  | zero =>
    have hbehind {t : String} {j : Nat} (h : Text.startsAt t j lit = false) :
        ∀ k ∈ Text.find? lit t j, j + 0 < k := by
      intro k hk
      rw [Text.find?, h, if_neg (by simp)] at hk
      split at hk
      · exact (Text.startsAt_of_find? hk).1
      · cases hk
    have hstarts {t t' : String} {j j' : Nat} (m : Stretch t j t' j' 0) :
        Text.startsAt t j lit = false :=
      Bool.eq_false_iff.mpr fun h => absurd (m.le_of_startsAt hlit h) (Nat.not_le_of_lt hpos)
    exact .inr ⟨hbehind (hstarts m), hbehind (hstarts m.symm)⟩
  | succ n ih =>
    have hlt : i < size s := by
      obtain ⟨b, hb⟩ := m.exists_byte? (Nat.succ_pos n)
      exact Text.lt_size_of_byte? hb
    have hlt' : i' < size s' := by
      obtain ⟨b, hb⟩ := m.symm.exists_byte? (Nat.succ_pos n)
      exact Text.lt_size_of_byte? hb
    have hsame := m.startsAt_eq (l := lit) (Nat.succ_pos n) fun h => hlit (List.mem_of_mem_tail h)
    rw [Text.find?, Text.find?.eq_1 lit s', hsame]
    split
    · exact .inl ⟨0, Nat.succ_pos n, rfl, rfl⟩
    · rcases ih (m.drop (k := 1) (Nat.succ_le_succ (Nat.zero_le n))) with ⟨k, hk, h, h'⟩ | ⟨h, h'⟩
      · exact .inl ⟨k + 1, Nat.succ_lt_succ hk, by rw [h, Nat.add_assoc, Nat.add_comm 1],
          by rw [h', Nat.add_assoc, Nat.add_comm 1]⟩
      · exact .inr ⟨fun j hj => by have := h j hj; omega, fun j hj => by have := h' j hj; omega⟩

theorem seesTag_eq (x : Lexer) : x.seesTag s =
    (x.sees s 0x3C && (byte? s (x.pos + 1)).any fun b => b == 0x2F || isNameStart b) := by
  unfold seesTag
  cases byte? s (x.pos + 1) <;> rfl

section stretch
variable (m : Stretch s x.pos s' i' n) (hn : 0 < n)
include m hn

theorem until?_stretch {lit : String} (hne : Text.bytesOf lit ≠ []) (hlit : 0x3C ∉ Text.bytesOf lit)
    (h : StopsIn s x.pos s' i' n (until? lit s x.pos).1) :
    until? lit s' i' = (shift x.pos i' (until? lit s x.pos).1, (until? lit s x.pos).2) := by
  rcases find?_stretch m hne hlit with ⟨k, -, hk, hk'⟩ | ⟨hs, hs'⟩
  · simp only [until?, hk, hk', shift_add]
  · have hnone : Text.find? (Text.bytesOf lit) s x.pos = none := by
      refine Option.eq_none_iff_forall_ne_some.mpr fun j hj => ?_
      have hle := h.le
      simp only [until?, hj] at hle
      exact Nat.lt_irrefl _ (Nat.lt_of_lt_of_le (hs j hj) hle)
    have hstop : (until? lit s x.pos).1 = size s := by simp only [until?, hnone]
    have hsize : size s = x.pos + n := by
      obtain ⟨b, hb⟩ := m.exists_byte? (k := n - 1) (by omega)
      have := Text.lt_size_of_byte? hb
      have := h.le
      omega
    have hsize' : size s' = i' + n := (h.last.resolve_left (by omega)).mp hsize
    have hnone' : Text.find? (Text.bytesOf lit) s' i' = none := by
      refine Option.eq_none_iff_forall_ne_some.mpr fun j hj => ?_
      have hlt := hs' j hj
      have hstarts := (Text.startsAt_of_find? hj).2
      obtain ⟨b, lit, hlit⟩ := List.exists_cons_of_ne_nil hne
      rw [hlit, Text.startsAt, Bool.and_eq_true, beq_iff_eq] at hstarts
      have := Text.lt_size_of_byte? hstarts.1
      omega
    simp only [until?, hnone, hnone', hsize, hsize', shift_add]

/-! ## Content -/

theorem sees_stretch (b : UInt8) : (x.goTo i').sees s' b = x.sees s b := by
  have := m.byte?_of_lt (k := 0) hn
  rw [sees, sees, peek, peek, goTo_pos]
  exact congrArg (· == some b) this

theorem firstOpener_stretch {l : List (String × Token.Kind × Mode)}
    (ho : ∀ o ∈ l, 0x3C ∉ (Text.bytesOf o.1).tail) :
    firstOpener s' (x.goTo i') l = (firstOpener s x l).map (·.shift x.pos i') := by
  induction l with
  | nil => rfl
  | cons o l ih =>
    obtain ⟨lit, kind, mode⟩ := o
    rw [firstOpener, firstOpener, goTo_pos, literal?_stretch m hn (ho _ List.mem_cons_self)]
    cases literal? lit s x.pos with
    | none => exact ih fun o h => ho o (List.mem_cons_of_mem _ h)
    | some pos => rfl

theorem content_stretch : content s' (x.goTo i') = (content s x).shift x.pos i' := by
  rw [content, content, firstOpener_stretch m hn (by decide), goTo_pos, untilAny_stretch m (by decide)]
  cases firstOpener s x contentOpeners <;> rfl

theorem seesTag_stretch : (x.goTo i').seesTag s' = x.seesTag s := by
  have hnext := m.test (fun o => o.any fun b => b == 0x2F || isNameStart b) (by decide) (k := 1) hn
  rw [seesTag_eq, seesTag_eq, sees_stretch m hn]
  exact congrArg (x.sees s 0x3C && ·) hnext

theorem dtdContent_stretch : dtdContent s' (x.goTo i') = (dtdContent s x).shift x.pos i' := by
  have hspace : space? s' (x.goTo i').pos = (space? s x.pos).map (shift x.pos i') := space?_stretch m
  rw [dtdContent, dtdContent, hspace, sees_stretch m hn, sees_stretch m hn, seesTag_stretch m hn,
    firstOpener_stretch m hn (l := dtdOpeners) (by decide)]
  cases space? s x.pos with
  | some pos => rfl
  | none =>
    show (if (x.inSubset && x.sees s 0x5D) = true then _ else _) =
      Lexed.shift x.pos i' (if (x.inSubset && x.sees s 0x5D) = true then _ else _)
    split
    · exact (shift_emit (x := { x with inSubset := false }) _ 1 _ _).symm
    cases firstOpener s x dtdOpeners with
    | some r => rfl
    | none =>
      show (if (x.inSubset && x.seesTag s) = true then _ else _) =
        Lexed.shift x.pos i' (if (x.inSubset && x.seesTag s) = true then _ else _)
      split
      · exact content_stretch (x := { x with inSubset := false, mode := .content }) m hn
      · have hstops : (0x3C : UInt8) ∈ (if x.inSubset then [0x3C, 0x5D] else [0x3C]) := by
          split <;> decide
        have hstart {stops : List UInt8} (hstops : 0x3C ∈ stops) :
            untilAny stops s' (if x.sees s 0x3C then i' + 1 else i') =
              shift x.pos i' (untilAny stops s (if x.sees s 0x3C then x.pos + 1 else x.pos)) := by
          split
          · exact (untilAny_stretch (m.drop hn) hstops).trans (Text.shift_add_left (le_untilAny _))
          · exact untilAny_stretch m hstops
        exact congrArg (fun pos => (x.goTo i').emit .text pos x.mode) (hstart hstops)

theorem betweenMarkup_stretch : betweenMarkup s' (x.goTo i') = (betweenMarkup s x).shift x.pos i' := by
  rw [betweenMarkup, betweenMarkup, goTo_inDtd]
  split
  · exact dtdContent_stretch (x := { x with mode := .dtdContent }) m hn
  · exact content_stretch (x := { x with mode := .content }) m hn

/-! ## Tags -/

theorem nextChar_stretch : Text.nextChar s' i' = shift x.pos i' (Text.nextChar s x.pos) := by
  obtain ⟨b, hb⟩ := m.exists_byte? hn
  obtain ⟨b', hb'⟩ := m.symm.exists_byte? hn
  exact m.nextChar_eq hn (Text.lt_size_of_byte? hb) (Text.lt_size_of_byte? hb')

theorem insideTag_stretch : insideTag s' (x.goTo i') = (insideTag s x).shift x.pos i' := by
  have hspace : space? s' (x.goTo i').pos = (space? s x.pos).map (shift x.pos i') := space?_stretch m
  have hprolog : (if (x.goTo i').inProlog then literal? "?>" s' (x.goTo i').pos else none) =
      (if x.inProlog then literal? "?>" s x.pos else none).map (shift x.pos i') := by
    rw [goTo_pos, literal?_stretch m hn (by decide), goTo_inProlog]
    split <;> rfl
  have hname : (if (x.goTo i').spaced then name? s' (x.goTo i').pos else none) =
      (if x.spaced then name? s x.pos else none).map (shift x.pos i') := by
    rw [goTo_pos, name?_stretch m, goTo_spaced]
    split <;> rfl
  have hclose : (if (x.goTo i').inProlog then none else literal? "/>" s' (x.goTo i').pos) =
      (if x.inProlog then none else literal? "/>" s x.pos).map (shift x.pos i') := by
    rw [goTo_pos, literal?_stretch m hn (by decide), goTo_inProlog]
    split <;> rfl
  have hnext : Text.nextChar s' (x.goTo i').pos = shift x.pos i' (Text.nextChar s x.pos) :=
    nextChar_stretch m hn
  rw [insideTag, insideTag, hspace, hprolog, hname, hclose, hnext, sees_stretch m hn, sees_stretch m hn]
  cases space? s x.pos with
  | some pos => rfl
  | none =>
  cases if x.inProlog then literal? "?>" s x.pos else none with
  | some pos => rfl
  | none =>
  cases if x.spaced then name? s x.pos else none with
  | some pos => rfl
  | none =>
  cases if x.inProlog then none else literal? "/>" s x.pos with
  | some pos => rfl
  | none =>
    show (if (!x.inProlog && x.sees s 0x3E) = true then _ else if x.sees s 0x3C = true then _ else _) =
      Lexed.shift x.pos i'
        (if (!x.inProlog && x.sees s 0x3E) = true then _ else if x.sees s 0x3C = true then _ else _)
    split
    · exact (shift_emit _ 1 _ _).symm
    · split
      · exact betweenMarkup_stretch (x := { x with inProlog := false }) m hn
      · rfl

theorem backInTag_stretch : backInTag s' (x.goTo i') = (backInTag s x).shift x.pos i' :=
  insideTag_stretch (x := { x with mode := x.tagMode }) m hn

theorem startTag_stretch : startTag s' (x.goTo i') = (startTag s x).shift x.pos i' := by
  rw [startTag, startTag, goTo_pos, name?_stretch m]
  cases name? s x.pos with
  | some pos => rfl
  | none =>
    rw [space?_stretch m]
    cases space? s x.pos with
    | some pos => rfl
    | none => exact insideTag_stretch (x := { x with mode := .inTag, spaced := false }) m hn

theorem insideEndTag_stretch : insideEndTag s' (x.goTo i') = (insideEndTag s x).shift x.pos i' := by
  rw [insideEndTag, insideEndTag, goTo_pos, space?_stretch m]
  cases space? s x.pos with
  | some pos => rfl
  | none =>
    simp only [Option.map_none, sees_stretch m hn, untilAny_stretch m (u := [0x3C, 0x3E]) (by decide)]
    split
    · exact (shift_emit _ 1 _ _).symm
    · split
      · exact content_stretch (x := { x with mode := .content }) m hn
      · rfl

theorem endTag_stretch : endTag s' (x.goTo i') = (endTag s x).shift x.pos i' := by
  rw [endTag, endTag, goTo_pos, name?_stretch m]
  cases name? s x.pos with
  | some pos => rfl
  | none =>
    rw [space?_stretch m]
    cases space? s x.pos with
    | some pos => rfl
    | none => exact insideEndTag_stretch (x := { x with mode := .inEndTag }) m hn

theorem attributeAssign_stretch :
    attributeAssign s' (x.goTo i') = (attributeAssign s x).shift x.pos i' := by
  rw [attributeAssign, attributeAssign, goTo_pos, space?_stretch m]
  cases space? s x.pos with
  | some pos => rfl
  | none =>
    simp only [Option.map_none, sees_stretch m hn]
    split
    · exact (shift_emit _ 1 _ _).symm
    · exact backInTag_stretch m hn

end stretch

theorem unquotedStop_stretch (m : Stretch s i s' i' n) :
    ∃ k ≤ n, unquotedStop s i = i + k ∧ unquotedStop s' i' = i' + k := by
  obtain ⟨k, hk, h, h'⟩ := m.skipWhile_eq_takeWhile (p := isUnquotedValue) (by decide)
  have hclose := m.test (· == some 0x3E) (by decide) hk
  rw [unquotedStop, unquotedStop, h, h']
  simp only [hclose]
  rcases Nat.lt_or_ge 1 k with hlt | hge
  · have hslash := m.byte?_of_lt (k := k - 1) (by omega)
    rw [Nat.add_sub_assoc (by omega), Nat.add_sub_assoc (by omega), hslash]
    simp only [Nat.add_lt_add_iff_left, hlt]
    split
    · exact ⟨k - 1, by omega, rfl, rfl⟩
    · exact ⟨k, hk, rfl, rfl⟩
  · have hnot : ¬ 1 < k := Nat.not_lt_of_le hge
    simp only [Nat.add_lt_add_iff_left, hnot, decide_false, Bool.and_false, Bool.false_and,
      Bool.false_eq_true, if_false]
    exact ⟨k, hk, rfl, rfl⟩

theorem min_skipWhile (p q : UInt8 → Bool) (s : String) (i : Nat) :
    min (Text.skipWhile p s i) (Text.skipWhile q s i) = Text.skipWhile (fun b => p b && q b) s i := by
  have hlist (l : List UInt8) : min (l.takeWhile p).length (l.takeWhile q).length =
      (l.takeWhile fun b => p b && q b).length := by
    induction l with
    | nil => rfl
    | cons b l ih =>
      cases hp : p b <;> cases hq : q b <;> simp [hp, hq, Nat.succ_min_succ, ih]
  rw [Text.skipWhile_eq, Text.skipWhile_eq, Text.skipWhile_eq, ← hlist, Nat.add_min_add_left]

theorem le_instruction (hxml : Text.startsAt s x.pos (Text.bytesOf "xml") = true) :
    x.pos + 3 ≤ (instruction s x).lexer.pos := by
  rw [Text.startsAt_eq, List.isPrefixOf_iff_prefix] at hxml
  obtain ⟨r, hr⟩ := hxml
  have hrest : Text.rest s x.pos = 0x78 :: 0x6D :: 0x6C :: r := hr.symm
  have hname : name? s x.pos = some (Text.skipWhile isName s x.pos) := by
    rw [name?, Text.byte?_of_rest hrest]
    rfl
  have hle : x.pos + 3 ≤ Text.skipWhile isName s x.pos := by
    rw [Text.skipWhile_eq, hrest, List.takeWhile_cons_of_pos (by decide),
      List.takeWhile_cons_of_pos (by decide), List.takeWhile_cons_of_pos (by decide)]
    simp only [List.length_cons]
    omega
  rw [instruction]
  split
  · exact Nat.le_refl _
  · rw [hname]
    exact hle

theorem quotedValueStop_stretch {q : UInt8} (m : Stretch s i s' i' n) (hn : 0 < n)
    (hq : isQuoteByte q = true) : quotedValueStop q s' i' =
      (shift i i' (quotedValueStop q s i).1, (quotedValueStop q s i).2) := by
  have hne : q ≠ 0x3C := by
    rintro rfl
    cases hq
  obtain ⟨k, hk, h, h'⟩ : ∃ k ≤ n - 1, untilAny [q, 0x3C] s (i + 1) = i + 1 + k ∧
      untilAny [q, 0x3C] s' (i' + 1) = i' + 1 + k := (m.drop hn).skipWhile_eq_takeWhile (by simp)
  -- the earlier of the bracket and of the `>`, so that what follows the stretch is not asked
  obtain ⟨l, -, hl, hl'⟩ : ∃ l ≤ n - 1,
      min (untilAny [q, 0x3C] s (i + 1)) (untilAny [0x3E] s (i + 1)) = i + 1 + l ∧
      min (untilAny [q, 0x3C] s' (i' + 1)) (untilAny [0x3E] s' (i' + 1)) = i' + 1 + l := by
    rw [untilAny, untilAny, untilAny, untilAny, Text.skipUntil, Text.skipUntil, Text.skipUntil,
      Text.skipUntil, min_skipWhile, min_skipWhile]
    exact (m.drop hn).skipWhile_eq_takeWhile (by simp)
  have hclose := m.test (· == some q) (by simpa using hne.symm) (k := 1 + k) (by omega)
  rw [← Nat.add_assoc, ← Nat.add_assoc] at hclose
  have hsame (t : String) (j : Nat) : quotedValueStop q t j =
      if byte? t (untilAny [q, 0x3C] t (j + 1)) == some q then (untilAny [q, 0x3C] t (j + 1) + 1, true)
      else (min (untilAny [q, 0x3C] t (j + 1)) (untilAny [0x3E] t (j + 1)), false) := rfl
  rw [hsame, hsame, hl, hl', h, h', hclose]
  split
  · simp only [Nat.add_assoc, shift_add]
  · simp only [Nat.add_assoc, shift_add]

section stretch
variable (m : Stretch s x.pos s' i' n) (hn : 0 < n)
include m hn

theorem attributeValue_stretch :
    attributeValue s' (x.goTo i') = (attributeValue s x).shift x.pos i' := by
  have hspace : space? s' (x.goTo i').pos = (space? s x.pos).map (shift x.pos i') := space?_stretch m
  have hpeek : (x.goTo i').peek s' = x.peek s := m.byte?_of_lt (k := 0) hn
  obtain ⟨k, -, h, h'⟩ := unquotedStop_stretch m
  rw [attributeValue, attributeValue, hspace, hpeek]
  cases space? s x.pos with
  | some pos => rfl
  | none =>
    cases hq : (x.peek s).filter isQuoteByte with
    | some q =>
      obtain ⟨-, hq⟩ := Option.filter_eq_some_iff.mp hq
      simp only [Option.map_none, goTo_pos, quotedValueStop_stretch m hn hq]
      rfl
    | none =>
      have hlt : decide (i' < i' + k) = decide (x.pos < x.pos + k) := by simp
      have hslash : (i' + k == i' + 1) = (x.pos + k == x.pos + 1) := by
        rw [Bool.eq_iff_iff]
        simp
      simp only [Option.map_none, goTo_pos, h, h', sees_stretch m hn, hlt, hslash]
      split
      · exact (shift_emit (x := { x with spaced := false }) _ k _ _).symm
      · exact backInTag_stretch (x := { x with spaced := false }) m hn

/-! ## Comments, CDATA sections and instructions -/

theorem delimited_stretch {close : String} {inside closing : Token.Kind} {fault : Token.Fault}
    (hne : Text.bytesOf close ≠ []) (hclose : 0x3C ∉ Text.bytesOf close)
    (h : StopsIn s x.pos s' i' n (delimited close inside closing fault s x).lexer.pos) :
    delimited close inside closing fault s' (x.goTo i') =
      (delimited close inside closing fault s x).shift x.pos i' := by
  rw [delimited] at h
  rw [delimited, delimited, goTo_pos, literal?_stretch m hn fun h => hclose (List.mem_of_mem_tail h)]
  cases hlit : literal? close s x.pos with
  | some pos => rfl
  | none =>
    rw [hlit] at h
    simp only [Option.map_none, until?_stretch m hn hne hclose h]
    rfl

theorem insideInstruction_stretch
    (h : StopsIn s x.pos s' i' n (insideInstruction s x).lexer.pos) :
    insideInstruction s' (x.goTo i') = (insideInstruction s x).shift x.pos i' := by
  rw [insideInstruction] at h
  rw [insideInstruction, insideInstruction, goTo_pos, space?_stretch m]
  cases hspace : space? s x.pos with
  | some pos => rfl
  | none =>
    rw [hspace] at h
    exact delimited_stretch m hn (by decide) (by decide) h

theorem seesPrologName_stretch (hxml : Text.startsAt s x.pos (Text.bytesOf "xml") = true)
    (h : StopsIn s x.pos s' i' n (x.pos + 3)) :
    (x.goTo i').seesPrologName s' = x.seesPrologName s := by
  have hstarts := m.startsAt_eq (l := Text.bytesOf "xml") hn (by decide)
  have hbehind : (byte? s' (i' + 3)).all (fun b => isSpace b || b == 0x3F) =
      (byte? s (x.pos + 3)).all fun b => isSpace b || b == 0x3F := by
    have hle : 3 ≤ n := m.le_of_startsAt (l := Text.bytesOf "xml") (by decide) hxml
    rcases Nat.lt_or_eq_of_le hle with hlt | rfl
    · rw [m.byte?_of_lt hlt]
    · -- behind the stretch there is a bracket, which is no white space, unless the text ends there
      have hsize {t t' : String} {j j' : Nat} (m : Stretch t j t' j' 3) :
          byte? t (j + 3) = none ↔ size t = j + 3 := by
        obtain ⟨b, hb⟩ := m.exists_byte? (k := 2) (by decide)
        have hlt := Text.lt_size_of_byte? hb
        rw [byte?, dite_eq_right_iff]
        simp only [reduceCtorEq, imp_false]
        show ¬ j + 3 < size t ↔ _
        omega
      have hlast := (hsize m).trans ((h.last.resolve_left (Nat.lt_irrefl _)).trans (hsize m.symm).symm)
      rcases m.byte?_stop with hs | hs
      · rw [hs, hlast.mp hs]
      · rcases m.symm.byte?_stop with hs' | hs'
        · rw [hlast.mpr hs'] at hs
          cases hs
        · rw [hs, hs']
  have heq (t : String) (y : Lexer) : y.seesPrologName t = (Text.startsAt t y.pos (Text.bytesOf "xml") &&
      (byte? t (y.pos + 3)).all fun b => isSpace b || b == 0x3F) := by
    rw [seesPrologName]
    cases byte? t (y.pos + 3) <;> rfl
  rw [heq, heq, goTo_pos, hstarts, hbehind]

theorem instruction_stretch (hstart : x.pos = 2 ↔ i' = 2)
    (h : StopsIn s x.pos s' i' n (instruction s x).lexer.pos) :
    instruction s' (x.goTo i') = (instruction s x).shift x.pos i' := by
  have hxml : ((x.goTo i').pos == 2 && (x.goTo i').seesPrologName s') =
      (x.pos == 2 && x.seesPrologName s) := by
    have hpos : ((x.goTo i').pos == 2) = (x.pos == 2) := by
      rw [Bool.eq_iff_iff, beq_iff_eq, beq_iff_eq]
      exact hstart.symm
    rw [hpos]
    cases htwo : x.pos == 2 with
    | false => rfl
    | true =>
      cases hxml : Text.startsAt s x.pos (Text.bytesOf "xml") with
      | false =>
        have hxml' := (m.startsAt_eq (l := Text.bytesOf "xml") hn (by decide)).trans hxml
        rw [seesPrologName, seesPrologName, goTo_pos, hxml, hxml']
        rfl
      | true =>
        refine congrArg (true && ·) (seesPrologName_stretch m hn hxml ⟨?_, ?_⟩)
        · exact Nat.add_le_add_left (m.le_of_startsAt (l := Text.bytesOf "xml") (by decide) hxml) _
        · exact h.last.imp_left fun hlt => Nat.lt_of_le_of_lt (le_instruction hxml) hlt
  have hname : name? s' (x.goTo i').pos = (name? s x.pos).map (shift x.pos i') := name?_stretch m
  rw [instruction] at h
  rw [instruction, instruction, hxml, hname]
  cases hsees : x.pos == 2 && x.seesPrologName s with
  | true => exact (shift_emit (x := { x with inProlog := true, spaced := false }) _ 3 _ _).symm
  | false =>
    rw [hsees] at h
    cases hnone : name? s x.pos with
    | some pos => rfl
    | none =>
      rw [hnone] at h
      exact insideInstruction_stretch (x := { x with mode := .inInstruction }) m hn h

/-! ## Document types and declarations -/

theorem unrecognized_stretch (hstops : 0x3C ∈ u) :
    unrecognized u s' (x.goTo i') = (unrecognized u s x).shift x.pos i' := by
  obtain ⟨k, -, h, h'⟩ : ∃ k ≤ n, untilAny u s x.pos = x.pos + k ∧ untilAny u s' i' = i' + k :=
    m.skipWhile_eq_takeWhile (by simpa using hstops)
  have hnone : (i' + k == i') = (x.pos + k == x.pos) := by
    rw [Bool.eq_iff_iff]
    simp
  simp only [unrecognized, goTo_pos, h, h', hnone]
  split
  · rw [nextChar_stretch m hn]
    rfl
  · exact (shift_emit _ k _ _).symm

omit m hn in
theorem getD_map_stretch {α : Type} {o o' : Option α} {f e : α → Lexed} {r r' : Lexed} {g : α → α}
    (ho : o' = o.map g) (hf : ∀ a, e (g a) = (f a).shift x.pos i') (hr : r' = r.shift x.pos i') :
    (o'.map e).getD r' = ((o.map f).getD r).shift x.pos i' := by
  subst ho hr
  cases o with
  | none => rfl
  | some a => exact hf a

theorem doctypeParameter_stretch (stage : DoctypeStage) :
    doctypeParameter s' (x.goTo i') stage = (doctypeParameter s x stage).shift x.pos i' := by
  have hjunk := unrecognized_stretch m hn (u := [0x3C, 0x3E, 0x5B]) (by decide)
  cases stage with
  | start => exact getD_map_stretch (name?_stretch m) (fun _ => rfl) hjunk
  | named =>
    have hpublic := keyword?_stretch m (w := "PUBLIC") hn (by decide)
    simp only [doctypeParameter, goTo_pos, hpublic]
    cases keyword? "PUBLIC" s x.pos with
    | some pos => rfl
    | none => exact getD_map_stretch (keyword?_stretch m hn (by decide)) (fun _ => rfl) hjunk
  | publicKeyword | publicId | systemKeyword =>
    exact getD_map_stretch (quoted?_stretch m (by decide)) (fun _ => rfl) hjunk
  | ids | subset => exact hjunk

theorem doctype_stretch (stage : DoctypeStage) :
    doctype s' (x.goTo i') stage = (doctype s x stage).shift x.pos i' := by
  rw [doctype, doctype, goTo_pos, space?_stretch m, sees_stretch m hn, sees_stretch m hn,
    sees_stretch m hn]
  cases space? s x.pos with
  | some pos => rfl
  | none =>
    simp only [Option.map_none]
    split
    · exact (shift_emit (x := { x with inSubset := true }) _ 1 _ _).symm
    split
    · exact (shift_emit (x := { x with inSubset := false }) _ 1 _ _).symm
    split
    · exact content_stretch (x := { x with inSubset := false, mode := .content }) m hn
    · exact doctypeParameter_stretch m hn stage

end stretch

theorem groupStop_stretch (m : Stretch s i s' i' n) (hn : 0 < n) :
    groupStop s' i' = shift i i' (groupStop s i) := by
  obtain ⟨k, hk, h, h'⟩ := groupEnd_stretch (d := 0) (m.drop hn)
  have hclose := m.test (· == some 0x29) (by decide) (k := 1 + k) (by omega)
  rw [← Nat.add_assoc, ← Nat.add_assoc] at hclose
  have heq (t : String) (j : Nat) : groupStop t j =
      if byte? t (groupEnd t (j + 1) 0) == some 0x29 then groupEnd t (j + 1) 0 + 1
      else groupEnd t (j + 1) 0 := rfl
  rw [heq, heq, h, h', hclose]
  split
  · simp only [Nat.add_assoc, shift_add]
  · simp only [Nat.add_assoc, shift_add]

theorem pos_of_sees (m : Stretch s i s' i' n) {b : UInt8} (hb : b ≠ 0x3C)
    (h : (byte? s i == some b) = true) : 0 < n := by
  refine Nat.pos_of_ne_zero fun h0 => ?_
  subst h0
  rw [beq_iff_eq] at h
  rcases m.byte?_stop with h' | h' <;> rw [Nat.add_zero, h] at h'
  · cases h'
  · exact hb (Option.some.inj h')

theorem exists_of_keyword? {word : String} {j : Nat} (m : Stretch s i s' i' n)
    (hword : 0x3C ∉ Text.bytesOf word) (h : keyword? word s i = some j) : ∃ k ≤ n, j = i + k := by
  unfold keyword? literal? at h
  split at h
  · rename_i stop hstop
    split at hstop
    · rename_i hstarts
      obtain rfl := Option.some.inj hstop
      have hle := m.le_of_startsAt hword hstarts
      rw [Text.length_bytesOf] at hle
      refine ⟨_, hle, ?_⟩
      split at h
      · split at h
        · cases h
        · exact (Option.some.inj h).symm
      · exact (Option.some.inj h).symm
    · cases hstop
  · cases h

theorem attributeType?_stretch (m : Stretch s i s' i' n) (hn : 0 < n) :
    attributeType? s' i' = (attributeType? s i).map (shift i i') := by
  have hopen {i i' n : Nat} (m : Stretch s i s' i' n) :
      (byte? s' i' == some 0x28) = (byte? s i == some 0x28) :=
    m.test (· == some 0x28) (by decide) (k := 0) (Nat.zero_le n)
  rw [attributeType?, attributeType?, hopen m, groupStop_stretch m hn,
    keyword?_stretch m hn (by decide), name?_stretch m]
  split
  · rfl
  · cases hword : keyword? "NOTATION" s i with
    | none => rfl
    | some j =>
      obtain ⟨k, hk, rfl⟩ := exists_of_keyword? m (by decide) hword
      obtain ⟨l, hl, h, h'⟩ := (m.drop hk).skipWhile_eq_takeWhile (p := isSpace) (by decide)
      have hgroup := hopen ((m.drop hk).drop hl)
      simp only [Option.map_some, shift_add, h, h', hgroup]
      split
      · rename_i hsees
        have hpos := pos_of_sees ((m.drop hk).drop hl) (by decide) hsees
        rw [groupStop_stretch ((m.drop hk).drop hl) hpos, Nat.add_assoc, Nat.add_assoc,
          Text.shift_add_left]
        exact Nat.le_of_lt (ahead_groupStop (beq_iff_eq.mp (Nat.add_assoc .. ▸ hsees))).1
      · rw [shift_add]

theorem le_of_quoted? {c : Bool} {j : Nat} (h : quoted? u s i = some (j, c)) : i ≤ j := by
  rw [quoted?] at h
  split at h
  · split at h
    · have hle := le_untilAny (s := s) (i := i + 1) (‹UInt8› :: u)
      dsimp only at h
      split at h <;> obtain ⟨rfl, -⟩ := Prod.mk.inj (Option.some.inj h) <;> omega
    · cases h
  · cases h

theorem attributeDefault?_stretch (m : Stretch s i s' i' n) (hn : 0 < n) :
    attributeDefault? s' i' = (attributeDefault? s i).map fun p => (shift i i' p.1, p.2) := by
  have hfixed := keyword?_stretch m (w := "#FIXED") hn (by decide)
  have hrequired := keyword?_stretch m (w := "#REQUIRED") hn (by decide)
  have himplied := keyword?_stretch m (w := "#IMPLIED") hn (by decide)
  simp only [attributeDefault?, hfixed, hrequired, himplied,
    quoted?_stretch m (u := [0x3C, 0x3E]) (by decide)]
  cases hword : keyword? "#FIXED" s i with
  | some j =>
    obtain ⟨k, hk, rfl⟩ := exists_of_keyword? m (by decide) hword
    obtain ⟨l, hl, h, h'⟩ := (m.drop hk).skipWhile_eq_takeWhile (p := isSpace) (by decide)
    have hquoted := quoted?_stretch ((m.drop hk).drop hl) (u := [0x3C, 0x3E]) (by decide)
    simp only [Option.map_some, shift_add, h, h', hquoted]
    cases hq : quoted? [0x3C, 0x3E] s (i + k + l) with
    | none => simp only [Option.map_none, Option.getD_none, shift_add]
    | some p =>
      have hle := le_of_quoted? (c := p.2) (j := p.1) hq
      simp only [Option.map_some, Option.getD_some, Nat.add_assoc] at hle ⊢
      rw [Text.shift_add_left hle]
  | none =>
    cases keyword? "#REQUIRED" s i with
    | some j => rfl
    | none => cases keyword? "#IMPLIED" s i <;> rfl

section stretch
variable (m : Stretch s x.pos s' i' n) (hn : 0 < n)
include m hn

theorem elementContent_stretch :
    elementContent s' (x.goTo i') = (elementContent s x).shift x.pos i' := by
  have hmark := m.test (fun o => o.any fun b => b == 0x3F || b == 0x2A || b == 0x2B) (by decide)
    (k := 1) hn
  obtain ⟨k, -, h, h'⟩ := groupEnd_stretch (d := 0) m
  have heq (t : String) (y : Lexer) : elementContent t y = if y.sees t 0x29 then
      y.emit (.dtd .contentClose) (y.pos + if (byte? t (y.pos + 1)).any fun b =>
        b == 0x3F || b == 0x2A || b == 0x2B then 2 else 1) (.declaration .elementDone)
      else y.emit (.dtd .contentBody) (groupEnd t y.pos 0) y.mode := by
    simp only [elementContent]
    cases byte? t (y.pos + 1) with
    | none => rfl
    | some b => simp only [Option.any_some, apply_ite (y.pos + ·)]
  rw [heq, heq, sees_stretch m hn, goTo_pos, goTo_mode, h, h', hmark]
  split
  · exact (shift_emit _ _ _ _).symm
  · exact (shift_emit _ k _ _).symm

theorem quoted?_nil_stretch (h : ∀ p ∈ quoted? [] s x.pos, StopsIn s x.pos s' i' n p.1) :
    quoted? [] s' i' = (quoted? [] s x.pos).map fun p => (shift x.pos i' p.1, p.2) := by
  have hbyte : byte? s' i' = byte? s x.pos := m.byte?_of_lt (k := 0) hn
  rw [quoted?] at h
  rw [quoted?, quoted?, hbyte]
  cases hb : byte? s x.pos with
  | none => rfl
  | some q =>
    simp only [hb] at h ⊢
    by_cases hq : isQuoteByte q = true
    · simp only [hq, if_true] at h ⊢
      have hne : q ≠ 0x3C := by
        rintro rfl
        cases hq
      obtain ⟨k, hk, hs, hs'⟩ | ⟨hs, hs'⟩ := (m.drop hn).skipWhile_or fun b => !([q] : List UInt8).contains b
      · have hu : untilAny [q] s (x.pos + 1) = x.pos + 1 + k := hs
        have hu' : untilAny [q] s' (i' + 1) = i' + 1 + k := hs'
        have hclose := m.byte?_of_lt (k := 1 + k) (by omega)
        rw [← Nat.add_assoc, ← Nat.add_assoc] at hclose
        rw [hu, hu', hclose]
        split
        · simp only [Option.map_some, Nat.add_assoc, shift_add]
        · simp only [Option.map_some, Nat.add_assoc, shift_add]
      · -- the literal goes on to the end of both texts
        have hu : x.pos + n ≤ untilAny [q] s (x.pos + 1) := Nat.le_trans (by omega) hs
        have hu' : i' + n ≤ untilAny [q] s' (i' + 1) := Nat.le_trans (by omega) hs'
        have hopen : (byte? s (untilAny [q] s (x.pos + 1)) == some q) = false := by
          rw [Bool.eq_false_iff]
          intro hclose
          rw [if_pos hclose] at h
          have := (h _ rfl).le
          omega
        simp only [hopen, Bool.false_eq_true, if_false] at h ⊢
        have hstop := h _ rfl
        have hend : untilAny [q] s (x.pos + 1) = x.pos + n := Nat.le_antisymm hstop.le hu
        have hsize : size s = x.pos + n := by
          have hle := Text.skipWhile_le (fun b => !([q] : List UInt8).contains b) s (x.pos + 1)
            (Text.lt_size_of_byte? hb)
          refine Nat.le_antisymm (Nat.le_of_not_lt fun hlt => ?_) (hend ▸ hle)
          -- only the closing quote stops the literal before the end
          have hc := Text.byte?_of_lt (hend.symm ▸ hlt)
          have hstop := Text.skipWhile_stop hc
          rw [hc, Option.some_beq_some, beq_eq_false_iff_ne] at hopen
          simp [hopen] at hstop
        have hsize' := (hstop.last.resolve_left (by omega)).mp hsize
        have hend' : untilAny [q] s' (i' + 1) = i' + n := by
          have hle := Text.skipWhile_le (fun b => !([q] : List UInt8).contains b) s' (i' + 1) (by omega)
          exact Nat.le_antisymm (hsize' ▸ hle) hu'
        have hnone : byte? s' (i' + n) = none := dif_neg (Nat.not_lt_of_le (Nat.le_of_eq hsize'))
        rw [hend, hend', hnone]
        simp only [Option.map_some, shift_add]
        rfl
    · simp only [hq]
      rfl

theorem declarationParameter_stretch (stage : DeclarationStage)
    (h : stage = .entityNamed → StopsIn s x.pos s' i' n (declarationParameter s x stage).lexer.pos) :
    declarationParameter s' (x.goTo i') stage = (declarationParameter s x stage).shift x.pos i' := by
  have hjunk := unrecognized_stretch m hn
    (u := if x.inSubset then [0x3C, 0x3E, 0x5D] else [0x3C, 0x3E]) (by split <;> decide)
  have hname {kind : Token.DtdKind} {next : DeclarationStage} :=
    getD_map_stretch (name?_stretch m)
      (f := fun pos => x.emit (.dtd kind) pos (.declaration next))
      (e := fun pos => (x.goTo i').emit (.dtd kind) pos (.declaration next)) (fun _ => rfl) hjunk
  have hliteral {kind : Token.DtdKind} {next : DeclarationStage} :=
    getD_map_stretch (quoted?_stretch m (u := [0x3C, 0x3E]) (by decide))
      (f := fun p => x.emit (.dtd kind) p.1 (.declaration next) (literalFault p.2))
      (e := fun p => (x.goTo i').emit (.dtd kind) p.1 (.declaration next) (literalFault p.2))
      (fun _ => rfl) hjunk
  have hkeyword {word : String} {kind : Token.DtdKind} {next : DeclarationStage} {r r' : Lexed}
      (hword : 0x3C ∉ Text.bytesOf word) (hr : r' = r.shift x.pos i') :=
    getD_map_stretch (keyword?_stretch m hn hword)
      (f := fun pos => x.emit (.dtd kind) pos (.declaration next))
      (e := fun pos => (x.goTo i').emit (.dtd kind) pos (.declaration next)) (fun _ => rfl) hr
  cases stage with
  | elementStart | attlistStart | attributeName | notationStart => exact hname
  | elementDone | entityDone | notationDone => exact hjunk
  | elementContent => exact elementContent_stretch m hn
  | entityPublic | entityPublicId | entitySystem | notationPublic | notationPublicId
  | notationSystem => exact hliteral
  | notationNamed => exact hkeyword (by decide) (hkeyword (by decide) hjunk)
  | attributeType => exact getD_map_stretch (attributeType?_stretch m hn) (fun _ => rfl) hjunk
  | attributeDefault => exact getD_map_stretch (attributeDefault?_stretch m hn) (fun _ => rfl) hjunk
  | elementNamed =>
    simp only [declarationParameter, sees_stretch m hn]
    split
    · exact (shift_emit _ 1 _ _).symm
    · exact hkeyword (by decide) (hkeyword (by decide) hjunk)
  | entityStart =>
    have hspace := m.test (fun o => (o.map isSpace).getD false) (by decide) (k := 1) hn
    simp only [declarationParameter, sees_stretch m hn, goTo_pos, hspace]
    split
    · exact (shift_emit _ 1 _ _).symm
    · exact hname
  | entityNamed =>
    have hstop := h rfl
    simp only [declarationParameter] at hstop ⊢
    rw [goTo_pos, keyword?_stretch m hn (by decide), keyword?_stretch m hn (by decide)]
    cases hpublic : keyword? "PUBLIC" s x.pos with
    | some pos => rfl
    | none =>
      cases hsystem : keyword? "SYSTEM" s x.pos with
      | some pos => rfl
      | none =>
        rw [hpublic, hsystem] at hstop
        simp only [Option.map_none, Option.getD_none] at hstop ⊢
        refine getD_map_stretch (quoted?_nil_stretch m hn fun p hp => ?_) (fun _ => rfl) hjunk
        rw [hp] at hstop
        exact hstop

theorem declaration_stretch (stage : DeclarationStage)
    (h : stage = .entityNamed → StopsIn s x.pos s' i' n (declaration s x stage).lexer.pos) :
    declaration s' (x.goTo i') stage = (declaration s x stage).shift x.pos i' := by
  rw [declaration] at h
  rw [declaration, declaration, goTo_pos, space?_stretch m, sees_stretch m hn, sees_stretch m hn,
    sees_stretch m hn, goTo_inSubset]
  cases hspace : space? s x.pos with
  | some pos => rfl
  | none =>
    rw [hspace] at h
    simp only [Option.map_none] at h ⊢
    split
    · exact (shift_emit _ 1 _ _).symm
    · rename_i hclose
      rw [if_neg hclose] at h
      split
      · exact dtdContent_stretch (x := { x with mode := .dtdContent }) m hn
      · rename_i hopen
        rw [if_neg hopen] at h
        exact declarationParameter_stretch m hn stage h

/-! ## A step -/

/-- **The same token at another place.** -/
theorem lex_stretch (hstart : x.mode = .afterInstructionOpen → (x.pos = 2 ↔ i' = 2))
    (h : x.mode.looksFar = true → StopsIn s x.pos s' i' n (lex s x).lexer.pos) :
    lex s' (x.goTo i') = (lex s x).shift x.pos i' := by
  have hlt : ¬ size s ≤ x.pos := by
    obtain ⟨b, hb⟩ := m.exists_byte? hn
    exact Nat.not_le_of_lt (Text.lt_size_of_byte? hb)
  have hlt' : ¬ size s' ≤ (x.goTo i').pos := by
    obtain ⟨b, hb⟩ := m.symm.exists_byte? hn
    exact Nat.not_le_of_lt (Text.lt_size_of_byte? hb)
  rw [lex, if_neg hlt] at h
  rw [lex, lex, if_neg hlt, if_neg hlt', goTo_mode]
  cases hmode : x.mode with
  | content => exact content_stretch m hn
  | afterStartTagOpen => exact startTag_stretch m hn
  | afterEndTagOpen => exact endTag_stretch m hn
  | inTag | inProlog => exact insideTag_stretch m hn
  | inEndTag => exact insideEndTag_stretch m hn
  | afterAttributeName => exact attributeAssign_stretch m hn
  | beforeAttributeValue => exact attributeValue_stretch m hn
  | inComment | inCData =>
    rw [hmode] at h
    exact delimited_stretch m hn (by decide) (by decide) (h rfl)
  | afterInstructionOpen =>
    rw [hmode] at h
    exact instruction_stretch m hn (hstart hmode) (h rfl)
  | inInstruction =>
    rw [hmode] at h
    exact insideInstruction_stretch m hn (h rfl)
  | dtdContent => exact dtdContent_stretch m hn
  | doctype stage => exact doctype_stretch m hn stage
  | declaration stage =>
    rw [hmode] at h
    refine declaration_stretch m hn stage fun hstage => h ?_
    rw [hstage]
    rfl

end stretch

end Lexer

end XmlAssist

import XmlAssist.Proofs.Lexer.Passage
import XmlAssist.Proofs.Tree.Brackets
import XmlAssist.Proofs.Written.Scan

/-!
# A start tag that goes on in another way

Two texts that agree up to an offset (`Text.SameTo`) have the same tokens before it as long as no
token has to look beyond it. In a start tag a token looks beyond its own end in two cases: at a value
without its closing quote, which is looked for up to the next `<`, and at a `/`, which belongs to `/>`
if a `>` follows. Main statement: apart from these cases (`Settled`) a token of a start tag is the same
in both texts (`lex_sameTo`), and so is all that is read in the tag (`Leads.sameTo`).
-/

namespace XmlAssist

namespace Text

/-- The texts agree up to offset `k`, which is in both of them. -/
structure SameTo (s s' : String) (k : Nat) : Prop where
  byte : ∀ {j}, j < k → byte? s' j = byte? s j
  le : k ≤ size s
  le' : k ≤ size s'

theorem byte_of_lt_skipWhile {s : String} {i j : Nat} {p : UInt8 → Bool} {b : UInt8} (hle : i ≤ j)
    (hlt : j < skipWhile p s i) (hb : byte? s j = some b) : p b = true := by
  fun_induction skipWhile p s i with
  | case1 i hi hp ih =>
    rcases Nat.lt_or_eq_of_le hle with h | rfl
    · exact ih h hlt
    · rw [byte?_of_lt hi, Option.some_inj] at hb
      exact hb ▸ hp
  | case2 | case3 => omega

namespace SameTo

variable {s s' : String} {i j k : Nat} {p : UInt8 → Bool} (h : SameTo s s' k)
include h

theorem mono (hj : j ≤ k) : SameTo s s' j :=
  ⟨fun hi => h.byte (Nat.lt_of_lt_of_le hi hj), Nat.le_trans hj h.le, Nat.le_trans hj h.le'⟩

theorem skipWhile_or {i : Nat} (hi : i ≤ k) :
    (skipWhile p s i < k ∧ skipWhile p s' i = skipWhile p s i) ∨
      (k ≤ skipWhile p s i ∧ k ≤ skipWhile p s' i) := by
  rcases Nat.lt_or_eq_of_le hi with hlt | rfl
  · have hs : i < size s := Nat.lt_of_lt_of_le hlt h.le
    have hs' : i < size s' := Nat.lt_of_lt_of_le hlt h.le'
    have hsame : s'.getUTF8Byte ⟨i⟩ hs' = s.getUTF8Byte ⟨i⟩ hs := by
      have hbyte := h.byte hlt
      rwa [byte?_of_lt hs, byte?_of_lt hs', Option.some_inj] at hbyte
    rw [skipWhile, dif_pos hs, skipWhile.eq_1 p s', dif_pos hs', hsame]
    split
    · exact skipWhile_or hlt
    · exact .inl ⟨hlt, rfl⟩
  · exact .inr ⟨le_skipWhile p s i, le_skipWhile p s' i⟩
termination_by k - i

theorem skipWhile_eq (hi : i ≤ k) (hstop : skipWhile p s i < k) :
    skipWhile p s' i = skipWhile p s i := by
  rcases h.skipWhile_or (p := p) hi with hs | hs
  · exact hs.2
  · omega

theorem skipWhile_eq_self {b : UInt8} (hi : i ≤ k) (hstop : k ≤ skipWhile p s i)
    (hb : byte? s' k = some b) (hp : p b = false) : skipWhile p s' i = k := by
  rcases h.skipWhile_or (p := p) hi with hs | ⟨-, hge⟩
  · omega
  · refine Nat.le_antisymm (Nat.le_of_not_lt fun hlt => ?_) hge
    rw [byte_of_lt_skipWhile hi hlt hb] at hp
    cases hp

theorem nextChar_eq (hi : i < k) (hstop : nextChar s i < k) : nextChar s' i = nextChar s i := by
  have hboundary : isBoundary s' i = isBoundary s i := by
    have hlt := Nat.lt_of_lt_of_le hi h.le
    have hlt' := Nat.lt_of_lt_of_le hi h.le'
    rw [Bool.eq_iff_iff, isBoundary_iff, isBoundary_iff, h.byte hi]
    simp only [Nat.ne_of_lt hlt, Nat.ne_of_lt hlt']
  unfold nextChar at hstop ⊢
  rw [hboundary]
  split
  · rename_i hb
    rw [if_pos hb] at hstop
    exact h.skipWhile_eq hi hstop
  · have hlt : i < s.utf8ByteSize := Nat.lt_of_lt_of_le hi h.le
    have hlt' : i < s'.utf8ByteSize := Nat.lt_of_lt_of_le hi h.le'
    rw [Nat.min_eq_left hlt, Nat.min_eq_left hlt']

end SameTo

end Text

def Token.Kind.inStartTag : Token.Kind → Bool
  | .blank | .attributeName | .assign | .attributeValue | .unknown | .startTagName | .startTagClose
  | .startTagSelfClose => true
  | _ => false

namespace Lexer

open Text (SameTo byte? size isBoundary)

variable {s s' : String} {x : Lexer} {i k : Nat}

/-- Names and white space end at the offset. -/
def Breaks (s : String) (k : Nat) : Prop := ∃ b, byte? s k = some b ∧ isName b = false ∧ isSpace b = false

theorem space?_sameTo (h : SameTo s s' k) (hi : i < k)
    (hstop : ∀ j ∈ space? s i, j < k ∨ (j = k ∧ Breaks s' k)) : space? s' i = space? s i := by
  unfold space? at hstop ⊢
  dsimp only at hstop ⊢
  suffices hskip : Text.skipWhile isSpace s' i = Text.skipWhile isSpace s i by rw [hskip]
  rcases Nat.lt_or_eq_of_le (Text.le_skipWhile isSpace s i) with hlt | heq
  · rw [if_pos hlt] at hstop
    rcases hstop _ rfl with hstop | ⟨hstop, b, hb, -, hspace⟩
    · exact h.skipWhile_eq (Nat.le_of_lt hi) hstop
    · rw [hstop]
      exact h.skipWhile_eq_self (Nat.le_of_lt hi) (Nat.le_of_eq hstop.symm) hb hspace
  · exact h.skipWhile_eq (Nat.le_of_lt hi) (heq ▸ hi)

theorem name?_sameTo (h : SameTo s s' k) (hi : i < k)
    (hstop : ∀ j ∈ name? s i, j < k ∨ (j = k ∧ Breaks s' k)) : name? s' i = name? s i := by
  unfold name? at hstop ⊢
  rw [h.byte hi]
  cases hb : byte? s i with
  | none => rfl
  | some b =>
    rw [hb] at hstop
    dsimp only at hstop ⊢
    split
    · rename_i hname
      rw [if_pos hname] at hstop
      rcases hstop _ rfl with hstop | ⟨hstop, b, hb, hname, -⟩
      · rw [h.skipWhile_eq (Nat.le_of_lt hi) hstop]
      · rw [hstop, h.skipWhile_eq_self (Nat.le_of_lt hi) (Nat.le_of_eq hstop.symm) hb hname]
    · rfl

theorem kind_content (s : String) (x : Lexer) : (content s x).kind.inStartTag = false := by
  unfold content
  split
  · rename_i r hr
    obtain ⟨o, ho, rfl⟩ := firstOpener_eq_some hr
    have hkinds : ∀ o ∈ contentOpeners, o.2.1.inStartTag = false := by decide
    exact hkinds o ho
  · rfl

/-- A token of a start tag that is read without a look at what differs behind the offset `k`. It
may stop at the offset itself if it has no fault and cannot go on there in the other text; a value
without quotes may do so if `>` becomes `/>` there. -/
structure Settled (s s' : String) (k : Nat) (r : Lexed) : Prop where
  stop : r.lexer.pos < k ∨ (r.lexer.pos = k ∧ r.fault = none ∧ Breaks s' k ∧
    (r.kind = .attributeValue →
      byte? s k = some 0x3E ∧ byte? s' k = some 0x2F ∧ byte? s' (k + 1) = some 0x3E))
  slash : r.lexer.pos < k → byte? s r.lexer.pos = some 0x2F → r.lexer.pos + 1 < k
  fault : r.fault = some .unterminatedAttributeValue → byte? s' k = some 0x3C
  kind : r.kind.inStartTag = true

theorem Settled.le {r : Lexed} (hr : Settled s s' k r) : r.lexer.pos ≤ k := by
  rcases hr.stop with h | h <;> omega

theorem Settled.lt_or {r : Lexed} (hr : Settled s s' k r) :
    r.lexer.pos < k ∨ (r.lexer.pos = k ∧ Breaks s' k) :=
  hr.stop.imp_right fun h => ⟨h.1, h.2.2.1⟩

theorem Settled.lt_of_fault {r : Lexed} (hr : Settled s s' k r) (h : r.fault ≠ none) : r.lexer.pos < k :=
  hr.stop.resolve_right fun hk => h hk.2.1

theorem sees_sameTo (h : SameTo s s' k) (hx : x.pos < k) (b : UInt8) : x.sees s' b = x.sees s b := by
  rw [sees, sees, peek, peek, h.byte hx]

theorem literal?_close (s : String) (i : Nat) : literal? "/>" s i =
    if byte? s i = some 0x2F ∧ byte? s (i + 1) = some 0x3E then some (i + 2) else none := by
  have hbytes : Text.bytesOf "/>" = [0x2F, 0x3E] := by decide
  simp only [literal?, hbytes, Text.startsAt, Bool.and_true, Bool.and_eq_true, beq_iff_eq]
  rfl

theorem insideTag_slash (hp : x.inProlog = false) (hb : byte? s x.pos = some 0x2F) :
    (byte? s (x.pos + 1) = some 0x3E ∧
      insideTag s x = x.emit .startTagSelfClose (x.pos + 2) .content) ∨
      (byte? s (x.pos + 1) ≠ some 0x3E ∧ (insideTag s x).fault ≠ none) := by
  have hhead : ∀ c ∈ (Text.rest s x.pos).head?, c = 0x2F := by
    rw [← Text.byte?_eq_head?, hb]
    rintro c ⟨⟩
    rfl
  have hspace : space? s x.pos = none := space?_eq_none fun c hc => by rw [hhead c hc]; rfl
  have hname : name? s x.pos = none := name?_eq_none fun c hc => by rw [hhead c hc]; rfl
  unfold insideTag
  simp only [hspace, hname, hp, Bool.false_eq_true, if_false, ite_self, literal?_close, hb, true_and]
  by_cases hgt : byte? s (x.pos + 1) = some 0x3E
  · simp [hgt]
  · simp [hgt, sees, peek, hb, emit]

theorem insideTag_sameTo (h : SameTo s s' k) (hb : isBoundary s x.pos = true) (hx : x.pos < k)
    (hp : x.inProlog = false) (hd : x.inDtd = false) (hr : Settled s s' k (insideTag s x)) :
    insideTag s' x = insideTag s x := by
  have hclose : literal? "/>" s' x.pos = literal? "/>" s x.pos := by
    by_cases hslash : byte? s x.pos = some 0x2F
    · -- the byte behind the slash is before the offset, as some token ends behind the slash
      have hnext : x.pos + 1 < k := by
        rcases insideTag_slash hp hslash with ⟨-, heq⟩ | ⟨-, hfault⟩
        · have hle := hr.le
          rw [heq] at hle
          exact hle
        · have hahead := (moves_insideTag hb (Nat.lt_of_lt_of_le hx h.le)).ahead.1
          have := hr.lt_of_fault hfault
          omega
      rw [literal?_close, literal?_close, h.byte hx, h.byte hnext]
    · rw [literal?_close, literal?_close, h.byte hx, if_neg fun hc => hslash hc.1,
        if_neg fun hc => hslash hc.1]
  unfold insideTag at hr ⊢
  simp only [hp, Bool.false_eq_true, if_false, Bool.not_false, Bool.true_and] at hr ⊢
  have hspace : space? s' x.pos = space? s x.pos := by
    refine space?_sameTo h hx fun j hj => ?_
    rw [hj] at hr
    exact hr.lt_or
  rw [hspace]
  cases hsp : space? s x.pos with
  | some j => rfl
  | none =>
  rw [hsp] at hr
  dsimp only at hr ⊢
  have hname : (if x.spaced then name? s' x.pos else none) = if x.spaced then name? s x.pos else none := by
    split
    · rename_i hs
      refine name?_sameTo h hx fun j hj => ?_
      rw [if_pos hs, hj] at hr
      exact hr.lt_or
    · rfl
  rw [hname]
  cases hn : if x.spaced then name? s x.pos else none with
  | some j => rfl
  | none =>
  rw [hn] at hr
  dsimp only at hr ⊢
  rw [hclose, sees_sameTo h hx, sees_sameTo h hx]
  cases hl : literal? "/>" s x.pos with
  | some j => rfl
  | none =>
  rw [hl] at hr
  dsimp only at hr ⊢
  split
  · rfl
  rename_i hgt
  rw [if_neg hgt] at hr
  split
  · -- what starts with a bracket is not read in a start tag
    rename_i hlt
    have hcontent : betweenMarkup s { x with inProlog := false } =
        content s { x with inProlog := false, mode := .content } := if_neg (Bool.eq_false_iff.mp hd)
    have hkind : (betweenMarkup s { x with inProlog := false }).kind.inStartTag = true := by
      rw [if_pos hlt] at hr
      exact hr.kind
    rw [hcontent, kind_content] at hkind
    cases hkind
  · rename_i hlt
    rw [if_neg hlt] at hr
    rw [h.nextChar_eq hx (hr.lt_of_fault (by simp [emit]))]

theorem backInTag_sameTo (h : SameTo s s' k) (hb : isBoundary s x.pos = true) (hx : x.pos < k)
    (hp : x.inProlog = false) (hd : x.inDtd = false) (hr : Settled s s' k (backInTag s x)) :
    backInTag s' x = backInTag s x :=
  insideTag_sameTo (x := { x with mode := x.tagMode }) h hb hx hp hd hr

theorem startTag_sameTo (h : SameTo s s' k) (hb : isBoundary s x.pos = true) (hx : x.pos < k)
    (hp : x.inProlog = false) (hd : x.inDtd = false) (hr : Settled s s' k (startTag s x)) :
    startTag s' x = startTag s x := by
  unfold startTag at hr ⊢
  have hname : name? s' x.pos = name? s x.pos := by
    refine name?_sameTo h hx fun j hj => ?_
    rw [hj] at hr
    exact hr.lt_or
  rw [hname]
  cases hn : name? s x.pos with
  | some j => rfl
  | none =>
  rw [hn] at hr
  have hspace : space? s' x.pos = space? s x.pos := by
    refine space?_sameTo h hx fun j hj => ?_
    rw [hj] at hr
    exact hr.lt_or
  rw [hspace]
  cases hsp : space? s x.pos with
  | some j => rfl
  | none =>
    rw [hsp] at hr
    exact insideTag_sameTo (x := { x with mode := .inTag, spaced := false }) h hb hx hp hd hr

theorem attributeAssign_sameTo (h : SameTo s s' k) (hb : isBoundary s x.pos = true) (hx : x.pos < k)
    (hp : x.inProlog = false) (hd : x.inDtd = false) (hr : Settled s s' k (attributeAssign s x)) :
    attributeAssign s' x = attributeAssign s x := by
  unfold attributeAssign at hr ⊢
  have hspace : space? s' x.pos = space? s x.pos := by
    refine space?_sameTo h hx fun j hj => ?_
    rw [hj] at hr
    exact hr.lt_or
  rw [hspace]
  cases hsp : space? s x.pos with
  | some j => rfl
  | none =>
    rw [hsp] at hr
    dsimp only at hr ⊢
    rw [sees_sameTo h hx]
    split
    · rfl
    · rename_i hassign
      rw [if_neg hassign] at hr
      exact backInTag_sameTo h hb hx hp hd hr

/-- The value ends at its quote, or at the next bracket, or before the first `>` in front of it. -/
theorem quotedValueStop_sameTo (h : SameTo s s' k) (hi : i < k) {q : UInt8}
    (hle : (quotedValueStop q s i).1 ≤ k)
    (hfault : (quotedValueStop q s i).2 = false →
      (quotedValueStop q s i).1 < k ∧ byte? s' k = some 0x3C) (hq : q ≠ 0x3C) :
    quotedValueStop q s' i = quotedValueStop q s i := by
  have heq (t : String) : quotedValueStop q t i =
      if byte? t (untilAny [q, 0x3C] t (i + 1)) == some q then (untilAny [q, 0x3C] t (i + 1) + 1, true)
      else (min (untilAny [q, 0x3C] t (i + 1)) (untilAny [0x3E] t (i + 1)), false) := rfl
  rw [heq] at hle hfault ⊢
  rw [heq]
  have hgt : (untilAny [0x3E] s (i + 1) < k ∧ untilAny [0x3E] s' (i + 1) = untilAny [0x3E] s (i + 1)) ∨
      (k ≤ untilAny [0x3E] s (i + 1) ∧ k ≤ untilAny [0x3E] s' (i + 1)) := h.skipWhile_or hi
  obtain ⟨hlt, hsame⟩ | ⟨hge, hge'⟩ : (untilAny [q, 0x3C] s (i + 1) < k ∧
      untilAny [q, 0x3C] s' (i + 1) = untilAny [q, 0x3C] s (i + 1)) ∨
      (k ≤ untilAny [q, 0x3C] s (i + 1) ∧ k ≤ untilAny [q, 0x3C] s' (i + 1)) := h.skipWhile_or hi
  · rw [hsame, h.byte hlt]
    split
    · rfl
    · congr 1
      omega
  · -- the quote is missing in the one text, and in the other one a bracket comes first
    have hopen : ¬ (byte? s (untilAny [q, 0x3C] s (i + 1)) == some q) = true := fun hc => by
      rw [if_pos hc] at hle
      dsimp only at hle
      omega
    rw [if_neg hopen] at hfault ⊢
    obtain ⟨hstop, hbracket⟩ := hfault rfl
    have hend : untilAny [q, 0x3C] s' (i + 1) = k := by
      refine Nat.le_antisymm (Nat.le_of_not_lt fun hlt => ?_) hge'
      have hskipped := Text.byte_of_lt_skipWhile hi hlt hbracket
      simp at hskipped
    rw [hend, hbracket, if_neg (by simpa using hq.symm)]
    dsimp only at hstop ⊢
    congr 1
    omega

theorem unquotedStop_eq (t : String) (i : Nat) : unquotedStop t i =
    if byte? t (Text.skipWhile isUnquotedValue t i) == some 0x3E &&
        i + 1 < Text.skipWhile isUnquotedValue t i &&
        byte? t (Text.skipWhile isUnquotedValue t i - 1) == some 0x2F then
      Text.skipWhile isUnquotedValue t i - 1
    else Text.skipWhile isUnquotedValue t i := rfl

theorem le_unquotedStop (t : String) (i : Nat) : i ≤ unquotedStop t i := by
  have hle := Text.le_skipWhile isUnquotedValue t i
  rw [unquotedStop_eq]
  split
  · rename_i hback
    simp only [Bool.and_eq_true, decide_eq_true_eq] at hback
    omega
  · exact hle

theorem unquotedStop_sameTo (h : SameTo s s' k) (hi : i < k) (hstop : unquotedStop s i < k)
    (hslash : byte? s (unquotedStop s i) = some 0x2F → unquotedStop s i + 1 < k) :
    unquotedStop s' i = unquotedStop s i := by
  rw [unquotedStop_eq] at hstop hslash
  have hskip : Text.skipWhile isUnquotedValue s i < k := by
    split at hstop
    · rename_i hback
      rw [if_pos hback] at hslash
      simp only [Bool.and_eq_true, beq_iff_eq, decide_eq_true_eq] at hback
      have := hslash hback.2
      omega
    · exact hstop
  rw [unquotedStop_eq, unquotedStop_eq, h.skipWhile_eq (Nat.le_of_lt hi) hskip, h.byte hskip,
    h.byte (by omega)]

theorem unquotedStop_sameTo_slash (h : SameTo s s' k) (hi : i < k) (hstop : unquotedStop s i = k)
    (hslash : byte? s' k = some 0x2F)
    (hclose : byte? s' (k + 1) = some 0x3E) : unquotedStop s' i = k := by
  rw [unquotedStop_eq] at hstop
  have hskip : k ≤ Text.skipWhile isUnquotedValue s i := by
    split at hstop <;> omega
  have hskip' : Text.skipWhile isUnquotedValue s' i = k + 1 := by
    have hge : k ≤ Text.skipWhile isUnquotedValue s' i := by
      rcases h.skipWhile_or (p := isUnquotedValue) (Nat.le_of_lt hi) with hs | hs
      · omega
      · exact hs.2
    rcases Nat.lt_trichotomy (Text.skipWhile isUnquotedValue s' i) (k + 1) with hlt | heq | hgt
    · have hat : Text.skipWhile isUnquotedValue s' i = k := by omega
      have hstopped := Text.skipWhile_stop (p := isUnquotedValue) (s := s') (i := i) (hat ▸ hslash)
      cases hstopped
    · exact heq
    · have hskipped := Text.byte_of_lt_skipWhile (Nat.le_succ_of_le (Nat.le_of_lt hi)) hgt hclose
      cases hskipped
  rw [unquotedStop_eq, hskip', hclose, if_pos]
  · rfl
  · rw [Nat.add_sub_cancel, hslash]
    simp [hi]

theorem unquotedStop_sameTo_insideTag_slash (h : SameTo s s' k) (hx : x.pos < k) (hp : x.inProlog = false)
    (hslash : byte? s x.pos = some 0x2F) (hshort : unquotedStop s x.pos ≤ x.pos + 1)
    (hahead : x.pos < (insideTag s x).lexer.pos) (hr : Settled s s' k (insideTag s x)) :
    unquotedStop s' x.pos = unquotedStop s x.pos := by
  have hle := hr.le
  rcases insideTag_slash hp hslash with ⟨hgt, heq⟩ | ⟨-, hfault⟩
  · rw [heq] at hle
    change x.pos + 2 ≤ k at hle
    refine unquotedStop_sameTo h hx (by omega) fun hnext => ?_
    have hne : unquotedStop s x.pos ≠ x.pos + 1 := fun heq => by
      rw [heq, hgt] at hnext
      cases hnext
    omega
  · have hlt := hr.lt_of_fault hfault
    refine unquotedStop_sameTo h hx (by omega) fun hnext => ?_
    rcases Nat.lt_or_ge (unquotedStop s x.pos) (insideTag s x).lexer.pos with hless | hmore
    · omega
    · have hpos : unquotedStop s x.pos = (insideTag s x).lexer.pos := by omega
      rw [hpos] at hnext ⊢
      exact hr.slash hlt hnext

/-- Where no value starts there is at most a slash, and the token that is read instead goes behind it. -/
theorem unquotedStop_sameTo_insideTag (h : SameTo s s' k) (hb : isBoundary s x.pos = true) (hx : x.pos < k)
    (hp : x.inProlog = false)
    (hnone : ¬ (x.pos < unquotedStop s x.pos &&
      !(unquotedStop s x.pos == x.pos + 1 && x.sees s 0x2F)) = true)
    (hr : Settled s s' k (insideTag s x)) : unquotedStop s' x.pos = unquotedStop s x.pos := by
  have hahead : x.pos < (insideTag s x).lexer.pos :=
    (moves_insideTag hb (Nat.lt_of_lt_of_le hx h.le)).ahead.1
  by_cases hslash : byte? s x.pos = some 0x2F
  · have hshort : unquotedStop s x.pos ≤ x.pos + 1 := by
      refine Nat.le_of_not_lt fun hlong => hnone ?_
      rw [Bool.and_eq_true, decide_eq_true_eq]
      refine ⟨by omega, ?_⟩
      rw [beq_false_of_ne (by omega), Bool.false_and]
      rfl
    exact unquotedStop_sameTo_insideTag_slash h hx hp hslash hshort hahead hr
  · have hstop : unquotedStop s x.pos = x.pos := by
      refine Nat.le_antisymm (Nat.le_of_not_lt fun hlong => hnone ?_) (le_unquotedStop s x.pos)
      have hsees : x.sees s 0x2F = false := by
        rw [sees, peek, beq_eq_false_iff_ne]
        exact hslash
      simp [hlong, hsees]
    refine unquotedStop_sameTo h hx (by omega) fun hnext => ?_
    rw [hstop] at hnext
    exact absurd hnext hslash

theorem attributeValue_sameTo (h : SameTo s s' k) (hb : isBoundary s x.pos = true) (hx : x.pos < k)
    (hp : x.inProlog = false) (hd : x.inDtd = false) (hr : Settled s s' k (attributeValue s x)) :
    attributeValue s' x = attributeValue s x := by
  unfold attributeValue at hr ⊢
  have hspace : space? s' x.pos = space? s x.pos := by
    refine space?_sameTo h hx fun j hj => ?_
    rw [hj] at hr
    exact hr.lt_or
  have hpeek : x.peek s' = x.peek s := h.byte hx
  rw [hspace, hpeek]
  cases hsp : space? s x.pos with
  | some j => rfl
  | none =>
  rw [hsp] at hr
  dsimp only at hr ⊢
  cases hq : (x.peek s).filter isQuoteByte with
  | some q =>
    rw [hq] at hr
    obtain ⟨-, hquote⟩ := Option.filter_eq_some_iff.mp hq
    have hne : q ≠ 0x3C := by
      rintro rfl
      cases hquote
    have hsame := quotedValueStop_sameTo h hx (q := q) hr.le (fun hopen => ?_) hne
    · simp only [hsame]
    · have hfault := hr.fault
      have hlt := hr.lt_of_fault
      simp only [emit, hopen, Bool.false_eq_true, if_false, ne_eq, reduceCtorEq, not_false_eq_true,
        forall_const] at hfault hlt
      exact ⟨hlt, hfault⟩
  | none =>
    rw [hq] at hr
    dsimp only at hr ⊢
    have hunquoted : unquotedStop s' x.pos = unquotedStop s x.pos := by
      split at hr
      · rcases hr.stop with hstop | ⟨hstop, -, -, hvalue⟩
        · exact unquotedStop_sameTo h hx hstop (hr.slash hstop)
        · obtain ⟨hgt, hslash, hclose⟩ := hvalue rfl
          exact (unquotedStop_sameTo_slash h hx hstop hslash hclose).trans hstop.symm
      · rename_i hnone
        exact unquotedStop_sameTo_insideTag (x := { x with spaced := false, mode := x.tagMode }) h hb hx hp hnone hr
    rw [hunquoted, sees_sameTo h hx]
    split
    · rfl
    · rename_i hnone
      rw [if_neg hnone] at hr
      exact backInTag_sameTo (x := { x with spaced := false }) h hb hx hp hd hr

theorem Consistent.of_inStartTag (hc : x.Consistent) (h : x.inStartTag = true) :
    x.inProlog = false ∧ x.inDtd = false ∧ (x.mode = .afterStartTagOpen ∨ x.mode = .inTag ∨
      x.mode = .afterAttributeName ∨ x.mode = .beforeAttributeValue) := by
  have hm := hc.mode
  unfold inStartTag at h
  unfold Agrees at hm
  split at h
  · rename_i hmode
    rw [hmode] at hm
    exact ⟨hm.1, hm.2, .inl hmode⟩
  · rename_i hmode
    rw [hmode] at hm
    exact ⟨hm.1, hm.2, .inr (.inl hmode)⟩
  · rename_i hmode
    rw [hmode] at hm
    have hp : x.inProlog = false := by simpa using h
    exact ⟨hp, by simp [inDtd, hm.1, hm.2 hp], .inr (.inr (.inl hmode))⟩
  · rename_i hmode
    rw [hmode] at hm
    have hp : x.inProlog = false := by simpa using h
    exact ⟨hp, by simp [inDtd, hm.1, hm.2 hp], .inr (.inr (.inr hmode))⟩
  · cases h

/-- A token of a start tag is the same in both texts. -/
theorem lex_sameTo (h : SameTo s s' k) (hb : isBoundary s x.pos = true) (hx : x.pos < k)
    (hc : x.Consistent) (hin : x.inStartTag = true) (hr : Settled s s' k (lex s x)) :
    lex s' x = lex s x := by
  obtain ⟨hp, hd, hmode⟩ := hc.of_inStartTag hin
  rw [lex, if_neg (Nat.not_le_of_lt (Nat.lt_of_lt_of_le hx h.le))] at hr
  rw [lex, lex, if_neg (Nat.not_le_of_lt (Nat.lt_of_lt_of_le hx h.le)),
    if_neg (Nat.not_le_of_lt (Nat.lt_of_lt_of_le hx h.le'))]
  rcases hmode with hmode | hmode | hmode | hmode <;> rw [hmode] at hr ⊢
  · exact startTag_sameTo h hb hx hp hd hr
  · exact insideTag_sameTo h hb hx hp hd hr
  · exact attributeAssign_sameTo h hb hx hp hd hr
  · exact attributeValue_sameTo h hb hx hp hd hr

theorem Consistent.step (hc : x.Consistent) (hb : isBoundary s x.pos = true) (hlt : x.pos < size s) :
    (x.step s).2.Consistent := by
  have hahead := Leads.pos_lt_step hb hlt
  obtain ⟨z, spaced, hz, hreads⟩ := lex_turns hc hlt
  rw [step_eq_lex hb hlt] at hahead ⊢
  rcases hz with rfl | hfalls
  · exact hc.of_reads hahead hreads
  · exact (hc.of_falls hfalls).of_reads (hfalls.pos_eq ▸ hahead) hreads

theorem step_sameTo (h : SameTo s s' k) (hb : isBoundary s x.pos = true) (hx : x.pos < k)
    (hc : x.Consistent) (hin : x.inStartTag = true)
    (hr : Settled s s' k ⟨(x.step s).1.kind, (x.step s).2, (x.step s).1.fault⟩) :
    x.step s' = x.step s := by
  have hlt := Nat.lt_of_lt_of_le hx h.le
  have hahead := Leads.pos_lt_step hb hlt
  rw [step_eq_lex hb hlt] at hr hahead ⊢
  have hlex := lex_sameTo h hb hx hc hin hr
  rw [Lexer.step, hlex, if_neg fun hc => Nat.not_le_of_lt hahead hc.2]

/-- The tokens go on in a start tag. -/
def StaysInTag (l : List (Token × Lexer)) : Prop := ∀ p ∈ l, p.2.inStartTag = true

/-- All that is read in a start tag is the same in both texts, up to its last token, which may also be
the last one of the tag. -/
theorem Leads.sameTo {l : List (Token × Lexer)} {y : Lexer} (hl : Leads s x l y) (h : SameTo s s' k)
    (hb : isBoundary s x.pos = true) (hc : x.Consistent) (hin : x.inStartTag = true)
    (hstays : StaysInTag l.dropLast)
    (hr : ∀ p ∈ l, Settled s s' k ⟨p.1.kind, p.2, p.1.fault⟩) : Leads s' x l y := by
  induction hl with
  | here => exact .here _
  | @next x y l hlt hrest ih =>
    have hfirst := hr _ List.mem_cons_self
    have hahead := pos_lt_step hb hlt
    have hx : x.pos < k := Nat.lt_of_lt_of_le hahead hfirst.le
    have hstep := step_sameTo h hb hx hc hin hfirst
    have hnext : Leads s' (x.step s).2 l y := by
      cases l with
      | nil =>
        cases hrest
        exact .here _
      | cons p l =>
        rw [List.dropLast_cons_of_ne_nil (by simp)] at hstays
        exact ih (boundary_step hb hlt) (hc.step hb hlt) (hstays _ List.mem_cons_self)
          (fun q hq => hstays q (List.mem_cons_of_mem _ hq)) fun q hq => hr q (List.mem_cons_of_mem _ hq)
    rw [← hstep] at hnext ⊢
    exact .next (Nat.lt_of_lt_of_le hx h.le') hnext

end Lexer

end XmlAssist

import XmlAssist.Markup.Lexer.Stream
import XmlAssist.Proofs.Text.Boundary

/-!
# A scan covers the text

From any boundary of a text and in any mode, the lexer cuts what is left of the text into tokens
that are not empty, meet without a gap and start and stop at boundaries, and ends with one token
of the end. The argument is one step: each mode moves the cursor forward, because every way to
move it that the mode can take stops behind the cursor (`Ahead`) and because the branches that
take none are those in which a byte below `0x80` has just been seen. So the character that `step`
skips when a mode does not move is never skipped.
-/

namespace XmlAssist.Lexer

open Text (isBoundary byte? size)

/-- The offset `j` is behind `i`, at a boundary. -/
def Ahead (s : String) (i j : Nat) : Prop := i < j ∧ isBoundary s j = true

/-! ## Ways to move -/

def Ascii (bs : List UInt8) : Prop := (bs.all fun b => decide (b < 0x80)) = true

instance (bs : List UInt8) : Decidable (Ascii bs) := inferInstanceAs (Decidable (_ = true))

theorem Ascii.lt {bs : List UInt8} (h : Ascii bs) : ∀ b ∈ bs, b < 0x80 := by
  simpa [Ascii] using h

theorem Ascii.cons {b : UInt8} {bs : List UInt8} (hb : b < 0x80) (h : Ascii bs) : Ascii (b :: bs) := by
  simpa [Ascii, hb] using h

/-- A literal that is not empty and has only bytes below `0x80`. -/
def Plain (lit : String) : Prop := 0 < size lit ∧ Ascii (Text.bytesOf lit)

instance (lit : String) : Decidable (Plain lit) := inferInstanceAs (Decidable (_ ∧ _))

variable {s : String} {i j : Nat}

theorem ahead_succ {b : UInt8} (h : byte? s i = some b) (hb : b < 0x80) : Ahead s i (i + 1) :=
  ⟨Nat.lt_succ_self i, Text.isBoundary_succ h hb⟩

theorem ahead_nextChar (h : i < size s) (hi : isBoundary s i = true) :
    Ahead s i (Text.nextChar s i) :=
  ⟨Text.lt_nextChar s i h, Text.isBoundary_nextChar h hi⟩

theorem lt_of_isName_eq_false : ∀ b, isName b = false → b < 0x80 :=
  Text.forall_byte (by decide +kernel)

theorem lt_of_isSpace : ∀ b, isSpace b = true → b < 0x80 :=
  Text.forall_byte (by decide +kernel)

theorem isName_of_isNameStart {b : UInt8} (h : isNameStart b = true) : isName b = true := by
  simp only [isNameStart, Bool.and_eq_true] at h
  exact h.1.1

theorem ahead_of_name? (h : name? s i = some j) : Ahead s i j := by
  unfold name? at h
  split at h
  · rename_i b hb
    split at h
    · rename_i hstart
      obtain rfl := Option.some.inj h
      exact ⟨Text.lt_skipWhile hb (isName_of_isNameStart hstart),
        Text.isBoundary_skipWhile lt_of_isName_eq_false (Nat.le_of_lt (Text.lt_size_of_byte? hb))⟩
    · cases h
  · cases h

theorem ahead_of_space? (hi : isBoundary s i = true) (h : space? s i = some j) : Ahead s i j := by
  simp only [space?] at h
  split at h
  · rename_i hlt
    obtain rfl := Option.some.inj h
    exact ⟨hlt, Text.isBoundary_skipWhile_of_lt lt_of_isSpace hi⟩
  · cases h

theorem ahead_of_literal? {lit : String} (hlit : Plain lit) (hi : isBoundary s i = true)
    (h : literal? lit s i = some j) : Ahead s i j := by
  simp only [literal?] at h
  split at h
  · rename_i hs
    obtain rfl := Option.some.inj h
    have hb := Text.isBoundary_of_startsAt hlit.2.lt hi hs
    rw [Text.length_bytesOf] at hb
    exact ⟨Nat.lt_add_of_pos_right hlit.1, hb⟩
  · cases h

theorem ahead_of_keyword? {word : String} (hword : Plain word) (hi : isBoundary s i = true)
    (h : keyword? word s i = some j) : Ahead s i j := by
  simp only [keyword?] at h
  split at h
  · rename_i k hk
    have hk := ahead_of_literal? hword hi hk
    split at h
    · split at h
      · cases h
      · exact Option.some.inj h ▸ hk
    · exact Option.some.inj h ▸ hk
  · cases h

theorem isBoundary_untilAny {stops : List UInt8} (hs : Ascii stops) (hi : i ≤ size s) :
    isBoundary s (untilAny stops s i) = true :=
  Text.isBoundary_skipUntil (fun b hb => hs.lt b (by simpa using hb)) hi

theorem le_untilAny (stops : List UInt8) : i ≤ untilAny stops s i := Text.le_skipWhile _ s i

theorem ahead_untilAny {stops : List UInt8} (hs : Ascii stops) {b : UInt8} (h : byte? s i = some b)
    (hb : b ∉ stops) : Ahead s i (untilAny stops s i) :=
  ⟨Text.lt_skipWhile h (by simpa using hb),
    isBoundary_untilAny hs (Nat.le_of_lt (Text.lt_size_of_byte? h))⟩

theorem ahead_of_le {k : Nat} (hij : Ahead s i j) (hjk : j ≤ k) (hk : isBoundary s k = true) :
    Ahead s i k :=
  ⟨Nat.lt_of_lt_of_le hij.1 hjk, hk⟩

theorem lt_of_isQuoteByte {q : UInt8} (h : isQuoteByte q = true) : q < 0x80 := by
  simp only [isQuoteByte, Bool.or_eq_true, beq_iff_eq] at h
  rcases h with rfl | rfl <;> decide

theorem ahead_of_quoted? {stops : List UInt8} (hs : Ascii stops) {closed : Bool}
    (h : quoted? stops s i = some (j, closed)) : Ahead s i j := by
  simp only [quoted?] at h
  split at h
  · rename_i q hq
    split at h
    · rename_i hquote
      have hq80 := lt_of_isQuoteByte hquote
      have hstops : Ascii (q :: stops) := .cons hq80 hs
      have hnext := ahead_succ hq hq80
      have hle : i + 1 ≤ size s := Text.lt_size_of_byte? hq
      split at h
      · rename_i hclose
        obtain ⟨rfl, -⟩ := Prod.mk.inj (Option.some.inj h)
        refine ahead_of_le hnext (Nat.le_succ_of_le (le_untilAny _)) ?_
        exact Text.isBoundary_succ (by simpa using hclose) hq80
      · obtain ⟨rfl, -⟩ := Prod.mk.inj (Option.some.inj h)
        exact ahead_of_le hnext (le_untilAny _) (isBoundary_untilAny hstops hle)
    · cases h
  · cases h

theorem le_groupEnd (s : String) (i depth : Nat) : i ≤ groupEnd s i depth := by
  fun_induction groupEnd s i depth with
  | case1 i depth h b hb ih => omega
  | case2 i h b hb hc => omega
  | case3 i depth h b hb hc hd ih => omega
  | case4 i depth h b hb hc hd => omega
  | case5 i depth h b hb hc hd ih => omega
  | case6 i depth h => omega

theorem lt_groupEnd {b : UInt8} (depth : Nat) (h : byte? s i = some b) (hclose : b ≠ 0x29)
    (hlt : b ≠ 0x3C) (hgt : b ≠ 0x3E) : i < groupEnd s i depth := by
  obtain ⟨hi, rfl⟩ := Text.byte?_eq_some h
  rw [groupEnd, dif_pos hi]
  simp only [beq_iff_eq, hclose, hlt, hgt, Bool.or_eq_true, or_self, if_false]
  split
  · exact le_groupEnd s (i + 1) (depth + 1)
  · exact le_groupEnd s (i + 1) depth

theorem isBoundary_groupEnd (depth : Nat) (hi : i ≤ size s) :
    isBoundary s (groupEnd s i depth) = true := by
  fun_induction groupEnd s i depth with
  | case1 i depth h b hb ih => exact ih h
  | case2 i h b hb hc => exact Text.isBoundary_of_lt (Text.byte?_of_lt h) (by simp_all [b])
  | case3 i depth h b hb hc hd ih => exact ih h
  | case4 i depth h b hb hc hd =>
    refine Text.isBoundary_of_lt (Text.byte?_of_lt h) (show b < 0x80 from ?_)
    simp only [Bool.or_eq_true, beq_iff_eq] at hd
    rcases hd with hd | hd <;> rw [hd] <;> decide
  | case5 i depth h b hb hc hd ih => exact ih h
  | case6 i depth h =>
    rw [Nat.le_antisymm hi (Nat.le_of_not_lt h)]
    exact Text.isBoundary_size s

theorem ahead_groupStop (h : byte? s i = some 0x28) : Ahead s i (groupStop s i) := by
  have hnext := ahead_succ h (by decide)
  have hle : i + 1 ≤ size s := Text.lt_size_of_byte? h
  simp only [groupStop]
  split
  · rename_i hc
    refine ahead_of_le hnext (Nat.le_succ_of_le (le_groupEnd s (i + 1) 0)) ?_
    exact Text.isBoundary_succ (by simpa using hc) (by decide)
  · exact ahead_of_le hnext (le_groupEnd s (i + 1) 0) (isBoundary_groupEnd 0 hle)

theorem ahead_quotedValueStop {q : UInt8} (h : byte? s i = some q) (hq : isQuoteByte q = true) :
    Ahead s i (quotedValueStop q s i).1 := by
  have hq80 := lt_of_isQuoteByte hq
  have hnext := ahead_succ h hq80
  have hle : i + 1 ≤ size s := Text.lt_size_of_byte? h
  have hstops : Ascii [q, 0x3C] := .cons hq80 (by decide)
  have hj := ahead_of_le hnext (le_untilAny [q, 0x3C]) (isBoundary_untilAny hstops hle)
  have hk := ahead_of_le hnext (le_untilAny [0x3E]) (isBoundary_untilAny (by decide) hle)
  simp only [quotedValueStop]
  split
  · rename_i hclose
    exact ahead_of_le hj (Nat.le_succ _) (Text.isBoundary_succ (by simpa using hclose) hq80)
  · rcases Nat.le_total (untilAny [q, 0x3C] s (i + 1)) (untilAny [0x3E] s (i + 1)) with h | h
    · rwa [Nat.min_eq_left h]
    · rwa [Nat.min_eq_right h]

theorem lt_of_isUnquotedValue_eq_false : ∀ b, isUnquotedValue b = false → b < 0x80 :=
  Text.forall_byte (by decide +kernel)

theorem isBoundary_unquotedStop (hi : i ≤ size s) : isBoundary s (unquotedStop s i) = true := by
  simp only [unquotedStop]
  split
  · rename_i hslash
    simp only [Bool.and_eq_true, beq_iff_eq] at hslash
    exact Text.isBoundary_of_lt hslash.2 (by decide)
  · exact Text.isBoundary_skipWhile lt_of_isUnquotedValue_eq_false hi

theorem ahead_until? {lit : String} (hlit : Plain lit) (hlt : i < size s)
    (hnone : literal? lit s i = none) : Ahead s i (until? lit s i).1 := by
  simp only [until?]
  split
  · rename_i j hj
    obtain ⟨hle, hstart⟩ := Text.startsAt_of_find? hj
    have hne : i ≠ j := by
      rintro rfl
      simp [literal?, hstart] at hnone
    refine ⟨Nat.lt_of_le_of_ne hle hne, Text.isBoundary_startsAt hlit.2.lt ?_ hstart⟩
    intro h
    have := Text.length_bytesOf lit
    rw [h] at this
    exact Nat.ne_of_lt hlit.1 this
  · exact ⟨hlt, Text.isBoundary_size s⟩

theorem ahead_of_attributeType? (hi : isBoundary s i = true) (h : attributeType? s i = some j) :
    Ahead s i j := by
  simp only [attributeType?] at h
  split at h
  · rename_i hgroup
    obtain rfl := Option.some.inj h
    exact ahead_groupStop (by simpa using hgroup)
  · split at h
    · rename_i k hk
      have hk := ahead_of_keyword? (by decide) hi hk
      obtain rfl := Option.some.inj h
      split
      · rename_i hgroup
        have hstop := ahead_groupStop (by simpa using hgroup)
        have := Text.le_skipWhile isSpace s k
        exact ahead_of_le hk (by have := hstop.1; omega) hstop.2
      · exact hk
    · exact ahead_of_name? h

theorem ahead_of_attributeDefault? {closed : Bool} (hi : isBoundary s i = true)
    (h : attributeDefault? s i = some (j, closed)) : Ahead s i j := by
  simp only [attributeDefault?] at h
  split at h
  · rename_i k hk
    have hk := ahead_of_keyword? (by decide) hi hk
    have hj := Option.some.inj h
    cases hq : quoted? [0x3C, 0x3E] s (Text.skipWhile isSpace s k) with
    | none =>
      rw [hq] at hj
      obtain ⟨rfl, -⟩ := Prod.mk.inj hj
      exact hk
    | some r =>
      obtain ⟨l, c⟩ := r
      rw [hq] at hj
      obtain ⟨rfl, -⟩ := Prod.mk.inj hj
      have hl := ahead_of_quoted? (by decide) hq
      have := Text.le_skipWhile isSpace s k
      exact ahead_of_le hk (by have := hl.1; omega) hl.2
  · split at h
    · rename_i k hk
      obtain ⟨rfl, -⟩ := Prod.mk.inj (Option.some.inj h)
      exact ahead_of_keyword? (by decide) hi hk
    · split at h
      · rename_i k hk
        obtain ⟨rfl, -⟩ := Prod.mk.inj (Option.some.inj h)
        exact ahead_of_keyword? (by decide) hi hk
      · exact ahead_of_quoted? (by decide) h

/-! ## One token -/

/-- A token was read: the lexer behind it is further on than `i`. -/
structure MovesFrom (s : String) (r : Lexed) (i : Nat) : Prop where
  kind : r.kind ≠ .eos
  ahead : Ahead s i r.lexer.pos
  fault : r.fault ≠ some .unexpectedCharacter

variable {x : Lexer}

theorem moves_emit {kind : Token.Kind} {mode : Mode} {fault : Option Token.Fault} (h : Ahead s i j)
    (hk : kind ≠ .eos) (hf : fault ≠ some .unexpectedCharacter) :
    MovesFrom s (x.emit kind j mode fault) i :=
  ⟨hk, h, hf⟩

theorem moves_emitSpace {fault : Option Token.Fault} (h : Ahead s i j)
    (hf : fault ≠ some .unexpectedCharacter) : MovesFrom s (x.emitSpace j fault) i :=
  moves_emit h (by decide) hf

theorem byte?_of_sees {b : UInt8} (h : x.sees s b = true) : byte? s x.pos = some b := by
  simpa [sees, peek] using h

theorem moves_of_firstOpener {openers : List (String × Token.Kind × Mode)}
    (ho : ∀ o ∈ openers, Plain o.1 ∧ o.2.1 ≠ .eos) (hx : isBoundary s x.pos = true) {r : Lexed}
    (h : firstOpener s x openers = some r) : MovesFrom s r x.pos := by
  induction openers with
  | nil => cases h
  | cons o openers ih =>
    obtain ⟨lit, kind, mode⟩ := o
    obtain ⟨hlit, hkind⟩ := ho _ List.mem_cons_self
    simp only [firstOpener] at h
    split at h
    · rename_i pos hpos
      obtain rfl := Option.some.inj h
      exact moves_emit (ahead_of_literal? hlit hx hpos) hkind (by simp)
    · exact ih (fun o h => ho o (List.mem_cons_of_mem _ h)) h

theorem literal?_lt_of_byte? (h : byte? s i = some 0x3C) : literal? "<" s i = some (i + 1) := by
  have : Text.bytesOf "<" = [0x3C] := by decide
  simp [literal?, this, Text.startsAt, h]
  decide

theorem byte?_ne_of_firstOpener_eq_none (h : firstOpener s x contentOpeners = none) :
    byte? s x.pos ≠ some 0x3C := by
  intro hb
  simp only [firstOpener, contentOpeners, literal?_lt_of_byte? hb] at h
  repeat' split at h
  all_goals cases h

theorem moves_content (hx : isBoundary s x.pos = true) (hlt : x.pos < size s) :
    MovesFrom s (content s x) x.pos := by
  unfold content
  split
  · rename_i r hr
    exact moves_of_firstOpener (by decide) hx hr
  · rename_i hnone
    have hb := Text.byte?_of_lt hlt
    refine moves_emit (ahead_untilAny (by decide) hb ?_) (by decide) (by decide)
    intro hmem
    rw [List.mem_singleton.mp hmem] at hb
    exact byte?_ne_of_firstOpener_eq_none hnone hb

theorem moves_dtdContent (hx : isBoundary s x.pos = true) (hlt : x.pos < size s) :
    MovesFrom s (dtdContent s x) x.pos := by
  have hb := Text.byte?_of_lt hlt
  unfold dtdContent
  split
  · rename_i pos hpos
    exact moves_emitSpace (ahead_of_space? hx hpos) (by decide)
  · split
    · rename_i hclose
      simp only [Bool.and_eq_true] at hclose
      exact moves_emit (ahead_succ (byte?_of_sees hclose.2) (by decide)) (by decide) (by decide)
    · split
      · rename_i r hr
        exact moves_of_firstOpener (by decide) hx hr
      · rename_i hbracket _ _
        split
        · exact moves_content hx hlt
        · have hstops : Ascii (if x.inSubset then [0x3C, 0x5D] else [0x3C]) := by
            split <;> decide
          refine moves_emit ?_ (by decide) (by decide)
          by_cases hsees : x.sees s 0x3C = true
          · rw [if_pos hsees]
            have hnext := ahead_succ (byte?_of_sees hsees) (by decide)
            exact ahead_of_le hnext (le_untilAny _) (isBoundary_untilAny hstops hlt)
          · rw [if_neg hsees]
            refine ahead_untilAny hstops hb fun hmem => ?_
            -- neither `<` nor, inside the brackets, `]` is under the cursor
            have h3C : s.getUTF8Byte ⟨x.pos⟩ hlt ≠ 0x3C := by
              intro he
              rw [he] at hb
              simp [sees, peek, hb] at hsees
            split at hmem
            · rename_i hin
              have h5D : s.getUTF8Byte ⟨x.pos⟩ hlt ≠ 0x5D := by
                intro he
                rw [he] at hb
                simp [sees, peek, hb, hin] at hbracket
              simp_all
            · simp_all

theorem moves_betweenMarkup (hx : isBoundary s x.pos = true) (hlt : x.pos < size s) :
    MovesFrom s (betweenMarkup s x) x.pos := by
  unfold betweenMarkup
  split
  · exact moves_dtdContent hx hlt
  · exact moves_content hx hlt

theorem moves_insideTag (hx : isBoundary s x.pos = true) (hlt : x.pos < size s) :
    MovesFrom s (insideTag s x) x.pos := by
  unfold insideTag
  split
  · rename_i pos hpos
    exact moves_emitSpace (ahead_of_space? hx hpos) (by decide)
  split
  · rename_i pos hpos
    split at hpos
    · exact moves_emit (ahead_of_literal? (by decide) hx hpos) (by decide) (by decide)
    · cases hpos
  split
  · rename_i pos hpos
    split at hpos
    · exact moves_emit (ahead_of_name? hpos) (by decide) (by decide)
    · cases hpos
  split
  · rename_i pos hpos
    split at hpos
    · cases hpos
    · exact moves_emit (ahead_of_literal? (by decide) hx hpos) (by decide) (by decide)
  split
  · rename_i hclose
    simp only [Bool.and_eq_true] at hclose
    exact moves_emit (ahead_succ (byte?_of_sees hclose.2) (by decide)) (by decide) (by decide)
  split
  · exact moves_betweenMarkup hx hlt
  · exact moves_emit (ahead_nextChar hlt hx) (by decide) (by decide)

theorem moves_startTag (hx : isBoundary s x.pos = true) (hlt : x.pos < size s) :
    MovesFrom s (startTag s x) x.pos := by
  unfold startTag
  split
  · rename_i pos hpos
    exact moves_emit (ahead_of_name? hpos) (by decide) (by decide)
  split
  · rename_i pos hpos
    exact moves_emitSpace (ahead_of_space? hx hpos) (by decide)
  · exact moves_insideTag hx hlt

theorem moves_insideEndTag (hx : isBoundary s x.pos = true) (hlt : x.pos < size s) :
    MovesFrom s (insideEndTag s x) x.pos := by
  unfold insideEndTag
  split
  · rename_i pos hpos
    exact moves_emitSpace (ahead_of_space? hx hpos) (by decide)
  split
  · rename_i hclose
    exact moves_emit (ahead_succ (byte?_of_sees hclose) (by decide)) (by decide) (by decide)
  split
  · exact moves_content hx hlt
  · rename_i hclose hopen
    refine moves_emit (ahead_untilAny (by decide) (Text.byte?_of_lt hlt) ?_) (by decide) (by decide)
    intro hmem
    simp only [List.mem_cons, List.not_mem_nil, or_false] at hmem
    rcases hmem with he | he
    · exact hopen (by simp [sees, peek, Text.byte?_of_lt hlt, he])
    · exact hclose (by simp [sees, peek, Text.byte?_of_lt hlt, he])

theorem moves_endTag (hx : isBoundary s x.pos = true) (hlt : x.pos < size s) :
    MovesFrom s (endTag s x) x.pos := by
  unfold endTag
  split
  · rename_i pos hpos
    exact moves_emit (ahead_of_name? hpos) (by decide) (by decide)
  split
  · rename_i pos hpos
    exact moves_emitSpace (ahead_of_space? hx hpos) (by decide)
  · exact moves_insideEndTag hx hlt

theorem moves_attributeAssign (hx : isBoundary s x.pos = true) (hlt : x.pos < size s) :
    MovesFrom s (attributeAssign s x) x.pos := by
  unfold attributeAssign
  split
  · rename_i pos hpos
    exact moves_emitSpace (ahead_of_space? hx hpos) (by decide)
  split
  · rename_i hassign
    exact moves_emit (ahead_succ (byte?_of_sees hassign) (by decide)) (by decide) (by decide)
  · exact moves_insideTag hx hlt

theorem moves_attributeValue (hx : isBoundary s x.pos = true) (hlt : x.pos < size s) :
    MovesFrom s (attributeValue s x) x.pos := by
  unfold attributeValue
  split
  · rename_i pos hpos
    exact moves_emitSpace (ahead_of_space? hx hpos) (by decide)
  split
  · rename_i q hq
    obtain ⟨hq, hquote⟩ := Option.filter_eq_some_iff.mp hq
    exact moves_emit (ahead_quotedValueStop hq hquote) (by decide) (by split <;> decide)
  · dsimp only
    split
    · rename_i hpos
      simp only [Bool.and_eq_true, decide_eq_true_eq] at hpos
      exact moves_emit ⟨hpos.1, isBoundary_unquotedStop (Nat.le_of_lt hlt)⟩ (by decide) (by decide)
    · exact moves_insideTag hx hlt

theorem moves_delimited {close : String} {inside closing : Token.Kind} {fault : Token.Fault}
    (hclose : Plain close) (hin : inside ≠ .eos) (hout : closing ≠ .eos)
    (hf : fault ≠ .unexpectedCharacter) (hx : isBoundary s x.pos = true) (hlt : x.pos < size s) :
    MovesFrom s (delimited close inside closing fault s x) x.pos := by
  unfold delimited
  split
  · rename_i pos hpos
    exact moves_emit (ahead_of_literal? hclose hx hpos) hout (by decide)
  · rename_i hnone
    exact moves_emit (ahead_until? hclose hlt hnone) hin (by split <;> simp [hf])

theorem moves_insideInstruction (hx : isBoundary s x.pos = true) (hlt : x.pos < size s) :
    MovesFrom s (insideInstruction s x) x.pos := by
  unfold insideInstruction
  split
  · rename_i pos hpos
    exact moves_emitSpace (ahead_of_space? hx hpos) (by decide)
  · exact moves_delimited (by decide) (by decide) (by decide) (by decide) hx hlt

theorem moves_instruction (hx : isBoundary s x.pos = true) (hlt : x.pos < size s) :
    MovesFrom s (instruction s x) x.pos := by
  unfold instruction
  split
  · rename_i hxml
    simp only [seesPrologName, Bool.and_eq_true] at hxml
    have hb := Text.isBoundary_of_startsAt (Ascii.lt (by decide)) hx hxml.2.1
    exact moves_emit ⟨by omega, hb⟩ (by decide) (by decide)
  split
  · rename_i pos hpos
    exact moves_emit (ahead_of_name? hpos) (by decide) (by decide)
  · exact moves_insideInstruction hx hlt

theorem literalFault_ne (closed : Bool) : literalFault closed ≠ some .unexpectedCharacter := by
  cases closed <;> decide

theorem moves_unrecognized {stops : List UInt8} (hs : Ascii stops) (hx : isBoundary s x.pos = true)
    (hlt : x.pos < size s) : MovesFrom s (unrecognized stops s x) x.pos := by
  unfold unrecognized
  refine moves_emit ?_ (by decide) (by decide)
  split
  · exact ahead_nextChar hlt hx
  · rename_i hne
    have hle : x.pos ≤ untilAny stops s x.pos := le_untilAny stops
    exact ⟨Nat.lt_of_le_of_ne hle fun h => hne (beq_iff_eq.mpr h.symm),
      isBoundary_untilAny hs (Nat.le_of_lt hlt)⟩

/-- A parameter that was found moves the lexer, and so does what stands in for one that was not. -/
theorem moves_getD_map {α : Type} {o : Option α} {f : α → Lexed} {r : Lexed}
    (hf : ∀ a, o = some a → MovesFrom s (f a) i) (hr : MovesFrom s r i) :
    MovesFrom s ((o.map f).getD r) i := by
  cases o with
  | none => exact hr
  | some a => exact hf a rfl

theorem moves_doctypeParameter (stage : DoctypeStage) (hx : isBoundary s x.pos = true)
    (hlt : x.pos < size s) : MovesFrom s (doctypeParameter s x stage) x.pos := by
  have hjunk : MovesFrom s (unrecognized [0x3C, 0x3E, 0x5B] s x) x.pos :=
    moves_unrecognized (by decide) hx hlt
  cases stage with
  | start =>
    exact moves_getD_map (fun pos h => moves_emit (ahead_of_name? h) (by decide) (by decide)) hjunk
  | named =>
    simp only [doctypeParameter]
    split
    · rename_i pos hpos
      exact moves_emit (ahead_of_keyword? (by decide) hx hpos) (by decide) (by decide)
    · exact moves_getD_map
        (fun pos h => moves_emit (ahead_of_keyword? (by decide) hx h) (by decide) (by decide)) hjunk
  | publicKeyword | systemKeyword | publicId =>
    exact moves_getD_map
      (fun _ h => moves_emit (ahead_of_quoted? (by decide) h) (by decide) (literalFault_ne _)) hjunk
  | ids | subset => exact hjunk

theorem moves_doctype (stage : DoctypeStage) (hx : isBoundary s x.pos = true)
    (hlt : x.pos < size s) : MovesFrom s (doctype s x stage) x.pos := by
  unfold doctype
  split
  · rename_i pos hpos
    exact moves_emitSpace (ahead_of_space? hx hpos) (by decide)
  split
  · rename_i hopen
    simp only [Bool.and_eq_true] at hopen
    exact moves_emit (ahead_succ (byte?_of_sees hopen.2) (by decide)) (by decide) (by decide)
  split
  · rename_i hclose
    exact moves_emit (ahead_succ (byte?_of_sees hclose) (by decide)) (by decide) (by decide)
  split
  · exact moves_content hx hlt
  · exact moves_doctypeParameter stage hx hlt

theorem moves_elementContent (hlt : x.pos < size s)
    (hopen : x.sees s 0x3C = false) (hclose : x.sees s 0x3E = false) :
    MovesFrom s (elementContent s x) x.pos := by
  have hb := Text.byte?_of_lt hlt
  simp only [sees, peek, hb, beq_eq_false_iff_ne, ne_eq, Option.some.injEq] at hopen hclose
  unfold elementContent
  split
  · rename_i hparen
    have hnext := ahead_succ (byte?_of_sees hparen) (by decide)
    refine moves_emit ?_ (by decide) (by decide)
    cases hmark : byte? s (x.pos + 1) with
    | none => exact hnext
    | some b =>
      dsimp only
      split
      · rename_i hmarked
        refine ahead_of_le hnext (Nat.le_succ _) (Text.isBoundary_succ hmark ?_)
        simp only [Bool.or_eq_true, beq_iff_eq] at hmarked
        rcases hmarked with (rfl | rfl) | rfl <;> decide
      · exact hnext
  · rename_i hparen
    simp only [sees, peek, hb, beq_iff_eq, Option.some.injEq] at hparen
    exact moves_emit
      ⟨lt_groupEnd 0 hb hparen hopen hclose, isBoundary_groupEnd 0 (Nat.le_of_lt hlt)⟩
      (by decide) (by decide)

theorem moves_declarationParameter (stage : DeclarationStage) (hx : isBoundary s x.pos = true)
    (hlt : x.pos < size s) (hopen : x.sees s 0x3C = false) (hclose : x.sees s 0x3E = false) :
    MovesFrom s (declarationParameter s x stage) x.pos := by
  have hstops : Ascii (if x.inSubset then [0x3C, 0x3E, 0x5D] else [0x3C, 0x3E]) := by
    split <;> decide
  have hjunk := moves_unrecognized hstops hx hlt
  cases stage with
  | elementStart | attlistStart | attributeName | notationStart =>
    exact moves_getD_map (fun pos h => moves_emit (ahead_of_name? h) (by decide) (by decide)) hjunk
  | elementNamed =>
    simp only [declarationParameter]
    split
    · rename_i hparen
      exact moves_emit (ahead_succ (byte?_of_sees hparen) (by decide)) (by decide) (by decide)
    · refine moves_getD_map ?_ (moves_getD_map ?_ hjunk) <;>
      exact fun pos h => moves_emit (ahead_of_keyword? (by decide) hx h) (by decide) (by decide)
  | elementContent => exact moves_elementContent hlt hopen hclose
  | elementDone | entityDone | notationDone => exact hjunk
  | attributeType =>
    exact moves_getD_map
      (fun pos h => moves_emit (ahead_of_attributeType? hx h) (by decide) (by decide)) hjunk
  | attributeDefault =>
    exact moves_getD_map (fun _ h =>
      moves_emit (ahead_of_attributeDefault? hx h) (by decide) (literalFault_ne _)) hjunk
  | entityStart =>
    simp only [declarationParameter]
    split
    · rename_i hpercent
      simp only [Bool.and_eq_true] at hpercent
      exact moves_emit (ahead_succ (byte?_of_sees hpercent.1) (by decide)) (by decide) (by decide)
    · exact moves_getD_map (fun pos h => moves_emit (ahead_of_name? h) (by decide) (by decide)) hjunk
  | entityNamed =>
    refine moves_getD_map ?_ (moves_getD_map ?_ (moves_getD_map ?_ hjunk))
    · exact fun pos h => moves_emit (ahead_of_keyword? (by decide) hx h) (by decide) (by decide)
    · exact fun pos h => moves_emit (ahead_of_keyword? (by decide) hx h) (by decide) (by decide)
    · exact fun _ h => moves_emit (ahead_of_quoted? (by decide) h) (by decide) (literalFault_ne _)
  | notationNamed =>
    refine moves_getD_map ?_ (moves_getD_map ?_ hjunk) <;>
    exact fun pos h => moves_emit (ahead_of_keyword? (by decide) hx h) (by decide) (by decide)
  | entityPublic | entityPublicId | entitySystem | notationPublic | notationPublicId
  | notationSystem =>
    exact moves_getD_map
      (fun _ h => moves_emit (ahead_of_quoted? (by decide) h) (by decide) (literalFault_ne _)) hjunk

theorem moves_declaration (stage : DeclarationStage) (hx : isBoundary s x.pos = true)
    (hlt : x.pos < size s) : MovesFrom s (declaration s x stage) x.pos := by
  unfold declaration
  split
  · rename_i pos hpos
    exact moves_emitSpace (ahead_of_space? hx hpos) (by decide)
  split
  · rename_i hclose
    exact moves_emit (ahead_succ (byte?_of_sees hclose) (by decide)) (by decide) (by decide)
  split
  · exact moves_dtdContent hx hlt
  · rename_i hclose hopen
    simp only [Bool.or_eq_true, not_or, Bool.not_eq_true] at hclose hopen
    exact moves_declarationParameter stage hx hlt hopen.1 hclose

theorem moves_lex (hx : isBoundary s x.pos = true) (hlt : x.pos < size s) :
    MovesFrom s (lex s x) x.pos := by
  rw [lex, if_neg (Nat.not_le_of_lt hlt)]
  split
  · exact moves_content hx hlt
  · exact moves_startTag hx hlt
  · exact moves_endTag hx hlt
  · exact moves_insideTag hx hlt
  · exact moves_insideTag hx hlt
  · exact moves_insideEndTag hx hlt
  · exact moves_attributeAssign hx hlt
  · exact moves_attributeValue hx hlt
  · exact moves_delimited (by decide) (by decide) (by decide) (by decide) hx hlt
  · exact moves_delimited (by decide) (by decide) (by decide) (by decide) hx hlt
  · exact moves_instruction hx hlt
  · exact moves_insideInstruction hx hlt
  · exact moves_dtdContent hx hlt
  · exact moves_doctype _ hx hlt
  · exact moves_declaration _ hx hlt

/-! ## The whole scan -/

theorem step_eq_lex (hx : isBoundary s x.pos = true) (hlt : x.pos < size s) :
    x.step s = (⟨(lex s x).kind, x.pos, (lex s x).lexer.pos, (lex s x).fault⟩, (lex s x).lexer) := by
  have hmoves := moves_lex hx hlt
  rw [step, if_neg fun h => Nat.not_lt_of_le h.2 hmoves.ahead.1]

theorem step_at_end (h : size s ≤ x.pos) : x.step s = (⟨.eos, x.pos, x.pos, none⟩, x) := by
  simp [step, lex, h]

theorem tokens_cons (h : (x.step s).1.kind ≠ .eos) :
    x.tokens s = x.step s :: (x.step s).2.tokens s := by
  rw [tokens, run, dif_neg h, List.filter_cons_of_pos (by simpa using h)]
  rfl

theorem tokens_at_end (h : size s ≤ x.pos) : x.tokens s = [] := by
  rw [tokens, run, dif_pos (by rw [step_at_end h]), step_at_end h]
  rfl

def after (s : String) (x : Lexer) : Nat → Lexer
  | 0 => x
  | n + 1 => ((x.step s).2).after s n

/-- The tokens cover the text from `i` up to its end: each starts at a boundary where the one before
it stops, and none is empty. -/
def Tiles (s : String) : Nat → List Token → Prop
  | i, [] => i = size s
  | i, t :: ts => t.start = i ∧ t.start < t.stop ∧ isBoundary s t.start = true ∧
      isBoundary s t.stop = true ∧ Tiles s t.stop ts

/-- No character has to be skipped at `x`: the mode itself moves forward, or the text ends. -/
def Advances (s : String) (x : Lexer) : Prop :=
  (lex s x).kind = .eos ∨ x.pos < (lex s x).lexer.pos

/-- A scan that starts at `x`, which is at offset `i`, reads `n` tokens that cover the rest of the
text, then the end. -/
structure Scans (s : String) (x : Lexer) (i n : Nat) : Prop where
  run : x.run s = (List.range (n + 1)).map fun k => (x.after s k).step s
  tiles : Tiles s i ((List.range n).map fun k => ((x.after s k).step s).1)
  inside : ∀ k < n, ((x.after s k).step s).1.kind ≠ .eos
  stop : ((x.after s n).step s).1 = ⟨.eos, size s, size s, none⟩
  advances : ∀ k, Advances s (x.after s k)
  fault : ∀ k, ((x.after s k).step s).1.fault ≠ some .unexpectedCharacter

theorem after_at_end (h : size s ≤ x.pos) (k : Nat) : x.after s k = x := by
  induction k with
  | zero => rfl
  | succ k ih => rw [after, step_at_end h, ih]

theorem scans_at_end (hx : isBoundary s x.pos = true) (h : size s ≤ x.pos) : Scans s x x.pos 0 := by
  have hpos : x.pos = size s := Nat.le_antisymm (Text.le_size_of_isBoundary hx) h
  have hstep := step_at_end h
  refine ⟨?_, hpos, by simp, ?_, fun k => ?_, fun k => ?_⟩
  · rw [run, dif_pos (by rw [hstep])]
    rfl
  · rw [after_at_end h, hstep, hpos]
  · rw [after_at_end h, Advances, lex, if_pos h]
    exact .inl rfl
  · rw [after_at_end h, hstep]
    simp

theorem scans_succ {n : Nat} (hx : isBoundary s x.pos = true) (hlt : x.pos < size s)
    (h : Scans s (x.step s).2 (x.step s).2.pos n) : Scans s x x.pos (n + 1) := by
  have hmoves := moves_lex hx hlt
  have hstep := step_eq_lex hx hlt
  refine ⟨?_, ?_, ?_, h.stop, ?_, ?_⟩
  · rw [run, dif_neg (by rw [hstep]; exact hmoves.kind), h.run,
      List.range_succ_eq_map (n := n + 1)]
    simp [after]
  · rw [List.range_succ_eq_map, List.map_cons, List.map_map]
    refine ⟨by rw [after, hstep], ?_, ?_, ?_, ?_⟩
    all_goals rw [after]
    · rw [hstep]; exact hmoves.ahead.1
    · rw [hstep]; exact hx
    · rw [hstep]; exact hmoves.ahead.2
    · have : (x.step s).1.stop = (x.step s).2.pos := by rw [hstep]
      rw [this]
      exact h.tiles
  · rintro (_ | k) hk
    · rw [after, hstep]; exact hmoves.kind
    · exact h.inside k (Nat.lt_of_succ_lt_succ hk)
  · rintro (_ | k)
    · exact .inr hmoves.ahead.1
    · exact h.advances k
  · rintro (_ | k)
    · rw [after, hstep]; exact hmoves.fault
    · exact h.fault k

theorem exists_scans (s : String) (x : Lexer) (hx : isBoundary s x.pos = true) :
    ∃ n, Scans s x x.pos n := by
  rcases Nat.lt_or_ge x.pos (size s) with hlt | hge
  · have hstep := step_eq_lex hx hlt
    have hmoves := moves_lex hx hlt
    have hnext : (x.step s).2.pos = (lex s x).lexer.pos := by rw [hstep]
    have hahead : x.pos < (x.step s).2.pos := by rw [hnext]; exact hmoves.ahead.1
    obtain ⟨n, hn⟩ := exists_scans s (x.step s).2 (by rw [hnext]; exact hmoves.ahead.2)
    exact ⟨n + 1, scans_succ hx hlt hn⟩
  · exact ⟨0, scans_at_end hx hge⟩
termination_by size s - x.pos
decreasing_by omega

/-- **A scan covers the text.** Started at any boundary in any mode, at the start of a document or
at the start of a file of declarations, the lexer reads finitely many tokens, which are not empty
and cover the rest of the text without gap or overlap from boundary to boundary, and then the end;
no mode ever fails to move. -/
theorem scan_covers_text (s : String) :
    (∀ i mode, isBoundary s i = true → ∃ n, Scans s (restart s i mode) i n) ∧
      (∃ n, Scans s document 0 n) ∧ ∃ n, Scans s declarations 0 n := by
  refine ⟨fun i mode hi => ?_, ?_, ?_⟩
  · have hpos : (restart s i mode).pos = i := Nat.min_eq_left (Text.le_size_of_isBoundary hi)
    have h := exists_scans s (restart s i mode) (by rw [hpos]; exact hi)
    rwa [hpos] at h
  · exact exists_scans s document (Text.isBoundary_zero s)
  · exact exists_scans s declarations (Text.isBoundary_zero s)

/-- In the text `é<`, the offset behind `é` is a boundary; a scan from there in the content of a
document covers the `<`. -/
theorem scan_covers_text_behind_letter :
    isBoundary "é<" 2 = true ∧ ∃ n, Scans "é<" (restart "é<" 2 .content) 2 n :=
  have h : isBoundary "é<" 2 = true := by decide
  ⟨h, (scan_covers_text "é<").1 2 .content h⟩

end XmlAssist.Lexer

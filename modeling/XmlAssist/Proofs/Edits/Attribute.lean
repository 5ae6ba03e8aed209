import XmlAssist.Proofs.Lexer.TagName
import XmlAssist.Proofs.Tree.Tagged

/-!
# A start tag that changes at an attribute

What is read in front of the `=` or of the value of an attribute does not depend on what is written in the place
of these, as long as it neither goes on with the name nor looks like markup (`Leads.upTo_attribute`). An
attribute that lacks its `=` goes on like a tag (`Leads.unassigned`).
-/

namespace XmlAssist

open Text (SameTo byte? size isBoundary rest bytesOf startsAt)

namespace Lexer

variable {s s' : String} {x y z w : Lexer} {l m : List (Token × Lexer)} {i k : Nat}

/-! ## Openers -/

theorem startsAt_of_sameTo {lit : List UInt8} (h : SameTo s s' k) (hi : i ≤ k)
    (hlit : ∀ b ∈ lit, byte? s' k ≠ some b) (hstands : startsAt s' i lit = true) : startsAt s i lit = true := by
  induction lit generalizing i with
  | nil => rfl
  | cons b lit ih =>
    simp only [startsAt, Bool.and_eq_true, beq_iff_eq] at hstands ⊢
    rcases Nat.lt_or_eq_of_le hi with hlt | rfl
    · exact ⟨h.byte hlt ▸ hstands.1, ih hlt (fun c hc => hlit c (List.mem_cons_of_mem _ hc)) hstands.2⟩
    · exact absurd hstands.1 (hlit b List.mem_cons_self)

theorem startsAt_sameTo {lit : List UInt8} (h : SameTo s s' k) (hle : i + lit.length ≤ k) :
    startsAt s' i lit = startsAt s i lit := by
  induction lit generalizing i with
  | nil => rfl
  | cons b lit ih =>
    rw [List.length_cons] at hle
    simp only [startsAt]
    rw [h.byte (by omega), ih (by omega)]

theorem literal?_sameTo {lit : String} (h : SameTo s s' k) (hi : i ≤ k)
    (hlit : ∀ b ∈ bytesOf lit, byte? s' k ≠ some b) (hstop : ∀ j ∈ literal? lit s i, j ≤ k) :
    literal? lit s' i = literal? lit s i := by
  unfold literal? at hstop ⊢
  by_cases hstands : startsAt s i (bytesOf lit) = true
  · rw [if_pos hstands] at hstop ⊢
    have hle : i + (bytesOf lit).length ≤ k := by
      rw [Text.length_bytesOf]
      exact hstop _ rfl
    rw [startsAt_sameTo h hle, if_pos hstands]
  · rw [if_neg hstands, if_neg fun hstands' => hstands (startsAt_of_sameTo h hi hlit hstands')]

theorem firstOpener_sameTo {openers : List (String × Token.Kind × Mode)} (h : SameTo s s' k) (hx : x.pos ≤ k)
    (hlit : ∀ o ∈ openers, ∀ b ∈ bytesOf o.1, byte? s' k ≠ some b)
    (hstop : ∀ r ∈ firstOpener s x openers, r.lexer.pos ≤ k) :
    firstOpener s' x openers = firstOpener s x openers := by
  induction openers with
  | nil => rfl
  | cons o openers ih =>
    obtain ⟨lit, kind, mode⟩ := o
    simp only [firstOpener] at hstop ⊢
    have hsame : literal? lit s' x.pos = literal? lit s x.pos := by
      refine literal?_sameTo h hx (hlit _ List.mem_cons_self) fun j hj => ?_
      rw [hj] at hstop
      exact hstop _ rfl
    rw [hsame]
    cases hj : literal? lit s x.pos with
    | some j => rfl
    | none =>
      rw [hj] at hstop
      exact ih (fun o ho => hlit o (List.mem_cons_of_mem _ ho)) hstop

/-- The byte at an offset is in no opener of markup. -/
def NoOpener (s : String) (k : Nat) : Prop :=
  ∀ o ∈ contentOpeners ++ dtdOpeners, ∀ b ∈ bytesOf o.1, byte? s k ≠ some b

section opener

variable (h : SameTo s s' k) (hx : x.pos + 1 < k) (hopen : NoOpener s' k)
include h hx hopen

theorem content_sameTo (hkind : (content s x).kind = .startTagOpen) : content s' x = content s x := by
  unfold content at hkind ⊢
  have hsame : firstOpener s' x contentOpeners = firstOpener s x contentOpeners := by
    refine firstOpener_sameTo h (by omega) (fun o ho => hopen o (List.mem_append_left _ ho)) fun r hr => ?_
    rw [hr] at hkind
    obtain ⟨o, ho, rfl⟩ := firstOpener_eq_some hr
    have hsizes : ∀ o ∈ contentOpeners, o.2.1 = .startTagOpen → size o.1 = 1 := by decide
    have hsize := hsizes o ho hkind
    simp only [emit]
    omega
  rw [hsame]
  cases hr : firstOpener s x contentOpeners with
  | some r => rfl
  | none =>
    rw [hr] at hkind
    cases hkind

theorem dtdContent_sameTo (hb : byte? s x.pos = some 0x3C) (hkind : (dtdContent s x).kind = .startTagOpen) :
    dtdContent s' x = dtdContent s x := by
  have hb' : byte? s' x.pos = some 0x3C := (h.byte (by omega)).trans hb
  have hspace {t : String} (ht : byte? t x.pos = some 0x3C) : space? t x.pos = none :=
    space?_eq_none fun b hb => by rw [head?_bracket ht hb]; rfl
  have hsees {t : String} (ht : byte? t x.pos = some 0x3C) : x.sees t 0x5D = false := by
    rw [sees, peek, ht]
    rfl
  have htag : x.seesTag s' = x.seesTag s := by
    rw [seesTag, seesTag, sees_sameTo h (by omega), h.byte hx]
  unfold dtdContent at hkind ⊢
  rw [hspace hb] at hkind
  rw [hspace hb, hspace hb']
  dsimp only at hkind ⊢
  rw [hsees hb, Bool.and_false] at hkind
  rw [hsees hb, hsees hb', Bool.and_false]
  simp only [Bool.false_eq_true, if_false] at hkind ⊢
  have hnone : firstOpener s x dtdOpeners = none := by
    refine Option.eq_none_iff_forall_ne_some.mpr fun r hr => ?_
    rw [hr] at hkind
    obtain ⟨o, ho, rfl⟩ := firstOpener_eq_some hr
    have hkinds : ∀ o ∈ dtdOpeners, o.2.1 ≠ .startTagOpen := by decide
    exact hkinds o ho hkind
  have hsame : firstOpener s' x dtdOpeners = firstOpener s x dtdOpeners :=
    firstOpener_sameTo h (by omega) (fun o ho => hopen o (List.mem_append_right _ ho)) (by simp [hnone])
  rw [hnone] at hkind hsame
  rw [hsame, hnone, htag]
  dsimp only at hkind ⊢
  split
  · rename_i hsubset
    rw [if_pos hsubset] at hkind
    exact content_sameTo (x := { x with inSubset := false, mode := .content }) h hx hopen hkind
  · rename_i hsubset
    rw [if_neg hsubset] at hkind
    cases hkind

theorem step_startTagOpen_sameTo (hc : x.Consistent) (hbound : isBoundary s x.pos = true)
    (hkind : (x.step s).1.kind = .startTagOpen) : x.step s' = x.step s := by
  have hlt : x.pos < size s := by
    have := h.le
    omega
  have hstep := step_eq_lex hbound hlt
  have hahead := Leads.pos_lt_step hbound hlt
  rw [hstep] at hkind hahead ⊢
  have hmarkup : (lex s x).kind.opensMarkup = true := by
    rw [show (lex s x).kind = .startTagOpen from hkind]
    rfl
  have hb := byte?_of_opensMarkup hmarkup
  have hb' : byte? s' x.pos = some 0x3C := (h.byte (by omega)).trans hb
  have hyields := yields_of_opensMarkup hmarkup
  have hlex : lex s' x = lex s x := by
    change (lex s x).kind = .startTagOpen at hkind
    rw [lex_bracket hb hc hyields] at hkind ⊢
    rw [lex_bracket hb' hc hyields]
    unfold betweenMarkup at hkind ⊢
    split
    · rename_i hdtd
      rw [if_pos hdtd] at hkind
      exact dtdContent_sameTo (x := { x.back with mode := .dtdContent }) h (by simpa using hx) hopen
        (by simpa using hb) hkind
    · rename_i hdtd
      rw [if_neg hdtd] at hkind
      exact content_sameTo (x := { x.back with mode := .content }) h (by simpa using hx) hopen hkind
  rw [Lexer.step, hlex, if_neg fun hc => Nat.not_le_of_lt hahead hc.2]

end opener

/-! ## Tokens of a start tag -/

/-- Behind the name of an attribute, up to its value. -/
def Mode.awaits : Mode → Bool
  | .afterAttributeName | .beforeAttributeValue => true
  | _ => false

/-- What is read at `i` in a start tag: in front of the `=` and of the value of an attribute there are no faults and no
slashes, and a value without its closing quote goes up to a bracket. -/
structure Tidy (s : String) (i : Nat) (r : Lexed) : Prop where
  awaiting : r.lexer.mode.awaits = true → r.fault = none ∧ r.kind ≠ .attributeValue ∧ byte? s i ≠ some 0x2F
  named : r.kind = .attributeName → r.lexer.spaced = false
  unterminated : r.fault = some .unterminatedAttributeValue → r.lexer.mode.awaits = false ∧
    (byte? s r.lexer.pos = none ∨ byte? s r.lexer.pos = some 0x3C ∨ byte? s r.lexer.pos = some 0x3E)

theorem tidy_of_mode {r : Lexed} (hmode : r.lexer.mode.awaits = false) (hkind : r.kind ≠ .attributeName)
    (hfault : r.fault ≠ some .unterminatedAttributeValue) : Tidy s i r :=
  ⟨fun h => absurd (hmode.symm.trans h) Bool.false_ne_true, fun h => absurd h hkind, fun h => absurd h hfault⟩

theorem byte?_of_space? {j : Nat} (h : space? s i = some j) : ∃ b, byte? s i = some b ∧ isSpace b = true := by
  unfold space? at h
  dsimp only at h
  split at h
  · rename_i hlt
    rw [Text.skipWhile] at hlt
    split at hlt
    · rename_i hi
      split at hlt
      · exact ⟨_, Text.byte?_of_lt hi, ‹_›⟩
      · exact absurd hlt (Nat.lt_irrefl i)
    · exact absurd hlt (Nat.lt_irrefl i)
  · cases h

theorem byte?_of_name? {j : Nat} (h : name? s i = some j) : ∃ b, byte? s i = some b ∧ isNameStart b = true := by
  unfold name? at h
  split at h
  · rename_i b hb
    split at h
    · exact ⟨b, hb, ‹_›⟩
    · cases h
  · cases h

theorem tidy_emitSpace {j : Nat} (h : space? s x.pos = some j) (fault : Option Token.Fault)
    (hfault : fault = none ∨ (x.mode.awaits = false ∧ fault ≠ some .unterminatedAttributeValue)) :
    Tidy s x.pos (x.emitSpace j fault) := by
  obtain ⟨b, hb, hspace⟩ := byte?_of_space? h
  rcases hfault with rfl | ⟨hmode, hfault⟩
  · refine ⟨fun _ => ⟨rfl, by simp [emitSpace, emit], ?_⟩, by simp [emitSpace, emit],
      by simp [emitSpace, emit]⟩
    rw [hb]
    rintro ⟨⟩
    cases hspace
  · exact tidy_of_mode hmode (by simp [emitSpace, emit]) hfault

theorem tidy_content : Tidy s i (content s { x with mode := .content }) := by
  unfold content
  split
  · rename_i r hr
    obtain ⟨o, ho, rfl⟩ := firstOpener_eq_some hr
    have hmodes : ∀ o ∈ contentOpeners, o.2.2.awaits = false ∧ o.2.1 ≠ .attributeName := by decide
    exact tidy_of_mode (hmodes o ho).1 (hmodes o ho).2 (by simp [emit])
  · exact tidy_of_mode rfl (by simp [emit]) (by simp [emit])

theorem tidy_insideTag (hp : x.inProlog = false) (hd : x.inDtd = false) (hmode : x.mode = .inTag) :
    Tidy s x.pos (insideTag s x) := by
  unfold insideTag
  simp only [hp, Bool.false_eq_true, if_false, Bool.not_false, Bool.true_and]
  split
  · exact tidy_emitSpace (x := { x with spaced := true, inProlog := false }) ‹_› none (.inl rfl)
  split
  · rename_i j hname
    obtain ⟨b, hb, hstart⟩ : ∃ b, byte? s x.pos = some b ∧ isNameStart b = true := by
      split at hname
      · exact byte?_of_name? hname
      · cases hname
    refine ⟨fun _ => ⟨rfl, by simp [emit], ?_⟩, fun _ => rfl, by simp [emit]⟩
    rw [hb]
    rintro ⟨⟩
    cases hstart
  split
  · exact tidy_of_mode rfl (by simp [emit]) (by simp [emit])
  split
  · exact tidy_of_mode rfl (by simp [emit]) (by simp [emit])
  split
  · have hcontent : betweenMarkup s { x with inProlog := false } =
        content s { x with inProlog := false, mode := .content } := if_neg (Bool.eq_false_iff.mp hd)
    rw [hcontent]
    exact tidy_content (x := { x with inProlog := false })
  · exact tidy_of_mode (by simp [emit, hmode, Mode.awaits]) (by simp [emit]) (by simp [emit])

theorem tidy_startTag (hp : x.inProlog = false) (hd : x.inDtd = false) (hmode : x.mode = .afterStartTagOpen) :
    Tidy s x.pos (startTag s x) := by
  unfold startTag
  split
  · exact tidy_of_mode rfl (by simp [emit]) (by simp [emit])
  split
  · exact tidy_emitSpace ‹_› _ (.inr ⟨by simp [hmode, Mode.awaits], by simp⟩)
  · exact tidy_insideTag (x := { x with mode := .inTag, spaced := false }) hp hd rfl

theorem tidy_backInTag (hp : x.inProlog = false) (hd : x.inDtd = false) : Tidy s x.pos (backInTag s x) :=
  tidy_insideTag (x := { x with mode := x.tagMode }) hp hd (by simp [tagMode, hp])

theorem tidy_attributeAssign (hp : x.inProlog = false) (hd : x.inDtd = false) :
    Tidy s x.pos (attributeAssign s x) := by
  unfold attributeAssign
  split
  · exact tidy_emitSpace (x := { x with spaced := true }) ‹_› none (.inl rfl)
  split
  · rename_i hassign
    rw [sees, peek, beq_iff_eq] at hassign
    exact ⟨fun _ => ⟨rfl, by simp [emit], by simp [hassign]⟩, by simp [emit], by simp [emit]⟩
  · exact tidy_backInTag hp hd

theorem byte?_of_unterminated {q : UInt8} (hopen : (quotedValueStop q s i).2 = false) :
    byte? s (quotedValueStop q s i).1 = none ∨ byte? s (quotedValueStop q s i).1 = some 0x3C ∨
      byte? s (quotedValueStop q s i).1 = some 0x3E := by
  have heq : quotedValueStop q s i =
      if byte? s (untilAny [q, 0x3C] s (i + 1)) == some q then (untilAny [q, 0x3C] s (i + 1) + 1, true)
      else (min (untilAny [q, 0x3C] s (i + 1)) (untilAny [0x3E] s (i + 1)), false) := rfl
  rw [heq] at hopen ⊢
  split at hopen
  · cases hopen
  rename_i hquote
  rw [if_neg hquote]
  have hstop (stops : List UInt8) : ∀ b ∈ byte? s (untilAny stops s (i + 1)), b ∈ stops := fun b hb => by
    have hstopped := Text.skipWhile_stop (p := fun c => !stops.contains c) hb
    simpa using hstopped
  rcases Nat.le_total (untilAny [q, 0x3C] s (i + 1)) (untilAny [0x3E] s (i + 1)) with hle | hle
  · rw [Nat.min_eq_left hle]
    cases hb : byte? s (untilAny [q, 0x3C] s (i + 1)) with
    | none => exact .inl rfl
    | some b =>
      rcases List.mem_cons.mp (hstop _ b hb) with rfl | hb'
      · rw [hb] at hquote
        simp at hquote
      · rw [List.mem_singleton.mp hb']
        exact .inr (.inl rfl)
  · rw [Nat.min_eq_right hle]
    cases hb : byte? s (untilAny [0x3E] s (i + 1)) with
    | none => exact .inl rfl
    | some b =>
      rw [List.mem_singleton.mp (hstop _ b hb)]
      exact .inr (.inr rfl)

theorem tidy_attributeValue (hp : x.inProlog = false) (hd : x.inDtd = false) :
    Tidy s x.pos (attributeValue s x) := by
  have hmode : x.tagMode.awaits = false := by simp [tagMode, hp, Mode.awaits]
  unfold attributeValue
  split
  · exact tidy_emitSpace ‹_› none (.inl rfl)
  split
  · rename_i q _
    refine ⟨fun h => absurd (hmode.symm.trans h) Bool.false_ne_true, by simp [emit], fun hfault => ⟨hmode, ?_⟩⟩
    refine byte?_of_unterminated (Bool.eq_false_iff.mpr fun hclosed => ?_)
    simp [emit, hclosed] at hfault
  · dsimp only
    split
    · exact tidy_of_mode hmode (by simp [emit]) (by simp [emit])
    · exact tidy_backInTag (x := { x with spaced := false }) hp hd

theorem tidy_step (hc : x.Consistent) (hbound : isBoundary s x.pos = true) (hlt : x.pos < size s)
    (hin : x.inStartTag = true) : Tidy s x.pos ⟨(x.step s).1.kind, (x.step s).2, (x.step s).1.fault⟩ := by
  obtain ⟨hp, hd, hmode⟩ := hc.of_inStartTag hin
  rw [step_eq_lex hbound hlt]
  show Tidy s x.pos (lex s x)
  rw [lex, if_neg (Nat.not_le_of_lt hlt)]
  rcases hmode with hmode | hmode | hmode | hmode <;> rw [hmode]
  · exact tidy_startTag hp hd hmode
  · exact tidy_insideTag hp hd hmode
  · exact tidy_attributeAssign hp hd
  · exact tidy_attributeValue hp hd

theorem insideTag_close (hp : x.inProlog = false) (hb : byte? s x.pos = some 0x3E) :
    insideTag s x = x.emit .startTagClose (x.pos + 1) .content := by
  have hnone {p : UInt8 → Bool} (hp : p 0x3E = false) : ∀ b ∈ (rest s x.pos).head?, p b = false := by
    intro b hmem
    rw [← Text.byte?_eq_head?, hb] at hmem
    cases hmem
    exact hp
  have hslash : literal? "/>" s x.pos = none := by
    rw [literal?_close, hb, if_neg (by simp)]
  unfold insideTag
  simp [space?_eq_none (hnone rfl), name?_eq_none (hnone rfl), hslash, hp, sees, peek, hb]

theorem leaves_at_bracket (hc : x.Consistent) (hbound : isBoundary s x.pos = true) (hin : x.inStartTag = true)
    (hmode : x.mode.awaits = false) (hb : byte? s x.pos = some 0x3C ∨ byte? s x.pos = some 0x3E) :
    (x.step s).1.kind.inStartTag = false ∨ (x.step s).2.inStartTag = false := by
  have hlt : x.pos < size s := by
    rcases hb with hb | hb <;> exact Text.lt_size_of_byte? hb
  obtain ⟨hp, hd, hmodes⟩ := hc.of_inStartTag hin
  rw [step_eq_lex hbound hlt]
  rcases hb with hb | hb
  · left
    have hyields : x.mode.yields = true := by
      rcases hmodes with hm | hm | hm | hm <;> rw [hm] <;> rfl
    show (lex s x).kind.inStartTag = false
    rw [lex_bracket hb hc hyields, betweenMarkup, if_neg (by simp [hd])]
    exact kind_content s { x.back with mode := .content }
  · right
    suffices h : (lex s x).lexer.mode = .content by rw [inStartTag, h]
    rw [lex, if_neg (Nat.not_le_of_lt hlt)]
    rcases hmodes with hm | hm | hm | hm <;> rw [hm] at hmode ⊢
    · show (startTag s x).lexer.mode = .content
      have hnone {p : UInt8 → Bool} (hp : p 0x3E = false) : ∀ b ∈ (rest s x.pos).head?, p b = false := by
        intro b hmem
        rw [← Text.byte?_eq_head?, hb] at hmem
        cases hmem
        exact hp
      rw [startTag, name?_eq_none (hnone rfl), space?_eq_none (hnone rfl)]
      exact congrArg (·.lexer.mode) (insideTag_close (x := { x with mode := .inTag, spaced := false }) hp hb)
    · exact congrArg (·.lexer.mode) (insideTag_close hp hb)
    · cases hmode
    · cases hmode

theorem Leads.settled {m : List (Token × Lexer)} (hm : Leads s x m w) (hbound : isBoundary s x.pos = true)
    (hc : x.Consistent) (hin : x.inStartTag = true) (hstays : StaysInTag m)
    (hkinds : ∀ p ∈ m, p.1.kind.inStartTag = true) (hmode : w.mode.awaits = true) (hbreak : Breaks s' w.pos) :
    ∀ p ∈ m, Settled s s' w.pos ⟨p.1.kind, p.2, p.1.fault⟩ := by
  induction hm with
  | here => simp
  | @next x w m hlt hrest ih =>
    obtain ⟨hkind, hkinds⟩ := List.forall_mem_cons.mp hkinds
    obtain ⟨hstay, hstays⟩ := List.forall_mem_cons.mp hstays
    have htidy := tidy_step hc hbound hlt hin
    have hbound' := boundary_step hbound hlt
    refine List.forall_mem_cons.mpr ⟨?_, ih hbound' (hc.step hbound hlt) hstay hstays hkinds hmode hbreak⟩
    cases hrest with
    | here =>
      obtain ⟨hfault, hvalue, -⟩ := htidy.awaiting hmode
      exact ⟨.inr ⟨rfl, hfault, hbreak, fun h => absurd h hvalue⟩, fun h => absurd h (Nat.lt_irrefl _),
        fun h => absurd (hfault.symm.trans h) (by simp), hkind⟩
    | next hlt' hrest' =>
      have hahead := pos_lt_step hbound' hlt'
      have hle := hrest'.pos_le (boundary_step hbound' hlt')
      have htidy' := tidy_step (hc.step hbound hlt) hbound' hlt' hstay
      refine ⟨.inl (Nat.lt_of_lt_of_le hahead hle), fun _ hslash => ?_, fun hfault => ?_, hkind⟩
      · cases hrest' with
        | here => exact absurd hslash (htidy'.awaiting hmode).2.2
        | next hlt'' hrest'' =>
          have hahead' := pos_lt_step (boundary_step hbound' hlt') hlt''
          have hle' := hrest''.pos_le (boundary_step (boundary_step hbound' hlt') hlt'')
          show (x.step s).2.pos + 1 < w.pos
          omega
      · obtain ⟨hmode', hnone | hbracket⟩ := htidy.unterminated hfault
        · rw [Text.byte?_of_lt hlt'] at hnone
          cases hnone
        · rcases leaves_at_bracket (hc.step hbound hlt) hbound' hstay hmode' hbracket with h | h
          · rw [hkinds _ List.mem_cons_self] at h
            cases h
          · rw [hstays _ List.mem_cons_self] at h
            cases h

/-- **In front of an `=` or a value** all is read as in every text that is the same up to there. -/
theorem Leads.upTo_attribute (hl : Leads s .document l w) (hin : w.inStartTag = true)
    (hmode : w.mode.awaits = true) (h : SameTo s s' w.pos) (hbreak : Breaks s' w.pos) (hopen : NoOpener s' w.pos) :
    Leads s' .document l w := by
  obtain ⟨l₀, z, m, rfl, hz, hlt, hkind, hm, hin₀, hstays, hkinds⟩ :=
    hl.before_inTag consistent_document (Text.isBoundary_zero s) rfl hin
  have hbound := hz.boundary (Text.isBoundary_zero s)
  have hc := hz.consistent consistent_document (Text.isBoundary_zero s)
  have hbound' := boundary_step hbound hlt
  have hahead := pos_lt_step hbound hlt
  have hnext : z.pos + 1 < w.pos := by
    cases hm with
    | here =>
      rw [((mode_of_tagOpen hc hbound hlt).1 hkind).1] at hmode
      cases hmode
    | next hlt' hrest =>
      have := pos_lt_step hbound' hlt'
      have := hrest.pos_le (boundary_step hbound' hlt')
      omega
  have hb : byte? s z.pos = some 0x3C := by
    rw [step_eq_lex hbound hlt] at hkind
    exact byte?_of_opensMarkup (by rw [show (lex s z).kind = .startTagOpen from hkind]; rfl)
  have hb' : byte? s' z.pos = some 0x3C := (h.byte (by omega)).trans hb
  have hstep := step_startTagOpen_sameTo h hnext hopen hc hbound hkind
  have htag := hm.sameTo h hbound' (hc.step hbound hlt) hin₀ (fun p hp => hstays p (List.mem_of_mem_dropLast hp))
    (hm.settled hbound' (hc.step hbound hlt) hin₀ hstays hkinds hmode hbreak)
  refine (hz.upTo (h.mono (by omega)) hb hb').append ?_
  rw [← hstep] at htag ⊢
  exact .next (Text.lt_size_of_byte? hb') htag

/-! ## An attribute without `=` -/

/-- The lexer takes what follows for what follows an attribute. -/
def unassigned (x : Lexer) : Lexer := { x with mode := .inTag }

/-- The same token, and the lexer behind it in another mode at most. -/
structure ReadAlike (p p' : Token × Lexer) : Prop where
  token : p'.1 = p.1
  inDtd : p'.2.inDtd = p.2.inDtd

/-- What follows the name of an attribute is its `=`, or it is read as if the attribute had ended. -/
theorem step_unassigned (hc : x.Consistent) (hbound : isBoundary s x.pos = true) (hlt : x.pos < size s)
    (hin : x.inStartTag = true) (hmode : x.mode = .afterAttributeName) :
    (x.step s).1.kind = .assign ∨
      ((x.step s).1.kind = .blank ∧ (x.step s).2.mode = .afterAttributeName ∧ (x.step s).2.inStartTag = true ∧
        x.unassigned.step s = ((x.step s).1, (x.step s).2.unassigned)) ∨
      x.unassigned.step s = x.step s := by
  obtain ⟨hp, -, -⟩ := hc.of_inStartTag hin
  have htag : x.tagMode = .inTag := by rw [tagMode, if_neg (by simp [hp])]
  rw [step_eq_lex hbound hlt, step_eq_lex (x := x.unassigned) hbound hlt]
  have hlex : lex s x = attributeAssign s x := by rw [lex, if_neg (Nat.not_le_of_lt hlt), hmode]
  have hlex' : lex s x.unassigned = insideTag s x.unassigned := by
    rw [lex, if_neg (show ¬ size s ≤ x.unassigned.pos from Nat.not_le_of_lt hlt)]
    rfl
  rw [hlex, hlex']
  unfold attributeAssign
  cases hspace : space? s x.pos with
  | some j =>
    refine .inr (.inl ⟨rfl, hmode, ?_, ?_⟩)
    · rw [inStartTag, show (Lexed.lexer _).mode = .afterAttributeName from hmode]
      simp [emitSpace, emit, hp]
    · rw [insideTag, show space? s x.unassigned.pos = some j from hspace]
      rfl
  | none =>
    dsimp only
    split
    · exact .inl rfl
    · rw [backInTag, htag]
      exact .inr (.inr rfl)

/-- Behind the name of an attribute without `=` the same is read as behind an attribute. -/
theorem Leads.unassigned (hm : Leads s x m y) (hbound : isBoundary s x.pos = true) (hc : x.Consistent)
    (hin : x.inStartTag = true) (hmode : x.mode = .afterAttributeName)
    (hne : ∀ m₁ p m₂, m = m₁ ++ p :: m₂ → (∀ q ∈ m₁, q.1.kind = .blank) → p.1.kind ≠ .assign) :
    ∃ m' y', Leads s x.unassigned m' y' ∧ y'.pos = y.pos ∧ List.Forall₂ ReadAlike m m' := by
  induction hm with
  | here x => exact ⟨[], _, .here _, rfl, .nil⟩
  | @next x y m hlt hrest ih =>
    rcases step_unassigned hc hbound hlt hin hmode with hassign | ⟨hblank, hmode', hin', hstep⟩ | hstep
    · exact absurd hassign (hne [] _ m rfl (List.forall_mem_nil _))
    · obtain ⟨m', y', hm', hpos, hsame⟩ := ih (Leads.boundary_step hbound hlt) (hc.step hbound hlt) hin' hmode'
        fun m₁ p m₂ hsplit hall => hne (x.step s :: m₁) p m₂ (by rw [hsplit]; rfl)
          (List.forall_mem_cons.mpr ⟨hblank, hall⟩)
      refine ⟨x.unassigned.step s :: m', y', .next hlt ?_, hpos, .cons ⟨?_, ?_⟩ hsame⟩
      · rwa [hstep]
      · rw [hstep]
      · rw [hstep]
        rfl
    · refine ⟨x.unassigned.step s :: m, y, .next hlt (hstep ▸ hrest), rfl, .cons ⟨?_, ?_⟩ ?_⟩
      · rw [hstep]
      · rw [hstep]
      · exact List.forall₂_same.mpr fun _ _ => ⟨rfl, rfl⟩

/-! ## What the fixes insert -/

theorem eq_cursor (hc : x.Consistent) (hin : x.inStartTag = true) : x = cursor x.mode x.pos x.spaced := by
  obtain ⟨hp, hd, -⟩ := hc.of_inStartTag hin
  obtain ⟨hfile, hsubset⟩ : x.dtdFile = false ∧ x.inSubset = false := by simpa [inDtd] using hd
  cases x
  simp_all

def IsUnquoted (v : String) : Prop := ∀ b ∈ bytesOf v, isUnquotedValue b = true

theorem IsUnquoted.free {v lit : String} {b : UInt8} (h : IsUnquoted v) (hlit : bytesOf lit = [b])
    (hb : isUnquotedValue b = false) : Written.Free lit v := by
  rintro ⟨p, q, hsplit⟩
  have hmem : b ∈ bytesOf v := by
    rw [← hsplit, hlit]
    simp
  rw [h b hmem] at hb
  cases hb

def quoted (v : String) : String := "\"" ++ v ++ "\""

theorem step_quoted {v : String} {r : List UInt8} (hc : x.Consistent) (hbound : isBoundary s x.pos = true)
    (hin : x.inStartTag = true) (hmode : x.mode = .beforeAttributeValue)
    (h : rest s x.pos = bytesOf (quoted v) ++ r) (hv : IsUnquoted v) :
    x.pos < size s ∧ x.step s = (⟨.attributeValue, x.pos, x.pos + size (quoted v), none⟩,
      cursor .inTag (x.pos + size (quoted v)) false) := by
  have hlt : x.pos < size s := lt_size_of_literal h (by simp [quoted])
  refine ⟨hlt, ?_⟩
  have hlex := @lex_attributeValue _ _ _ x.spaced false ⟨" ", "", .double, v⟩ h
    (hv.free (b := 0x3C) (by decide) rfl) (hv.free (b := 0x22) (show bytesOf "\"" = [0x22] by decide) rfl)
  rw [← hmode, ← eq_cursor hc hin] at hlex
  rw [step_eq_lex hbound hlt, hlex]
  rfl

theorem leads_assigned {r : List UInt8} (hc : x.Consistent) (hbound : isBoundary s x.pos = true)
    (hin : x.inStartTag = true) (hmode : x.mode = .afterAttributeName)
    (h : rest s x.pos = bytesOf ("=" ++ quoted "") ++ r) :
    Leads s x [(⟨.assign, x.pos, x.pos + 1, none⟩, cursor .beforeAttributeValue (x.pos + 1) x.spaced),
      (⟨.attributeValue, x.pos + 1, x.pos + 3, none⟩, cursor .inTag (x.pos + 3) false)]
      (cursor .inTag (x.pos + 3) false) := by
  have hlt : x.pos < size s := lt_size_of_literal h (by decide)
  rw [Text.bytesOf_append, List.append_assoc] at h
  have hlex := @lex_assign _ _ _ x.spaced false h
  rw [← hmode, ← eq_cursor hc hin] at hlex
  have hstep : x.step s =
      (⟨.assign, x.pos, x.pos + 1, none⟩, cursor .beforeAttributeValue (x.pos + 1) x.spaced) := by
    rw [step_eq_lex hbound hlt, hlex]
    rfl
  have hbound' := Leads.boundary_step hbound hlt
  have hc' := hc.step hbound hlt
  rw [hstep] at hbound' hc'
  obtain ⟨hlt', hstep'⟩ := step_quoted (v := "") hc' hbound' rfl rfl (Text.rest_add (l := [0x3D]) h)
    (List.forall_mem_nil _)
  refine hstep ▸ .next hlt ?_
  rw [hstep]
  have hvalue := Leads.one hlt'
  rwa [hstep'] at hvalue

/-! ## A value without quotes -/

theorem startsWithQuote_of_bytesOf {v : String} {q : UInt8} {r : List UInt8} (h : bytesOf v = q :: r)
    (hq : isQuoteByte q = true) : Text.startsWithQuote v = true := by
  obtain ⟨c, hc, hquote, hlt⟩ :
      ∃ c, bytesOf (String.ofList [c]) = [q] ∧ Text.isQuote c = true ∧ q < 0x80 := by
    have hcases : q = 0x22 ∨ q = 0x27 := by simpa [isQuoteByte] using hq
    rcases hcases with rfl | rfl
    · exact ⟨'"', by decide, rfl, by decide⟩
    · exact ⟨'\'', by decide, rfl, by decide⟩
  have hone : (bytesOf v).take 1 = [q] := by rw [h]; rfl
  have hfirst : byte? v 0 = some q := by rw [Text.byte?_eq_getElem?, h]; rfl
  have hbound : isBoundary v 1 = true :=
    @Text.isBoundary_of_startsAt v 0 [q] (by simpa using hlt) (Text.isBoundary_zero v)
      (by simp [startsAt, hfirst])
  have hslice : Text.slice v 0 1 = String.ofList [c] := by
    refine Text.eq_of_bytesOf_eq ?_
    rw [Text.bytesOf_slice (Text.isBoundary_zero v) hbound (Nat.zero_le 1), hc]
    exact hone
  obtain ⟨⟨before, behind, hsplit, hsize⟩, -⟩ :=
    Text.stands_slice (Text.isBoundary_zero v) hbound (Nat.zero_le 1)
  rw [hslice] at hsplit
  obtain rfl : before = "" := by simpa using hsize
  rw [Text.startsWithQuote, hsplit]
  simpa using hquote

theorem stripQuotes_of_isUnquoted {v : String} (h : IsUnquoted v) : Text.stripQuotes v = v := by
  have hnone : ∀ c ∈ v.toList, Text.isQuote c = false := by
    intro c hc
    refine Bool.eq_false_iff.mpr fun hquote => ?_
    have hcases : c = '"' ∨ c = '\'' := by simpa [Text.isQuote] using hquote
    rcases hcases with rfl | rfl
    · exact Text.not_mem_toList (p := v) (by decide) (fun hmem => by cases h _ hmem) hc
    · exact Text.not_mem_toList (p := v) (by decide) (fun hmem => by cases h _ hmem) hc
  have hstart : Text.dropStartQuote v.toList = v.toList := by
    cases hv : v.toList with
    | nil => rfl
    | cons c cs => simp [Text.dropStartQuote, hnone c (by simp [hv])]
  have hend : Text.dropEndQuote v.toList = v.toList := by
    unfold Text.dropEndQuote
    cases hl : v.toList.getLast? with
    | none => rfl
    | some c => simp [hnone c (List.mem_of_getLast? hl)]
  rw [Text.stripQuotes, hstart, hend, String.ofList_toList]

theorem Reads.mode_of_attributeValue {pos : Nat} {spaced : Bool} (h : Reads x pos spaced .attributeValue y) :
    x.mode = .beforeAttributeValue ∧ y = x.moved pos spaced x.tagMode := by
  cases h with
  | attributeValue hmode => exact ⟨hmode, rfl⟩
  | content _ h => simp [StartsContent, contentOpeners] at h
  | declaration _ h => simp [StartsDeclaration, dtdOpeners] at h

theorem attributeValue_eq (hc : x.Consistent) (hbound : isBoundary s x.pos = true)
    (hmode : x.mode = .beforeAttributeValue) (hkind : (attributeValue s x).kind = .attributeValue)
    (hstop : isBoundary s (attributeValue s x).lexer.pos = true) (hahead : x.pos < (attributeValue s x).lexer.pos)
    (hquote : Text.startsWithQuote (Text.slice s x.pos (attributeValue s x).lexer.pos) = false) :
    attributeValue s x = { x with spaced := false }.emit .attributeValue (unquotedStop s x.pos) x.tagMode := by
  have hnone : (x.peek s).filter isQuoteByte = none := by
    refine Option.eq_none_iff_forall_ne_some.mpr fun q hq => ?_
    obtain ⟨hpeek, hq⟩ := Option.filter_eq_some_iff.mp hq
    have hrest := Text.rest_of_lt (Text.lt_size_of_byte? hpeek)
    rw [show s.getUTF8Byte ⟨x.pos⟩ _ = q from Option.some.inj ((Text.byte?_of_lt _).symm.trans hpeek)] at hrest
    have hbytes := Text.bytesOf_slice hbound hstop (Nat.le_of_lt hahead)
    obtain ⟨n, hn⟩ := Nat.exists_eq_succ_of_ne_zero (Nat.sub_ne_zero_of_lt hahead)
    rw [hrest, hn, List.take_succ_cons] at hbytes
    rw [startsWithQuote_of_bytesOf hbytes hq] at hquote
    cases hquote
  unfold attributeValue at hkind ⊢
  rw [hnone] at hkind ⊢
  cases hspace : space? s x.pos with
  | some j =>
    rw [hspace] at hkind
    cases hkind
  | none =>
    rw [hspace] at hkind
    dsimp only at hkind ⊢
    split
    · rfl
    · rename_i hslash
      rw [if_neg hslash] at hkind
      have hfall : Falls x false _ := .backInTag (.inr hmode)
      have hreads : Reads (x.moved x.pos false x.tagMode) _ _ (backInTag s { x with spaced := false }).kind _ :=
        gives_insideTag (s := s) (hc.of_falls hfall) (by
          rw [moved_mode, tagMode]
          split
          · exact .inr rfl
          · exact .inl rfl)
      rw [hkind] at hreads
      have hvalue := hreads.mode_of_attributeValue.1
      rw [moved_mode, tagMode] at hvalue
      split at hvalue <;> cases hvalue

theorem unquotedStop_le (t : String) (i : Nat) : unquotedStop t i ≤ Text.skipWhile isUnquotedValue t i := by
  rw [unquotedStop_eq]
  split
  · exact Nat.sub_le _ _
  · exact Nat.le_refl _

theorem step_unquoted (hc : x.Consistent) (hbound : isBoundary s x.pos = true) (hlt : x.pos < size s)
    (hin : x.inStartTag = true) (hmode : x.mode = .beforeAttributeValue)
    (hkind : (x.step s).1.kind = .attributeValue) (hquote : Text.startsWithQuote ((x.step s).1.written s) = false) :
    IsUnquoted ((x.step s).1.written s) ∧ (x.step s).2 = cursor .inTag (x.step s).1.stop false := by
  obtain ⟨hp, hd, -⟩ := hc.of_inStartTag hin
  have hlex : lex s x = attributeValue s x := by rw [lex, if_neg (Nat.not_le_of_lt hlt), hmode]
  have hbound' := Leads.boundary_step hbound hlt
  have hahead := Leads.pos_lt_step hbound hlt
  rw [step_eq_lex hbound hlt, hlex] at hkind hquote hbound' hahead ⊢
  have heq := attributeValue_eq hc hbound hmode hkind hbound' hahead hquote
  have hstop : (attributeValue s x).lexer.pos = unquotedStop s x.pos := by rw [heq]; rfl
  refine ⟨fun b hb => ?_, ?_⟩
  · refine Text.of_mem_slice hbound hbound' (Nat.le_of_lt hahead) ?_ hb
    exact Nat.le_trans (Nat.le_of_eq hstop) (unquotedStop_le s x.pos)
  · show (attributeValue s x).lexer = cursor .inTag (attributeValue s x).lexer.pos false
    have hx := eq_cursor hc hin
    rw [heq, hx]
    rfl

/-! ## The patched text -/

theorem breaks_of_patch {u p r : String} {b : UInt8} {bs : List UInt8} (hp : bytesOf p = b :: bs)
    (hb : b = 0x3D ∨ b = 0x22) : Breaks (u ++ (p ++ r)) (size u) ∧ NoOpener (u ++ (p ++ r)) (size u) := by
  have hbyte : byte? (u ++ (p ++ r)) (size u) = some b := by
    rw [Text.byte?_eq_head?, rest_append, Text.bytesOf_append, hp]
    rfl
  refine ⟨⟨b, hbyte, ?_⟩, fun o ho c hc => ?_⟩
  · rcases hb with rfl | rfl <;> decide
  · have hopeners : ∀ o ∈ contentOpeners ++ dtdOpeners, ∀ c ∈ bytesOf o.1, c ≠ 0x3D ∧ c ≠ 0x22 := by
      decide +kernel
    rw [hbyte, Ne, Option.some_inj]
    rintro rfl
    rcases hb with rfl | rfl
    · exact (hopeners o ho _ hc).1 rfl
    · exact (hopeners o ho _ hc).2 rfl

theorem Leads.behind_patch {u v p r : String} (hm : Leads (u ++ (v ++ r)) (cursor .inTag (size u + size v) false) m y)
    (hy : y.pos = size (u ++ (v ++ r))) (hbase : 2 ≤ size u) :
    ∃ m' y', Leads (u ++ (p ++ r)) (cursor .inTag (size u + size p) false) m' y' ∧
      y'.pos = size (u ++ (p ++ r)) ∧ List.Forall₂ (SameToken (u ++ (v ++ r)) (u ++ (p ++ r))) m m' := by
  have hbound : isBoundary (u ++ (v ++ r)) (size u + size v) = true := by
    have hstands := (Text.stands_append u v r).isBoundary_stop
    exact hstands
  obtain ⟨m', y', hm', hy', hsame, -⟩ := hm.behind_change hbound rfl hy
    ((rest_append_append u v r).trans (rest_append_append u p r).symm) 
    (.inr ⟨Nat.le_add_right_of_le hbase, Nat.le_add_right_of_le hbase⟩)
    (by rw [Text.size_append, Text.size_append, ← Nat.add_assoc]; exact Nat.le_add_right _ _) (by simp)
  exact ⟨m', y', hm', hy', hsame⟩

end Lexer

end XmlAssist

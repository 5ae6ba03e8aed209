import XmlAssist.Proofs.Lexer.Progress
import XmlAssist.Proofs.Text.Piece
import XmlAssist.Proofs.Written.Forest

/-!
# The tokens of written pieces

At the offset of each piece of a written document, the lexer reads a token without a fault that
covers it. The look-ahead for quotes, `-->`, `]]>` and `?>` stops at the delimiter that was written,
whatever follows it.
-/

namespace XmlAssist.Lexer

open Text (rest bytesOf size)

/-- The lexer outside of document types. -/
abbrev cursor (mode : Mode) (i : Nat) (spaced : Bool) (prolog : Bool := false) : Lexer :=
  { pos := i, mode, spaced, inProlog := prolog }

theorem inDtd_cursor (mode : Mode) (i : Nat) (spaced prolog : Bool) :
    (cursor mode i spaced prolog).inDtd = false := rfl

variable {s : String} {i : Nat} {r : List UInt8} {spaced prolog : Bool}

/-! ## Ways to move -/

/-- The first of the bytes, if there is one, does not satisfy `f`. -/
abbrev Stops (f : UInt8 → Bool) (r : List UInt8) : Prop := ∀ b ∈ r.head?, f b = false

theorem exists_bytesOf_of_isName {name : String} (h : Written.isName name) :
    ∃ b bs, bytesOf name = b :: bs ∧ isNameStart b = true := by
  unfold Written.isName at h
  split at h
  · rename_i b bs hb
    rw [Bool.and_eq_true] at h
    exact ⟨b, bs, hb, h.1⟩
  · cases h

theorem isName_of_mem {name : String} (h : Written.isName name) :
    ∀ b ∈ bytesOf name, isName b = true := by
  unfold Written.isName at h
  split at h
  · rename_i b bs hb
    rw [Bool.and_eq_true] at h
    rw [hb]
    exact List.forall_mem_cons.mpr ⟨isName_of_isNameStart h.1, by simpa using h.2⟩
  · cases h

theorem name?_of_rest {name : String} (h : rest s i = bytesOf name ++ r) (hname : Written.isName name)
    (hr : Stops isName r) : name? s i = some (i + size name) := by
  obtain ⟨b, bs, hb, hstart⟩ := exists_bytesOf_of_isName hname
  have hbyte : Text.byte? s i = some b := Text.byte?_of_rest (r := bs ++ r) (by rw [h, hb]; rfl)
  rw [name?, hbyte]
  show (if isNameStart b then some (Text.skipWhile isName s i) else none) = _
  rw [if_pos hstart, Text.skipWhile_of_rest h (isName_of_mem hname) hr, Text.length_bytesOf]

theorem ne_empty_of_isName {name : String} (h : Written.isName name) : name ≠ "" := by
  rintro rfl
  exact absurd h (by decide)

theorem name?_eq_none (h : Stops isNameStart (rest s i)) : name? s i = none := by
  unfold name?
  rw [Text.byte?_eq_head?]
  cases hb : (rest s i).head? with
  | none => rfl
  | some b =>
    show (if isNameStart b then _ else none) = none
    rw [h b hb]
    rfl

theorem space?_of_rest {space : String} (h : rest s i = bytesOf space ++ r)
    (hspace : Written.isSpace space) (hne : space ≠ "") (hr : Stops isSpace r) :
    space? s i = some (i + size space) := by
  have hall : ∀ c ∈ bytesOf space, isSpace c = true := by simpa [Written.isSpace] using hspace
  have := Text.size_pos hne
  simp only [space?, Text.skipWhile_of_rest h hall hr, Text.length_bytesOf]
  rw [if_pos (by omega)]

theorem space?_eq_none (h : Stops isSpace (rest s i)) : space? s i = none := by
  have hskip := Text.skipWhile_of_rest (l := []) (f := isSpace) (s := s) (i := i) rfl (by simp) h
  simp only [space?, hskip]
  exact if_neg (by simp)

theorem literal?_of_rest {lit : String} (h : rest s i = bytesOf lit ++ r) :
    literal? lit s i = some (i + size lit) := by
  rw [literal?, Text.startsAt_eq, h, if_pos]
  exact List.isPrefixOf_iff_prefix.mpr (List.prefix_append ..)

theorem literal?_eq_none {lit : String} (h : (bytesOf lit).isPrefixOf (rest s i) = false) :
    literal? lit s i = none := by
  rw [literal?, Text.startsAt_eq, h]
  rfl

theorem isPrefixOf_eq_false {bs cs : List UInt8} {c : UInt8} (h : bs = c :: cs) (hr : Stops (c == ·) r) :
    bs.isPrefixOf r = false := by
  rw [h]
  cases r with
  | nil => rfl
  | cons b r =>
    show (c == b && cs.isPrefixOf r) = false
    rw [show (c == b) = false from hr b rfl]
    rfl

theorem sees_eq (x : Lexer) (b : UInt8) : x.sees s b = ((rest s x.pos).head? == some b) := by
  rw [sees, peek, Text.byte?_eq_head?]

theorem untilAny_of_rest {stops : List UInt8} {text : String} (h : rest s i = bytesOf text ++ r)
    (htext : ∀ b ∈ stops, b ∉ bytesOf text) (hr : ∀ b ∈ r.head?, b ∈ stops) :
    untilAny stops s i = i + size text := by
  rw [untilAny, Text.skipUntil, Text.skipWhile_of_rest h, Text.length_bytesOf]
  · intro b hb
    simp only [Bool.not_eq_true', List.contains_eq_mem, decide_eq_false_iff_not]
    exact fun hstop => htext b hstop hb
  · intro b hb
    simpa using hr b hb

theorem until?_of_rest {lit text : String} (h : rest s i = bytesOf text ++ bytesOf lit ++ r)
    (hlit : Text.EndsOnce (bytesOf lit)) (hfree : Written.Free lit text) :
    until? lit s i = (i + size text, true) := by
  rw [until?, Text.find?_of_rest h hlit hfree, Text.length_bytesOf]

theorem stops_of_isName {name : String} {f : UInt8 → Bool} (hname : Written.isName name)
    (hf : ∀ b, isNameStart b = true → f b = false) : Stops f (bytesOf name ++ r) := by
  obtain ⟨b, bs, hb, hstart⟩ := exists_bytesOf_of_isName hname
  rw [hb]
  rintro c ⟨⟩
  exact hf b hstart

/-! ## Between pieces -/

theorem lex_content (h : i < size s) :
    lex s (cursor .content i spaced) = content s (cursor .content i spaced) := by
  rw [lex, if_neg (Nat.not_le_of_lt h)]

theorem lt_size_of_literal {lit : String} (h : rest s i = bytesOf lit ++ r) (hlit : lit ≠ "") :
    i < size s := by
  cases hb : bytesOf lit with
  | nil =>
    have := Text.size_pos hlit
    rw [← Text.length_bytesOf, hb] at this
    exact absurd this (by simp)
  | cons b bs => exact Text.lt_size_of_rest (r := bs ++ r) (by rw [h, hb]; rfl)

theorem firstOpener_append {x : Lexer} {p q : List (String × Token.Kind × Mode)}
    (h : (p.any fun o => (bytesOf o.1).isPrefixOf (rest s x.pos)) = false) :
    firstOpener s x (p ++ q) = firstOpener s x q := by
  induction p with
  | nil => rfl
  | cons o p ih =>
    obtain ⟨lit, kind, mode⟩ := o
    rw [List.any_cons, Bool.or_eq_false_iff] at h
    rw [List.cons_append, firstOpener, literal?_eq_none h.1]
    exact ih h.2

theorem lex_opener {p q : List (String × Token.Kind × Mode)} {lit : String} {kind : Token.Kind}
    {mode : Mode} (ho : contentOpeners = p ++ (lit, kind, mode) :: q) (h : rest s i = bytesOf lit ++ r)
    (hlit : lit ≠ "") (hp : (p.any fun o => (bytesOf o.1).isPrefixOf (rest s i)) = false) :
    lex s (cursor .content i spaced) = ⟨kind, cursor mode (i + size lit) spaced, none⟩ := by
  rw [lex_content (lt_size_of_literal h hlit), content, ho, firstOpener_append hp, firstOpener,
    literal?_of_rest h]
  rfl

theorem lex_commentOpen (h : rest s i = bytesOf "<!--" ++ r) :
    lex s (cursor .content i spaced) = ⟨.commentOpen, cursor .inComment (i + size "<!--") spaced, none⟩ :=
  lex_opener (p := []) rfl h (by decide) rfl

theorem lex_cdataOpen (h : rest s i = bytesOf "<![CDATA[" ++ r) :
    lex s (cursor .content i spaced) = ⟨.cdataOpen, cursor .inCData (i + size "<![CDATA[") spaced, none⟩ :=
  lex_opener (p := contentOpeners.take 1) rfl h (by decide) (by rw [h]; rfl)

theorem lex_endTagOpen (h : rest s i = bytesOf "</" ++ r) :
    lex s (cursor .content i spaced) = ⟨.endTagOpen, cursor .afterEndTagOpen (i + size "</") spaced, none⟩ :=
  lex_opener (p := contentOpeners.take 3) rfl h (by decide) (by rw [h]; rfl)

theorem lex_instructionOpen (h : rest s i = bytesOf "<?" ++ r) :
    lex s (cursor .content i spaced) =
      ⟨.instructionOpen, cursor .afterInstructionOpen (i + size "<?") spaced, none⟩ :=
  lex_opener (p := contentOpeners.take 4) rfl h (by decide) (by rw [h]; rfl)

theorem lex_startTagOpen {name : String} (h : rest s i = bytesOf "<" ++ (bytesOf name ++ r))
    (hname : Written.isName name) : lex s (cursor .content i spaced) =
      ⟨.startTagOpen, cursor .afterStartTagOpen (i + size "<") spaced, none⟩ := by
  refine lex_opener (p := contentOpeners.take 5) rfl h (by decide) ?_
  -- the other openers go on with a byte that starts no name
  have hne : ∀ lit c cs, bytesOf lit = 0x3C :: c :: cs → isNameStart c = false →
      (bytesOf lit).isPrefixOf (rest s i) = false := by
    intro lit c cs hlit hc
    have hcs : (c :: cs).isPrefixOf (bytesOf name ++ r) = false := by
      refine isPrefixOf_eq_false rfl (stops_of_isName hname fun b hb => beq_eq_false_iff_ne.mpr ?_)
      rintro rfl
      rw [hb] at hc
      cases hc
    rw [h, hlit]
    exact hcs
  simp only [contentOpeners, List.take_succ_cons, List.take_zero, List.any_cons, List.any_nil,
    hne "<!--" 0x21 _ rfl rfl, hne "<![CDATA[" 0x21 _ rfl rfl, hne "<!DOCTYPE" 0x21 _ rfl rfl,
    hne "</" 0x2F _ rfl rfl, hne "<?" 0x3F _ rfl rfl, Bool.or_self]

theorem not_mem_of_free {lit text : String} {b : UInt8} (h : Written.Free lit text)
    (hlit : bytesOf lit = [b]) : b ∉ bytesOf text := by
  intro hb
  obtain ⟨before, behind, hsplit⟩ := List.append_of_mem hb
  exact h ⟨before, behind, by rw [hlit, hsplit, List.append_assoc]; rfl⟩

theorem lex_text {text : String} (h : rest s i = bytesOf text ++ r) (hne : text ≠ "")
    (hfree : Written.Free "<" text) (hr : ∀ b ∈ r.head?, b = 0x3C) :
    lex s (cursor .content i spaced) = ⟨.text, cursor .content (i + size text) spaced, none⟩ := by
  have hlt : (0x3C : UInt8) ∉ bytesOf text := not_mem_of_free hfree rfl
  have hfirst : Stops ((0x3C : UInt8) == ·) (rest s i) := by
    rw [h]
    cases hb : bytesOf text with
    | nil => exact absurd (Text.eq_of_bytesOf_eq (q := "") hb) hne
    | cons b bs =>
      rintro c ⟨⟩
      rw [beq_eq_false_iff_ne]
      rintro rfl
      exact hlt (by simp [hb])
  have hlit : ∀ lit cs, bytesOf lit = 0x3C :: cs → (bytesOf lit).isPrefixOf (rest s i) = false :=
    fun lit cs hlit => isPrefixOf_eq_false hlit hfirst
  have hnone : firstOpener s (cursor .content i spaced) contentOpeners = none := by
    rw [← List.append_nil contentOpeners, firstOpener_append]
    · rfl
    · simp only [contentOpeners, List.any_cons, List.any_nil, hlit "<!--" _ rfl,
        hlit "<![CDATA[" _ rfl, hlit "<!DOCTYPE" _ rfl, hlit "</" _ rfl, hlit "<?" _ rfl,
        hlit "<" _ rfl, Bool.or_self]
  rw [lex_content (lt_size_of_literal h hne), content, hnone]
  show (cursor .content i spaced).emit .text (untilAny [0x3C] s i) .content = _
  rw [untilAny_of_rest h (by simpa using hlt) (by simpa using hr)]
  rfl

/-! ## Comments, CDATA sections and instructions -/

theorem delimited_close {close : String} {inside closing : Token.Kind} {fault : Token.Fault} {x : Lexer}
    (h : rest s x.pos = bytesOf close ++ r) :
    delimited close inside closing fault s x = x.emit closing (x.pos + size close) x.contentMode := by
  rw [delimited, literal?_of_rest h]

theorem delimited_inside {close text : String} {inside closing : Token.Kind} {fault : Token.Fault}
    {x : Lexer} (h : rest s x.pos = bytesOf text ++ bytesOf close ++ r)
    (hclose : Text.EndsOnce (bytesOf close)) (hne : text ≠ "") (hfree : Written.Free close text) :
    delimited close inside closing fault s x = x.emit inside (x.pos + size text) x.mode := by
  have hnone : literal? close s x.pos = none := by
    refine literal?_eq_none (Bool.eq_false_iff.mpr fun hp => ?_)
    rw [h, List.isPrefixOf_iff_prefix] at hp
    exact Text.not_prefix_of_endsOnce hclose hfree
      (fun hnil => hne (Text.eq_of_bytesOf_eq (q := "") hnil)) hp
  rw [delimited, hnone, until?_of_rest h hclose hfree]
  rfl

theorem lex_comment {text : String} (h : rest s i = bytesOf text ++ bytesOf "-->" ++ r) (hne : text ≠ "")
    (hfree : Written.Free "-->" text) :
    lex s (cursor .inComment i spaced) = ⟨.commentText, cursor .inComment (i + size text) spaced, none⟩ := by
  have hlt : i < size s := lt_size_of_literal (h.trans (List.append_assoc ..)) hne
  rw [lex, if_neg (Nat.not_le_of_lt hlt)]
  exact delimited_inside h ⟨0x3E, [0x2D, 0x2D], rfl, by decide⟩ hne hfree

theorem lex_commentClose (h : rest s i = bytesOf "-->" ++ r) :
    lex s (cursor .inComment i spaced) = ⟨.commentClose, cursor .content (i + size "-->") spaced, none⟩ := by
  rw [lex, if_neg (Nat.not_le_of_lt (lt_size_of_literal h (by decide)))]
  exact delimited_close h

theorem lex_cdata {text : String} (h : rest s i = bytesOf text ++ bytesOf "]]>" ++ r) (hne : text ≠ "")
    (hfree : Written.Free "]]>" text) :
    lex s (cursor .inCData i spaced) = ⟨.cdataText, cursor .inCData (i + size text) spaced, none⟩ := by
  have hlt : i < size s := lt_size_of_literal (h.trans (List.append_assoc ..)) hne
  rw [lex, if_neg (Nat.not_le_of_lt hlt)]
  exact delimited_inside h ⟨0x3E, [0x5D, 0x5D], rfl, by decide⟩ hne hfree

theorem lex_cdataClose (h : rest s i = bytesOf "]]>" ++ r) :
    lex s (cursor .inCData i spaced) = ⟨.cdataClose, cursor .content (i + size "]]>") spaced, none⟩ := by
  rw [lex, if_neg (Nat.not_le_of_lt (lt_size_of_literal h (by decide)))]
  exact delimited_close h

theorem isSpace_of_isNameStart : ∀ b, isNameStart b = true → isSpace b = false :=
  Text.forall_byte (by decide +kernel)

theorem isName_eq_false : ∀ b, isSpace b = true ∨ b = 0x3F → isName b = false :=
  Text.forall_byte (by decide +kernel)

theorem seesPrologName_eq_false {target : String} (h : rest s i = bytesOf target ++ r)
    (hname : Written.isName target) (hr : Stops isName r) (hxml : target ≠ "xml") :
    (cursor .afterInstructionOpen i spaced).seesPrologName s = false := by
  have hstop := name?_of_rest h hname hr
  rw [Bool.eq_false_iff]
  intro hsees
  simp only [seesPrologName, Bool.and_eq_true] at hsees
  obtain ⟨hstart, hbehind⟩ := hsees
  rw [Text.startsAt_eq, List.isPrefixOf_iff_prefix] at hstart
  obtain ⟨r', hr'⟩ := hstart
  have hrest : rest s (i + 3) = r' := Text.rest_add (l := bytesOf "xml") hr'.symm
  have hstops : Stops isName r' := by
    intro b hb
    rw [Text.byte?_eq_head?, hrest, hb] at hbehind
    refine isName_eq_false b ?_
    simpa using hbehind
  have hstop' := name?_of_rest hr'.symm (by decide) hstops
  rw [hstop] at hstop'
  have hsize : size target = size "xml" := by
    have := Option.some.inj hstop'
    omega
  refine hxml (Text.eq_of_bytesOf_eq ?_)
  refine (List.append_inj (h.symm.trans hr'.symm) ?_).1
  rw [Text.length_bytesOf, Text.length_bytesOf, hsize]

theorem lex_instructionTarget {target : String} (h : rest s i = bytesOf target ++ r)
    (hname : Written.isName target) (hr : Stops isName r) (hxml : i = 2 → target ≠ "xml") :
    lex s (cursor .afterInstructionOpen i spaced) =
      ⟨.instructionTarget, cursor .inInstruction (i + size target) spaced, none⟩ := by
  have hprolog : ¬ (i == 2 && (cursor .afterInstructionOpen i spaced).seesPrologName s) = true := by
    rw [Bool.and_eq_true, beq_iff_eq]
    rintro ⟨hi, hsees⟩
    rw [seesPrologName_eq_false h hname hr (hxml hi)] at hsees
    cases hsees
  rw [lex, if_neg (Nat.not_le_of_lt (lt_size_of_literal h (ne_empty_of_isName hname)))]
  show instruction s (cursor .afterInstructionOpen i spaced) = _
  rw [instruction, if_neg hprolog, name?_of_rest h hname hr]
  rfl

theorem lex_prologName (h : rest s 2 = bytesOf "xml" ++ r)
    (hr : ∀ b ∈ r.head?, isSpace b = true ∨ b = 0x3F) :
    lex s (cursor .afterInstructionOpen 2 spaced) =
      ⟨.prologName, cursor .inProlog (2 + size "xml") false true, none⟩ := by
  have hrest : rest s (2 + 3) = r := Text.rest_add (l := bytesOf "xml") h
  have hsees : (cursor .afterInstructionOpen 2 spaced).seesPrologName s = true := by
    simp only [seesPrologName, Bool.and_eq_true]
    refine ⟨?_, ?_⟩
    · rw [Text.startsAt_eq, List.isPrefixOf_iff_prefix]
      exact ⟨r, h.symm⟩
    · rw [Text.byte?_eq_head?, hrest]
      cases hb : r.head? with
      | none => rfl
      | some b => simpa using hr b hb
  rw [lex, if_neg (Nat.not_le_of_lt (lt_size_of_literal h (by decide)))]
  show instruction s (cursor .afterInstructionOpen 2 spaced) = _
  rw [instruction, if_pos (by rw [hsees]; rfl)]
  rfl

theorem lex_instructionSpace {space : String} (h : rest s i = bytesOf space ++ r)
    (hspace : Written.isSpace space) (hne : space ≠ "") (hr : Stops isSpace r) :
    lex s (cursor .inInstruction i spaced) =
      ⟨.blank, cursor .inInstruction (i + size space) spaced, none⟩ := by
  rw [lex, if_neg (Nat.not_le_of_lt (lt_size_of_literal h hne))]
  show insideInstruction s (cursor .inInstruction i spaced) = _
  rw [insideInstruction, space?_of_rest h hspace hne hr]
  rfl

theorem lex_instruction {text : String} (h : rest s i = bytesOf text ++ bytesOf "?>" ++ r)
    (hne : text ≠ "") (hspace : Written.startsWithSpace text = false) (hfree : Written.Free "?>" text) :
    lex s (cursor .inInstruction i spaced) =
      ⟨.instructionContent, cursor .inInstruction (i + size text) spaced, none⟩ := by
  have hnone : space? s i = none := by
    refine space?_eq_none ?_
    rw [h, List.append_assoc]
    unfold Written.startsWithSpace at hspace
    cases hb : bytesOf text with
    | nil => exact absurd (Text.eq_of_bytesOf_eq (q := "") hb) hne
    | cons b bs =>
      rw [hb] at hspace
      intro c hc
      obtain rfl := Option.some.inj hc
      exact hspace
  rw [lex, if_neg (Nat.not_le_of_lt (lt_size_of_literal (h.trans (List.append_assoc ..)) hne))]
  show insideInstruction s (cursor .inInstruction i spaced) = _
  rw [insideInstruction, hnone]
  exact delimited_inside h ⟨0x3E, [0x3F], rfl, by decide⟩ hne hfree

theorem lex_instructionClose (h : rest s i = bytesOf "?>" ++ r) :
    lex s (cursor .inInstruction i spaced) =
      ⟨.instructionClose, cursor .content (i + size "?>") spaced, none⟩ := by
  have hnone : space? s i = none := space?_eq_none (by rw [h]; rintro b ⟨⟩; rfl)
  rw [lex, if_neg (Nat.not_le_of_lt (lt_size_of_literal h (by decide)))]
  show insideInstruction s (cursor .inInstruction i spaced) = _
  rw [insideInstruction, hnone]
  exact delimited_close h

/-! ## Tags -/

/-- The mode between the attributes of a tag or of the XML declaration. -/
abbrev attributeMode (prolog : Bool) : Mode := if prolog then .inProlog else .inTag

theorem lex_attributeMode (h : i < size s) :
    lex s (cursor (attributeMode prolog) i spaced prolog) =
      insideTag s (cursor (attributeMode prolog) i spaced prolog) := by
  rw [lex, if_neg (Nat.not_le_of_lt h)]
  cases prolog <;> rfl

theorem lex_startTagName {name : String} (h : rest s i = bytesOf name ++ r) (hname : Written.isName name)
    (hr : Stops isName r) : lex s (cursor .afterStartTagOpen i spaced) =
      ⟨.startTagName, cursor .inTag (i + size name) false, none⟩ := by
  rw [lex, if_neg (Nat.not_le_of_lt (lt_size_of_literal h (ne_empty_of_isName hname)))]
  show startTag s (cursor .afterStartTagOpen i spaced) = _
  rw [startTag, name?_of_rest h hname hr]
  rfl

theorem lex_tagSpace {space : String} (h : rest s i = bytesOf space ++ r)
    (hspace : Written.isSpace space) (hne : space ≠ "") (hr : Stops isSpace r) :
    lex s (cursor (attributeMode prolog) i spaced prolog) =
      ⟨.blank, cursor (attributeMode prolog) (i + size space) true prolog, none⟩ := by
  rw [lex_attributeMode (lt_size_of_literal h hne), insideTag, space?_of_rest h hspace hne hr]
  rfl

theorem lex_attributeName {name : String} (h : rest s i = bytesOf name ++ r)
    (hname : Written.isName name) (hr : Stops isName r) :
    lex s (cursor (attributeMode prolog) i true prolog) =
      ⟨.attributeName, cursor .afterAttributeName (i + size name) false prolog, none⟩ := by
  have hspace : space? s i = none :=
    space?_eq_none (by rw [h]; exact stops_of_isName hname isSpace_of_isNameStart)
  have hclose : literal? "?>" s i = none := by
    refine literal?_eq_none (isPrefixOf_eq_false (c := 0x3F) rfl ?_)
    rw [h]
    refine stops_of_isName hname fun b hb => beq_eq_false_iff_ne.mpr ?_
    rintro rfl
    cases hb
  rw [lex_attributeMode (lt_size_of_literal h (ne_empty_of_isName hname)), insideTag, hspace]
  simp only [hclose, ite_self, name?_of_rest h hname hr]
  rfl

theorem lex_assign (h : rest s i = bytesOf "=" ++ r) :
    lex s (cursor .afterAttributeName i spaced prolog) =
      ⟨.assign, cursor .beforeAttributeValue (i + size "=") spaced prolog, none⟩ := by
  have hspace : space? s i = none := space?_eq_none (by rw [h]; rintro b ⟨⟩; rfl)
  have hsees : (cursor .afterAttributeName i spaced prolog).sees s 0x3D = true := by
    rw [sees_eq, h]
    rfl
  rw [lex, if_neg (Nat.not_le_of_lt (lt_size_of_literal h (by decide)))]
  show attributeAssign s (cursor .afterAttributeName i spaced prolog) = _
  rw [attributeAssign, hspace]
  show (if (cursor .afterAttributeName i spaced prolog).sees s 0x3D then _ else _) = _
  rw [if_pos hsees]
  rfl

theorem quotedValueStop_of_rest {a : Written.Attr} {q : UInt8} (hq : bytesOf a.quote.print = [q])
    (h : rest s i = bytesOf a.quoted ++ r) (hvalue : Written.Free "<" a.value)
    (hquote : Written.Free a.quote.print a.value) :
    quotedValueStop q s i = (i + size a.quoted, true) := by
  rw [Written.Attr.quoted, Text.bytesOf_append, Text.bytesOf_append, hq] at h
  have hbehind : rest s (i + 1) = bytesOf a.value ++ q :: r :=
    Text.rest_succ (b := q) (h.trans (by simp))
  have hstop : untilAny [q, 0x3C] s (i + 1) = i + 1 + size a.value := by
    refine untilAny_of_rest hbehind ?_ ?_
    · intro b hb
      rcases List.mem_cons.mp hb with rfl | hb
      · exact not_mem_of_free hquote hq
      · obtain rfl := List.mem_singleton.mp hb
        exact not_mem_of_free hvalue rfl
    · rintro b ⟨⟩
      exact List.mem_cons_self
  have hclose : rest s (i + 1 + size a.value) = q :: r := by
    rw [← Text.length_bytesOf]
    exact Text.rest_add hbehind
  have hone : size a.quote.print = 1 := by rw [← Text.length_bytesOf, hq]; rfl
  simp only [quotedValueStop, hstop]
  rw [Text.byte?_of_rest hclose, if_pos (by simp), Written.Attr.quoted, Text.size_append,
    Text.size_append, hone]
  congr 1
  omega

theorem lex_attributeValue {a : Written.Attr} (h : rest s i = bytesOf a.quoted ++ r)
    (hvalue : Written.Free "<" a.value) (hquote : Written.Free a.quote.print a.value) :
    lex s (cursor .beforeAttributeValue i spaced prolog) =
      ⟨.attributeValue, cursor (attributeMode prolog) (i + size a.quoted) false prolog, none⟩ := by
  obtain ⟨q, hq, hisquote, hspace⟩ :
      ∃ q, bytesOf a.quote.print = [q] ∧ isQuoteByte q = true ∧ isSpace q = false := by
    cases a.quote with
    | single => exact ⟨0x27, rfl, rfl, rfl⟩
    | double => exact ⟨0x22, rfl, rfl, rfl⟩
  have hstop := quotedValueStop_of_rest hq h hvalue hquote
  rw [Written.Attr.quoted, Text.bytesOf_append, hq] at h
  have hnone : space? s i = none := by
    refine space?_eq_none ?_
    rw [h]
    rintro b ⟨⟩
    exact hspace
  have hpeek : ((cursor .beforeAttributeValue i spaced prolog).peek s).filter isQuoteByte = some q := by
    rw [peek, Text.byte?_of_rest h, Option.filter_some, if_pos hisquote]
  rw [lex, if_neg (Nat.not_le_of_lt (Text.lt_size_of_rest h))]
  show attributeValue s (cursor .beforeAttributeValue i spaced prolog) = _
  rw [attributeValue, hnone]
  simp only [hpeek, hstop]
  rfl

theorem lex_startTagClose (h : rest s i = bytesOf ">" ++ r) :
    lex s (cursor .inTag i spaced) = ⟨.startTagClose, cursor .content (i + size ">") spaced, none⟩ := by
  have hspace : space? s i = none := space?_eq_none (by rw [h]; rintro b ⟨⟩; rfl)
  have hname : name? s i = none := name?_eq_none (by rw [h]; rintro b ⟨⟩; rfl)
  have hclose : literal? "/>" s i = none := literal?_eq_none (by rw [h]; rfl)
  have hsees : (cursor .inTag i spaced).sees s 0x3E = true := by
    rw [sees_eq, h]
    rfl
  rw [lex, if_neg (Nat.not_le_of_lt (lt_size_of_literal h (by decide)))]
  show insideTag s (cursor .inTag i spaced) = _
  simp only [insideTag, hspace, hname, hclose, hsees, ite_self, Bool.false_eq_true, if_false,
    Bool.not_false, Bool.and_self, if_true]
  rfl

theorem lex_startTagSelfClose (h : rest s i = bytesOf "/>" ++ r) :
    lex s (cursor .inTag i spaced) =
      ⟨.startTagSelfClose, cursor .content (i + size "/>") spaced, none⟩ := by
  have hspace : space? s i = none := space?_eq_none (by rw [h]; rintro b ⟨⟩; rfl)
  have hname : name? s i = none := name?_eq_none (by rw [h]; rintro b ⟨⟩; rfl)
  rw [lex, if_neg (Nat.not_le_of_lt (lt_size_of_literal h (by decide)))]
  show insideTag s (cursor .inTag i spaced) = _
  simp only [insideTag, hspace, hname, literal?_of_rest h, ite_self, Bool.false_eq_true, if_false]
  rfl

theorem lex_prologClose (h : rest s i = bytesOf "?>" ++ r) :
    lex s (cursor .inProlog i spaced true) =
      ⟨.prologClose, cursor .content (i + size "?>") spaced, none⟩ := by
  have hspace : space? s i = none := space?_eq_none (by rw [h]; rintro b ⟨⟩; rfl)
  rw [lex, if_neg (Nat.not_le_of_lt (lt_size_of_literal h (by decide)))]
  show insideTag s (cursor .inProlog i spaced true) = _
  simp only [insideTag, hspace, literal?_of_rest h, if_true]
  rfl

theorem lex_endTagName {name : String} (h : rest s i = bytesOf name ++ r) (hname : Written.isName name)
    (hr : Stops isName r) : lex s (cursor .afterEndTagOpen i spaced) =
      ⟨.endTagName, cursor .inEndTag (i + size name) spaced, none⟩ := by
  rw [lex, if_neg (Nat.not_le_of_lt (lt_size_of_literal h (ne_empty_of_isName hname)))]
  show endTag s (cursor .afterEndTagOpen i spaced) = _
  rw [endTag, name?_of_rest h hname hr]
  rfl

theorem lex_endTagSpace {space : String} (h : rest s i = bytesOf space ++ r)
    (hspace : Written.isSpace space) (hne : space ≠ "") (hr : Stops isSpace r) :
    lex s (cursor .inEndTag i spaced) = ⟨.blank, cursor .inEndTag (i + size space) spaced, none⟩ := by
  rw [lex, if_neg (Nat.not_le_of_lt (lt_size_of_literal h hne))]
  show insideEndTag s (cursor .inEndTag i spaced) = _
  rw [insideEndTag, space?_of_rest h hspace hne hr]
  rfl

theorem lex_endTagClose (h : rest s i = bytesOf ">" ++ r) :
    lex s (cursor .inEndTag i spaced) = ⟨.endTagClose, cursor .content (i + size ">") spaced, none⟩ := by
  have hspace : space? s i = none := space?_eq_none (by rw [h]; rintro b ⟨⟩; rfl)
  have hsees : (cursor .inEndTag i spaced).sees s 0x3E = true := by
    rw [sees_eq, h]
    rfl
  rw [lex, if_neg (Nat.not_le_of_lt (lt_size_of_literal h (by decide)))]
  show insideEndTag s (cursor .inEndTag i spaced) = _
  simp only [insideEndTag, hspace, hsees, if_true]
  rfl

end XmlAssist.Lexer

import XmlAssist.Proofs.Dtd.Syntax
import XmlAssist.Proofs.Written.Scan

/-!
# The tokens of written declarations

At the offset of each parameter of a declaration, the lexer reads a token without a fault that covers
it. It does so in a file of declarations and between the brackets of a document type alike: nothing
that is written starts with `]`.
-/

namespace XmlAssist.Lexer

open Text (Stands rest bytesOf size)
open Written (Literal Quote brackets)

/-- The lexer between declarations, in a document type (`subset`) or in a file of its own. -/
abbrev between (subset : Bool) (i : Nat) : Lexer :=
  { pos := i, mode := .dtdContent, inSubset := subset, dtdFile := !subset }

abbrev within (subset : Bool) (stage : DeclarationStage) (i : Nat) : Lexer :=
  { pos := i, mode := .declaration stage, inSubset := subset, dtdFile := !subset }

variable {s p : String} {i j d : Nat} {r : List UInt8} {subset : Bool} {stage next : DeclarationStage}

/-! ## What stands at an offset -/

theorem rest_of_stands (h : Stands s i p) : rest s i = bytesOf p ++ rest s (i + size p) := by
  obtain ⟨r, hr⟩ := h.rest
  rw [hr, ← Text.length_bytesOf, Text.rest_add hr]

def startsParameter (b : UInt8) : Bool := !isSpace b && b != 0x3C && b != 0x3E && b != 0x5D

/-- A parameter starts at an offset. -/
def AtParameter (s : String) (i : Nat) : Prop := ∃ b ∈ (rest s i).head?, startsParameter b = true

/-- A parameter ends at an offset: white space or the end of the declaration follows. -/
def AtEnd (s : String) (i : Nat) : Prop := ∃ b ∈ (rest s i).head?, isSpace b = true ∨ b = 0x3E

theorem AtParameter.of_stands {b : UInt8} {bs : List UInt8} (h : Stands s i p) (hp : bytesOf p = b :: bs)
    (hb : startsParameter b = true) : AtParameter s i :=
  ⟨b, by rw [rest_of_stands h, hp]; rfl, hb⟩

theorem startsParameter_of_isName : ∀ b, isName b = true → startsParameter b = true :=
  Text.forall_byte (by decide +kernel)

theorem AtParameter.of_name (n : Written.Name) (h : Stands s i n.text) : AtParameter s i := by
  obtain ⟨b, bs, hb, hstart⟩ := exists_bytesOf_of_isName n.valid
  exact .of_stands h hb (startsParameter_of_isName b (isName_of_isNameStart hstart))

theorem isQuoteByte_byte (q : Quote) : isQuoteByte q.byte = true := by cases q <;> rfl

theorem bytesOf_quote (q : Quote) : bytesOf q.print = [q.byte] := by cases q <;> rfl

theorem bytesOf_literal {stops : List UInt8} (l : Literal stops) :
    bytesOf l.print = l.quote.byte :: (bytesOf l.text ++ [l.quote.byte]) := by
  rw [Literal.print, Text.bytesOf_append, Text.bytesOf_append, bytesOf_quote]
  rfl

theorem AtParameter.of_literal {stops : List UInt8} (l : Literal stops) (h : Stands s i l.print) :
    AtParameter s i :=
  .of_stands h (bytesOf_literal l) (by cases l.quote <;> rfl)

theorem AtParameter.of_contents (c : Written.Contents) (h : Stands s i c.print) : AtParameter s i := by
  cases c with
  | empty | any => exact .of_stands h rfl rfl
  | model x o => exact .of_stands h.left rfl rfl

theorem AtParameter.of_external (w : Written.External) (h : Stands s i w.print) : AtParameter s i := by
  cases w with
  | systemId g id => exact .of_stands h.left rfl rfl
  | publicId g id behind => exact .of_stands h.left rfl rfl

theorem AtParameter.of_content (c : Written.EntityContent) (h : Stands s i c.print) : AtParameter s i := by
  cases c with
  | value l => exact .of_literal l h
  | external w => exact .of_external w h

theorem AtParameter.stops (h : AtParameter s i) : Stops isSpace (rest s i) := by
  obtain ⟨b, hb, hstart⟩ := h
  intro c hc
  obtain rfl := Option.some.inj (hb.symm.trans hc)
  simp only [startsParameter, Bool.and_eq_true, Bool.not_eq_true'] at hstart
  exact hstart.1.1.1

theorem exists_space (g : Written.Gap) (h : Stands s i g.text) :
    ∃ b ∈ (rest s i).head?, isSpace b = true := by
  have hvalid := g.valid
  rw [Written.isSpace] at hvalid
  cases hb : bytesOf g.text with
  | nil => exact absurd (Text.eq_of_bytesOf_eq (q := "") hb) g.ne_empty
  | cons b bs =>
    rw [hb, List.all_cons, Bool.and_eq_true] at hvalid
    exact ⟨b, by rw [rest_of_stands h, hb]; rfl, hvalid.1⟩

theorem AtEnd.of_gap (g : Written.Gap) (h : Stands s i g.text) : AtEnd s i := by
  obtain ⟨b, hb, hspace⟩ := exists_space g h
  exact ⟨b, hb, .inl hspace⟩

theorem AtEnd.of_space (w : Written.Space) (h : Stands s i (w.text ++ ">")) : AtEnd s i := by
  by_cases hne : w.text = ""
  · rw [hne, String.empty_append] at h
    exact ⟨0x3E, by rw [rest_of_stands h]; rfl, .inr rfl⟩
  · exact .of_gap ⟨w, hne⟩ h.left

theorem AtEnd.stops (h : AtEnd s i) : Stops isName (rest s i) := by
  obtain ⟨b, hb, hend⟩ := h
  intro c hc
  obtain rfl := Option.some.inj (hb.symm.trans hc)
  rcases hend with hspace | rfl
  · exact isName_eq_false b (.inl hspace)
  · rfl

/-! ## Names, keywords and literals -/

theorem name?_of_stands (h : Stands s i p) (hname : Written.isName p) (hend : AtEnd s (i + size p)) :
    name? s i = some (i + size p) :=
  name?_of_rest (rest_of_stands h) hname hend.stops

theorem keyword?_of_stands {word : String} (h : Stands s i word) (hend : AtEnd s (i + size word)) :
    keyword? word s i = some (i + size word) := by
  have hstops := hend.stops
  obtain ⟨b, hb, -⟩ := hend
  rw [keyword?, literal?_of_rest (rest_of_stands h)]
  simp only [Text.byte?_eq_head?, show (rest s (i + size word)).head? = some b from hb, hstops b hb,
    Bool.false_eq_true, if_false]

theorem keyword?_eq_none {word : String} (h : (bytesOf word).isPrefixOf (rest s i) = false) :
    keyword? word s i = none := by
  rw [keyword?, literal?_eq_none h]

theorem literal?_eq_some {lit : String} (h : literal? lit s i = some j) :
    j = i + size lit ∧ rest s i = bytesOf lit ++ rest s j := by
  unfold literal? at h
  split at h
  · rename_i hstart
    obtain rfl := Option.some.inj h
    rw [Text.startsAt_eq, List.isPrefixOf_iff_prefix] at hstart
    obtain ⟨r, hr⟩ := hstart
    refine ⟨rfl, ?_⟩
    rw [← Text.length_bytesOf, Text.rest_add hr.symm, hr]
  · cases h

theorem name?_of_keyword? {word : String} (hword : Written.isName word) (h : keyword? word s i = some j) :
    name? s i = some j := by
  unfold keyword? at h
  split at h
  · rename_i k hliteral
    obtain ⟨rfl, hrest⟩ := literal?_eq_some hliteral
    rw [Text.byte?_eq_head?] at h
    have hj : j = i + size word ∧ Stops isName (rest s (i + size word)) := by
      split at h
      · rename_i b hb
        split at h
        · cases h
        · rename_i hname
          refine ⟨(Option.some.inj h).symm, fun c hc => ?_⟩
          obtain rfl := Option.some.inj (hb.symm.trans hc)
          exact Bool.eq_false_iff.mpr hname
      · rename_i hnone
        refine ⟨(Option.some.inj h).symm, fun c hc => ?_⟩
        cases hnone.symm.trans hc
    rw [hj.1]
    exact name?_of_rest hrest hword hj.2
  · cases h

theorem not_mem_literal {stops : List UInt8} (l : Literal stops) :
    ∀ b ∈ l.quote.byte :: stops, b ∉ bytesOf l.text := by
  intro b hb hmem
  have hnot := List.all_eq_true.mp l.free b hmem
  rw [List.contains_iff_mem.mpr hb] at hnot
  cases hnot

theorem quoted?_of_stands {stops : List UInt8} (l : Literal stops) (h : Stands s i l.print) :
    quoted? stops s i = some (i + size l.print, true) := by
  have hrest : rest s i = l.quote.byte ::
      (bytesOf l.text ++ (l.quote.byte :: rest s (i + size l.print))) := by
    rw [rest_of_stands h, bytesOf_literal]
    simp
  have hinside := Text.rest_succ hrest
  have hstop : untilAny (l.quote.byte :: stops) s (i + 1) = i + 1 + size l.text :=
    untilAny_of_rest hinside (not_mem_literal l) (by rintro b ⟨⟩; exact List.mem_cons_self)
  have hclose : Text.byte? s (i + 1 + size l.text) = some l.quote.byte := by
    rw [← Text.length_bytesOf]
    exact Text.byte?_of_rest (Text.rest_add hinside)
  have hsize : i + 1 + size l.text + 1 = i + size l.print := by
    have hone : size l.quote.print = 1 := by cases l.quote <;> rfl
    rw [Literal.print, Text.size_append, Text.size_append, hone]
    omega
  simp only [quoted?, Text.byte?_of_rest hrest, isQuoteByte_byte, hstop, hclose, if_true,
    beq_self_eq_true, hsize]

theorem keyword?_literal {stops : List UInt8} (word : String) (l : Literal stops)
    (h : Stands s i l.print) {c : UInt8} {cs : List UInt8} (hword : bytesOf word = c :: cs)
    (hc : isQuoteByte c = false) : keyword? word s i = none := by
  refine keyword?_eq_none (isPrefixOf_eq_false hword ?_)
  rw [rest_of_stands h, bytesOf_literal]
  rintro b ⟨⟩
  refine beq_eq_false_iff_ne.mpr ?_
  rintro rfl
  rw [isQuoteByte_byte] at hc
  cases hc

/-! ## Groups -/

/-- The bytes that matter for the end of a group. -/
def isGroupByte (b : UInt8) : Bool := b == 0x28 || b == 0x29 || b == 0x3C || b == 0x3E

theorem groupEnd_of_cons {b : UInt8} (h : rest s i = b :: r) (hb : isGroupByte b = false) :
    groupEnd s i d = groupEnd s (i + 1) d := by
  have hlt : i < s.utf8ByteSize := Text.lt_size_of_rest h
  have hbyte : s.getUTF8Byte ⟨i⟩ hlt = b := by
    rw [Text.rest_of_lt hlt] at h
    exact (List.cons.inj h).1
  simp only [isGroupByte, Bool.or_eq_false_iff] at hb
  obtain ⟨⟨⟨hopen, hclose⟩, hless⟩, hgreater⟩ := hb
  rw [groupEnd, dif_pos hlt]
  simp only [hbyte, hopen, hclose, hless, hgreater, Bool.false_eq_true, if_false, Bool.or_self]

theorem groupEnd_of_open (h : rest s i = 0x28 :: r) : groupEnd s i d = groupEnd s (i + 1) (d + 1) := by
  have hlt : i < s.utf8ByteSize := Text.lt_size_of_rest h
  have hbyte : s.getUTF8Byte ⟨i⟩ hlt = 0x28 := by
    rw [Text.rest_of_lt hlt] at h
    exact (List.cons.inj h).1
  rw [groupEnd, dif_pos hlt]
  simp only [hbyte, beq_self_eq_true, if_true]

theorem groupEnd_of_close (h : rest s i = 0x29 :: r) :
    groupEnd s i d = if d = 0 then i else groupEnd s (i + 1) (d - 1) := by
  have hlt : i < s.utf8ByteSize := Text.lt_size_of_rest h
  have hbyte : s.getUTF8Byte ⟨i⟩ hlt = 0x29 := by
    rw [Text.rest_of_lt hlt] at h
    exact (List.cons.inj h).1
  rw [groupEnd, dif_pos hlt]
  simp only [hbyte, show ((0x29 : UInt8) == 0x28) = false from rfl, beq_self_eq_true, Bool.false_eq_true,
    if_false, if_true]

theorem groupEnd_of_rest {l : List UInt8} (h : rest s i = l ++ r)
    (hl : ∀ b ∈ l, isGroupByte b = false) : groupEnd s i d = groupEnd s (i + l.length) d := by
  induction l generalizing i with
  | nil => rfl
  | cons b l ih =>
    rw [groupEnd_of_cons h (hl b List.mem_cons_self), ih (Text.rest_succ h) fun c hc =>
      hl c (List.mem_cons_of_mem b hc), List.length_cons]
    congr 1
    omega

theorem groupEnd_of_stands (h : Stands s i p) (hp : ∀ b ∈ bytesOf p, isGroupByte b = false) :
    groupEnd s i d = groupEnd s (i + size p) d := by
  rw [groupEnd_of_rest (rest_of_stands h) hp, Text.length_bytesOf]

theorem isGroupByte_of_isName : ∀ b, isName b = true → isGroupByte b = false :=
  Text.forall_byte (by decide +kernel)

theorem isGroupByte_of_isSpace : ∀ b, isSpace b = true → isGroupByte b = false :=
  Text.forall_byte (by decide +kernel)

theorem isSpace_of_mem (w : Written.Space) : ∀ b ∈ bytesOf w.text, isSpace b = true := by
  simpa [Written.isSpace] using w.valid

theorem isGroupByte_particle (piece : Written.Particle) :
    ∀ b ∈ bytesOf piece.print, isGroupByte b = false := by
  cases piece with
  | name n => exact fun b hb => isGroupByte_of_isName b (isName_of_mem n.valid b hb)
  | space w => exact fun b hb => isGroupByte_of_isSpace b (isSpace_of_mem w b hb)
  | characters | choice | sequence => exact Text.forall_mem_of_all (by decide)
  | occurs o => cases o <;> exact Text.forall_mem_of_all (by decide)

theorem startsParameter_particle (piece : Written.Particle) :
    ∀ b ∈ bytesOf piece.print, isSpace b = true ∨ startsParameter b = true := by
  cases piece with
  | name n => exact fun b hb => .inr (startsParameter_of_isName b (isName_of_mem n.valid b hb))
  | space w => exact fun b hb => .inl (isSpace_of_mem w b hb)
  | characters | choice | sequence => exact Text.forall_mem_of_all (by decide)
  | occurs o => cases o <;> exact Text.forall_mem_of_all (by decide)

theorem startsParameter_model (m : Written.Model) :
    ∀ b ∈ bytesOf m.print, isSpace b = true ∨ startsParameter b = true := by
  have hparen : ∀ b ∈ bytesOf "(" ++ bytesOf ")", startsParameter b = true :=
    Text.forall_mem_of_all (by decide)
  induction m with
  | nil => exact Text.forall_mem_of_all (by decide)
  | particle piece others ih =>
    rw [Written.Model.print, Text.bytesOf_append]
    exact List.forall_mem_append.mpr ⟨startsParameter_particle piece, ih⟩
  | group inside others ihinside ih =>
    simp only [Written.Model.print, Text.bytesOf_append, List.forall_mem_append] at hparen ⊢
    exact ⟨fun b hb => .inr (hparen.1 b hb), ihinside, fun b hb => .inr (hparen.2 b hb), ih⟩

theorem groupEnd_model (m : Written.Model) (h : Stands s i m.print) :
    groupEnd s i d = groupEnd s (i + size m.print) d := by
  induction m generalizing i d with
  | nil => rfl
  | particle piece others ih =>
    rw [groupEnd_of_stands h.left (isGroupByte_particle piece), ih h.right, Written.Model.print,
      Text.size_append, Nat.add_assoc]
  | group inside others ihinside ih =>
    have hclose := h.right.right
    have hbehind : i + size (Written.Model.group inside others).print =
        i + size "(" + size inside.print + size ")" + size others.print := by
      simp only [Written.Model.print, Text.size_append]
      omega
    rw [groupEnd_of_open (rest_of_stands h.left), ← show i + size "(" = i + 1 from rfl,
      ihinside h.right.left, groupEnd_of_close (rest_of_stands hclose.left), if_neg (Nat.succ_ne_zero d),
      Nat.add_sub_cancel, hbehind]
    exact ih hclose.right

theorem groupEnd_eq (h : Stands s i ")") : groupEnd s i 0 = i := by
  rw [groupEnd_of_close (rest_of_stands h), if_pos rfl]

/-! ## Tokens between declarations -/

def declarationOpeners : List (String × Token.DtdKind × DeclarationStage) := [
  ("<!ELEMENT", .elementOpen, .elementStart),
  ("<!ATTLIST", .attlistOpen, .attlistStart),
  ("<!ENTITY", .entityOpen, .entityStart),
  ("<!NOTATION", .notationOpen, .notationStart)]

theorem firstOpener_of_stands {p q : List (String × Token.Kind × Mode)} {lit : String}
    {kind : Token.Kind} {mode : Mode} {x : Lexer} (ho : dtdOpeners = p ++ (lit, kind, mode) :: q)
    (h : Stands s x.pos lit) (hp : (p.any fun o => (bytesOf o.1).isPrefixOf (rest s x.pos)) = false) :
    firstOpener s x dtdOpeners = some (x.emit kind (x.pos + size lit) mode) := by
  rw [ho, firstOpener_append hp, firstOpener, literal?_of_rest (rest_of_stands h)]

theorem lex_declarationOpen {lit : String} {kind : Token.DtdKind}
    (hkind : (lit, kind, stage) ∈ declarationOpeners) (h : Stands s i lit) :
    lex s (between subset i) = ⟨.dtd kind, within subset stage (i + size lit), none⟩ := by
  have hrest := rest_of_stands h
  simp only [declarationOpeners, List.mem_cons, List.not_mem_nil, or_false, Prod.mk.injEq] at hkind
  obtain ⟨hless, hopener⟩ : (∃ bs, rest s i = 0x3C :: bs) ∧
      firstOpener s (between subset i) dtdOpeners =
        some ⟨.dtd kind, within subset stage (i + size lit), none⟩ := by
    rcases hkind with ⟨rfl, rfl, rfl⟩ | ⟨rfl, rfl, rfl⟩ | ⟨rfl, rfl, rfl⟩ | ⟨rfl, rfl, rfl⟩
    · exact ⟨⟨_, hrest⟩, firstOpener_of_stands (p := []) rfl h rfl⟩
    · exact ⟨⟨_, hrest⟩, firstOpener_of_stands (p := dtdOpeners.take 1) rfl h (by rw [hrest]; rfl)⟩
    · exact ⟨⟨_, hrest⟩, firstOpener_of_stands (p := dtdOpeners.take 2) rfl h (by rw [hrest]; rfl)⟩
    · exact ⟨⟨_, hrest⟩, firstOpener_of_stands (p := dtdOpeners.take 3) rfl h (by rw [hrest]; rfl)⟩
  obtain ⟨bs, hbs⟩ := hless
  have hspace : space? s i = none := space?_eq_none (by rw [hbs]; rintro c ⟨⟩; rfl)
  have hsees : (between subset i).sees s 0x5D = false := by
    rw [sees_eq, hbs]
    rfl
  rw [lex, if_neg (Nat.not_le_of_lt (Text.lt_size_of_rest hbs))]
  show dtdContent s (between subset i) = _
  rw [dtdContent, hspace]
  simp only [hsees, Bool.and_false, Bool.false_eq_true, if_false, hopener]

theorem lex_space {x : Lexer} (hmode : x.mode = .dtdContent ∨ ∃ stage, x.mode = .declaration stage)
    (hlt : x.pos < Text.skipWhile isSpace s x.pos) :
    lex s x = ⟨.blank, { x with pos := Text.skipWhile isSpace s x.pos }, none⟩ := by
  have hsize : x.pos < size s := by
    refine Nat.lt_of_not_le fun hle => ?_
    rw [Text.skipWhile_eq, Text.rest_eq_nil hle] at hlt
    exact Nat.lt_irrefl _ hlt
  have hspace : space? s x.pos = some (Text.skipWhile isSpace s x.pos) := if_pos hlt
  obtain ⟨i, mode, spaced, inProlog, inSubset, dtdFile⟩ := x
  rw [lex, if_neg (Nat.not_le_of_lt hsize)]
  rcases hmode with rfl | ⟨stage, rfl⟩
  · simp only [dtdContent, hspace]
    rfl
  · simp only [declaration, hspace]
    rfl

theorem skipWhile_of_stands (w : Written.Space) (h : Stands s i w.text)
    (hnext : Stops isSpace (rest s (i + size w.text))) :
    Text.skipWhile isSpace s i = i + size w.text := by
  rw [Text.skipWhile_of_rest (rest_of_stands h) (isSpace_of_mem w) hnext, Text.length_bytesOf]

theorem lex_declarationClose (h : Stands s i ">") :
    lex s (within subset stage i) = ⟨.dtd .declarationClose, between subset (i + size ">"), none⟩ := by
  have hrest := rest_of_stands h
  have hspace : space? s i = none := space?_eq_none (by rw [hrest]; rintro b ⟨⟩; rfl)
  have hsees : (within subset stage i).sees s 0x3E = true := by
    rw [sees_eq, hrest]
    rfl
  rw [lex, if_neg (Nat.not_le_of_lt (lt_size_of_literal hrest (by decide)))]
  show declaration s (within subset stage i) stage = _
  rw [declaration, hspace]
  simp only [hsees, if_true]
  rfl

/-! ## Parameters -/

theorem lex_within (h : AtParameter s i) :
    lex s (within subset stage i) = declarationParameter s (within subset stage i) stage := by
  have hspace : space? s i = none := space?_eq_none h.stops
  obtain ⟨b, hb, hstart⟩ := h
  simp only [startsParameter, Bool.and_eq_true, bne_iff_ne, ne_eq] at hstart
  obtain ⟨⟨⟨-, hless⟩, hgreater⟩, hclose⟩ := hstart
  have hsees (c : UInt8) (hc : b ≠ c) : (within subset stage i).sees s c = false := by
    rw [sees_eq, show (rest s i).head? = some b from hb]
    exact beq_eq_false_iff_ne.mpr fun heq => hc (Option.some.inj heq)
  have hlt : i < size s := Text.lt_size_of_byte? ((Text.byte?_eq_head? s i).trans hb)
  rw [lex, if_neg (Nat.not_le_of_lt hlt)]
  show declaration s (within subset stage i) stage = _
  rw [declaration, hspace]
  simp only [hsees _ hless, hsees _ hgreater, hsees _ hclose, Bool.and_false, Bool.or_self,
    Bool.false_eq_true, if_false]

/-- Where a name is read, the token it makes, and what is read behind it. -/
def nameStages : List (DeclarationStage × Token.DtdKind × DeclarationStage) := [
  (.elementStart, .elementName, .elementNamed),
  (.attlistStart, .attlistElement, .attributeName),
  (.attributeName, .attributeName, .attributeType),
  (.entityStart, .entityName, .entityNamed),
  (.notationStart, .notationName, .notationNamed)]

theorem lex_name {kind : Token.DtdKind} (hstage : (stage, kind, next) ∈ nameStages) (n : Written.Name)
    (h : Stands s i n.text) (hend : AtEnd s (i + size n.text)) :
    lex s (within subset stage i) = ⟨.dtd kind, within subset next (i + size n.text), none⟩ := by
  have hname := name?_of_stands h n.valid hend
  have hpercent : (within subset stage i).sees s 0x25 = false := by
    obtain ⟨b, bs, hb, hstart⟩ := exists_bytesOf_of_isName n.valid
    rw [sees_eq, rest_of_stands h, hb]
    refine beq_eq_false_iff_ne.mpr ?_
    rintro ⟨⟩
    cases hstart
  rw [lex_within (.of_name n h)]
  simp only [nameStages, List.mem_cons, List.not_mem_nil, or_false, Prod.mk.injEq] at hstage
  rcases hstage with ⟨rfl, rfl, rfl⟩ | ⟨rfl, rfl, rfl⟩ | ⟨rfl, rfl, rfl⟩ |
    ⟨rfl, rfl, rfl⟩ | ⟨rfl, rfl, rfl⟩
  case inr.inr.inr.inl =>
    simp only [declarationParameter, hpercent, hname, Bool.false_and, Bool.false_eq_true, if_false]
    rfl
  all_goals
    simp only [declarationParameter, hname]
    rfl

/-- Where a keyword is read, the token it makes, and what is read behind it. -/
def keywordStages : List (DeclarationStage × String × Token.DtdKind × DeclarationStage) := [
  (.elementNamed, "EMPTY", .elementCategory, .elementDone),
  (.elementNamed, "ANY", .elementCategory, .elementDone),
  (.entityNamed, "PUBLIC", .entityPublic, .entityPublic),
  (.entityNamed, "SYSTEM", .entitySystem, .entitySystem),
  (.notationNamed, "PUBLIC", .notationPublic, .notationPublic),
  (.notationNamed, "SYSTEM", .notationSystem, .notationSystem)]

theorem lex_keyword {word : String} {kind : Token.DtdKind}
    (hstage : (stage, word, kind, next) ∈ keywordStages) (h : Stands s i word)
    (hend : AtEnd s (i + size word)) :
    lex s (within subset stage i) = ⟨.dtd kind, within subset next (i + size word), none⟩ := by
  have hword := keyword?_of_stands h hend
  have hrest := rest_of_stands h
  simp only [keywordStages, List.mem_cons, List.not_mem_nil, or_false, Prod.mk.injEq] at hstage
  rcases hstage with ⟨rfl, rfl, rfl, rfl⟩ | ⟨rfl, rfl, rfl, rfl⟩ | ⟨rfl, rfl, rfl, rfl⟩ |
    ⟨rfl, rfl, rfl, rfl⟩ | ⟨rfl, rfl, rfl, rfl⟩ | ⟨rfl, rfl, rfl, rfl⟩
  · have hopen : (within subset .elementNamed i).sees s 0x28 = false := by rw [sees_eq, hrest]; rfl
    rw [lex_within (.of_stands h rfl rfl)]
    simp only [declarationParameter, hopen, hword]
    rfl
  · have hopen : (within subset .elementNamed i).sees s 0x28 = false := by rw [sees_eq, hrest]; rfl
    have hempty : keyword? "EMPTY" s i = none := keyword?_eq_none (by rw [hrest]; rfl)
    rw [lex_within (.of_stands h rfl rfl)]
    simp only [declarationParameter, hopen, hempty, hword]
    rfl
  · rw [lex_within (.of_stands h rfl rfl)]
    simp only [declarationParameter, hword]
    rfl
  · have hpublic : keyword? "PUBLIC" s i = none := keyword?_eq_none (by rw [hrest]; rfl)
    rw [lex_within (.of_stands h rfl rfl)]
    simp only [declarationParameter, hpublic, hword]
    rfl
  · rw [lex_within (.of_stands h rfl rfl)]
    simp only [declarationParameter, hword]
    rfl
  · have hpublic : keyword? "PUBLIC" s i = none := keyword?_eq_none (by rw [hrest]; rfl)
    rw [lex_within (.of_stands h rfl rfl)]
    simp only [declarationParameter, hpublic, hword]
    rfl

/-- Where a literal is read and what must not be in it, the token it makes, and what is read behind
it. -/
def literalStages : List (DeclarationStage × List UInt8 × Token.DtdKind × DeclarationStage) := [
  (.entityNamed, [], .entityValue, .entityDone),
  (.entityPublic, brackets, .entityPublicId, .entityPublicId),
  (.entityPublicId, brackets, .entitySystemId, .entityDone),
  (.entitySystem, brackets, .entitySystemId, .entityDone),
  (.notationPublic, brackets, .notationPublicId, .notationPublicId),
  (.notationPublicId, brackets, .notationSystemId, .notationDone),
  (.notationSystem, brackets, .notationSystemId, .notationDone)]

theorem lex_literal {stops : List UInt8} {kind : Token.DtdKind}
    (hstage : (stage, stops, kind, next) ∈ literalStages) (l : Literal stops) (h : Stands s i l.print) :
    lex s (within subset stage i) = ⟨.dtd kind, within subset next (i + size l.print), none⟩ := by
  have hquoted := quoted?_of_stands l h
  rw [lex_within (.of_literal l h)]
  simp only [literalStages, List.mem_cons, List.not_mem_nil, or_false, Prod.mk.injEq] at hstage
  rcases hstage with ⟨rfl, rfl, rfl, rfl⟩ | ⟨rfl, rfl, rfl, rfl⟩ | ⟨rfl, rfl, rfl, rfl⟩ |
    ⟨rfl, rfl, rfl, rfl⟩ | ⟨rfl, rfl, rfl, rfl⟩ | ⟨rfl, rfl, rfl, rfl⟩ | ⟨rfl, rfl, rfl, rfl⟩
  case inl =>
    simp only [declarationParameter, keyword?_literal "PUBLIC" l h rfl rfl,
      keyword?_literal "SYSTEM" l h rfl rfl, hquoted]
    rfl
  all_goals
    simp only [declarationParameter, hquoted]
    rfl

theorem lex_percent (g : Written.Gap) (h : Stands s i ("%" ++ g.text)) :
    lex s (within subset .entityStart i) =
      ⟨.dtd .entityPercent, within subset .entityStart (i + size "%"), none⟩ := by
  have hsees : (within subset .entityStart i).sees s 0x25 = true := by
    rw [sees_eq, rest_of_stands h.left]
    rfl
  have hspace : ((Text.byte? s (i + 1)).map isSpace).getD false = true := by
    obtain ⟨b, hb, hspace⟩ := exists_space g h.right
    rw [Text.byte?_eq_head?, show (rest s (i + 1)).head? = some b from hb]
    exact hspace
  rw [lex_within (.of_stands h.left rfl rfl)]
  simp only [declarationParameter, hsees, hspace, Bool.and_self, if_true]
  rfl

/-! ## Content models -/

theorem lex_contentOpen (h : Stands s i "(") :
    lex s (within subset .elementNamed i) =
      ⟨.dtd .contentOpen, within subset .elementContent (i + size "("), none⟩ := by
  have hsees : (within subset .elementNamed i).sees s 0x28 = true := by
    rw [sees_eq, rest_of_stands h]
    rfl
  rw [lex_within (.of_stands h rfl rfl)]
  simp only [declarationParameter, hsees, if_true]
  rfl

theorem lex_contentBody (h : AtParameter s i) (hend : groupEnd s i 0 = j) (hlt : i < j) :
    lex s (within subset .elementContent i) =
      ⟨.dtd .contentBody, within subset .elementContent j, none⟩ := by
  have hsees : (within subset .elementContent i).sees s 0x29 = false := by
    refine Bool.eq_false_iff.mpr fun hsees => ?_
    rw [sees_eq, beq_iff_eq, List.head?_eq_some_iff] at hsees
    obtain ⟨r, hr⟩ := hsees
    rw [groupEnd_of_close hr, if_pos rfl] at hend
    exact absurd hend (Nat.ne_of_lt hlt)
  rw [lex_within h]
  simp only [declarationParameter, elementContent, hsees, Bool.false_eq_true, if_false, hend]
  rfl

theorem lex_contentClose (o : Option Written.Occurs) (h : Stands s i (")" ++ Written.printOccurs o))
    (hend : AtEnd s (i + size (")" ++ Written.printOccurs o))) :
    lex s (within subset .elementContent i) =
      ⟨.dtd .contentClose, within subset .elementDone (i + size (")" ++ Written.printOccurs o)), none⟩ := by
  have hsees : (within subset .elementContent i).sees s 0x29 = true := by
    rw [sees_eq, rest_of_stands h.left]
    rfl
  rw [lex_within (.of_stands h.left rfl rfl)]
  simp only [declarationParameter, elementContent, hsees, if_true]
  cases o with
  | none =>
    obtain ⟨b, hb, hspace⟩ := hend
    have hmark : ∀ b, isSpace b = true ∨ b = 0x3E → (b == 0x3F || b == 0x2A || b == 0x2B) = false :=
      Text.forall_byte (by decide +kernel)
    simp only [Text.byte?_eq_head?, show (rest s (i + 1)).head? = some b from hb, hmark b hspace,
      Bool.false_eq_true, if_false]
    rfl
  | some o =>
    obtain ⟨b, hb, hmark⟩ : ∃ b, Text.byte? s (i + 1) = some b ∧
        (b == 0x3F || b == 0x2A || b == 0x2B) = true := by
      have hrest := rest_of_stands h.right
      cases o with
      | _ => exact ⟨_, Text.byte?_of_rest hrest, rfl⟩
    simp only [hb, hmark, if_true]
    cases o <;> rfl

/-! ## Attributes -/

theorem isGroupByte_choices (cs : List Written.Choice) :
    ∀ b ∈ bytesOf (Written.printChoices cs), isGroupByte b = false := by
  have hchoice (c : Written.Choice) : ∀ b ∈ bytesOf c.print, isGroupByte b = false := by
    intro b hb
    rw [Written.Choice.print, Text.bytesOf_append, Text.bytesOf_append, List.mem_append,
      List.mem_append] at hb
    rcases hb with hb | hb | hb
    · exact isGroupByte_of_isSpace b (isSpace_of_mem _ b hb)
    · exact isGroupByte_of_isName b (isName_of_mem c.name.valid b hb)
    · exact isGroupByte_of_isSpace b (isSpace_of_mem _ b hb)
  fun_induction Written.printChoices cs with
  | case1 => simp [bytesOf]
  | case2 c => exact hchoice c
  | case3 c d cs ih =>
    intro b hb
    rw [Text.bytesOf_append, Text.bytesOf_append, List.mem_append, List.mem_append] at hb
    rcases hb with hb | hb | hb
    · exact hchoice c b hb
    · obtain rfl := List.mem_singleton.mp hb
      rfl
    · exact ih b hb

theorem groupStop_of_stands {cs : List Written.Choice} (h : Stands s i (Written.printGroup cs)) :
    groupStop s i = i + size (Written.printGroup cs) := by
  have hinside := h.right.left
  have hclose := h.right.right
  have hend : groupEnd s (i + 1) 0 = i + 1 + size (Written.printChoices cs) := by
    rw [← show i + size "(" = i + 1 from rfl, groupEnd_of_stands hinside (isGroupByte_choices cs)]
    exact groupEnd_eq hclose
  have hsize : i + size (Written.printGroup cs) = i + 1 + size (Written.printChoices cs) + 1 := by
    rw [Written.printGroup, Text.size_append, Text.size_append, show size "(" = 1 from rfl,
      show size ")" = 1 from rfl]
    omega
  have hbyte : Text.byte? s (i + 1 + size (Written.printChoices cs)) = some 0x29 :=
    Text.byte?_of_rest (rest_of_stands hclose)
  simp only [groupStop, hend, hbyte, beq_self_eq_true, if_true, hsize]

theorem byte?_group {cs : List Written.Choice} (h : Stands s i (Written.printGroup cs)) :
    Text.byte? s i = some 0x28 :=
  Text.byte?_of_rest (rest_of_stands h.left)

theorem AtParameter.of_type (t : Written.AttType) (h : Stands s i t.print) : AtParameter s i := by
  cases t with
  | name n => exact .of_name n h
  | enumeration cs => exact .of_stands h.left rfl rfl
  | notations g cs => exact .of_stands h.left rfl rfl

theorem byte?_default (d : Written.Default) (h : Stands s i d.print) :
    ∃ b, Text.byte? s i = some b ∧ (b = 0x23 ∨ isQuoteByte b = true) := by
  cases d with
  | required => exact ⟨_, Text.byte?_of_rest (rest_of_stands h), .inl rfl⟩
  | implied => exact ⟨_, Text.byte?_of_rest (rest_of_stands h), .inl rfl⟩
  | fixed g l => exact ⟨_, Text.byte?_of_rest (rest_of_stands h.left), .inl rfl⟩
  | value l =>
    have hrest := rest_of_stands h
    rw [show Written.Default.print (.value l) = l.print from rfl, bytesOf_literal] at hrest
    exact ⟨_, Text.byte?_of_rest hrest, .inr (isQuoteByte_byte _)⟩

theorem AtParameter.of_default (d : Written.Default) (h : Stands s i d.print) : AtParameter s i := by
  obtain ⟨b, hb, hstart⟩ := byte?_default d h
  have hparameter : ∀ b, b = 0x23 ∨ isQuoteByte b = true → startsParameter b = true :=
    Text.forall_byte (by decide +kernel)
  exact ⟨b, (Text.byte?_eq_head? s i).symm.trans hb, hparameter b hstart⟩

theorem attributeType?_name (n : Written.Name) (g : Written.Gap) (d : Written.Default)
    (h : Stands s i (n.text ++ (g.text ++ d.print))) :
    attributeType? s i = some (i + size n.text) := by
  have hname := name?_of_stands h.left n.valid (.of_gap g h.right.left)
  have hopen : (Text.byte? s i == some 0x28) = false := by
    obtain ⟨b, bs, hb, hstart⟩ := exists_bytesOf_of_isName n.valid
    rw [Text.byte?_eq_head?, rest_of_stands h.left, hb]
    refine beq_eq_false_iff_ne.mpr ?_
    rintro ⟨⟩
    cases hstart
  rw [attributeType?, hopen]
  cases hkeyword : keyword? "NOTATION" s i with
  | none => exact hname
  | some j =>
    obtain rfl := Option.some.inj ((name?_of_keyword? (by decide) hkeyword).symm.trans hname)
    have hskip := skipWhile_of_stands g.toSpace h.right.left (AtParameter.of_default d h.right.right).stops
    obtain ⟨b, hb, hdefault⟩ := byte?_default d h.right.right
    have hgroup : (Text.byte? s (i + size n.text + size g.text) == some 0x28) = false := by
      rw [hb]
      refine beq_eq_false_iff_ne.mpr ?_
      rintro ⟨⟩
      rcases hdefault with hdefault | hdefault <;> cases hdefault
    simp only [hskip, hgroup, Bool.false_eq_true, if_false]

theorem lex_attributeType (t : Written.AttType) (g : Written.Gap) (d : Written.Default)
    (h : Stands s i (t.print ++ (g.text ++ d.print))) :
    lex s (within subset .attributeType i) =
      ⟨.dtd .attributeType, within subset .attributeDefault (i + size t.print), none⟩ := by
  have htype : attributeType? s i = some (i + size t.print) := by
    cases t with
    | name n => exact attributeType?_name n g d h
    | enumeration cs =>
      rw [attributeType?, byte?_group h.left, groupStop_of_stands h.left]
      rfl
    | notations gap cs =>
      have hword := keyword?_of_stands h.left.left (.of_gap gap h.left.right.left)
      have hgroup := h.left.right.right
      have hopen : (Text.byte? s i == some 0x28) = false := by
        rw [Text.byte?_eq_head?, rest_of_stands h.left.left]
        rfl
      have hskip := skipWhile_of_stands gap.toSpace h.left.right.left
        (AtParameter.of_stands hgroup.left rfl rfl).stops
      have hsize : i + size "NOTATION" + size gap.text + size (Written.printGroup cs) =
          i + size (Written.AttType.notations gap cs).print := by
        simp only [Written.AttType.print, Text.size_append]
        omega
      rw [attributeType?, hopen]
      simp only [hword, hskip, byte?_group hgroup, groupStop_of_stands hgroup, hsize, beq_self_eq_true,
        Bool.false_eq_true, if_false, if_true]
  rw [lex_within (.of_type t h.left)]
  simp only [declarationParameter, htype]
  rfl

theorem lex_attributeDefault (d : Written.Default) (h : Stands s i d.print)
    (hend : AtEnd s (i + size d.print)) :
    lex s (within subset .attributeDefault i) =
      ⟨.dtd .attributeDefault, within subset .attributeName (i + size d.print), none⟩ := by
  have hdefault : attributeDefault? s i = some (i + size d.print, true) := by
    cases d with
    | required =>
      have hfixed : keyword? "#FIXED" s i = none := keyword?_eq_none (by rw [rest_of_stands h]; rfl)
      have hword : keyword? "#REQUIRED" s i = some (i + size "#REQUIRED") := keyword?_of_stands h hend
      simp only [attributeDefault?, hfixed, hword]
      rfl
    | implied =>
      have hfixed : keyword? "#FIXED" s i = none := keyword?_eq_none (by rw [rest_of_stands h]; rfl)
      have hrequired : keyword? "#REQUIRED" s i = none :=
        keyword?_eq_none (by rw [rest_of_stands h]; rfl)
      have hword : keyword? "#IMPLIED" s i = some (i + size "#IMPLIED") := keyword?_of_stands h hend
      simp only [attributeDefault?, hfixed, hrequired, hword]
      rfl
    | value l =>
      simp only [attributeDefault?, keyword?_literal "#FIXED" l h rfl rfl,
        keyword?_literal "#REQUIRED" l h rfl rfl, keyword?_literal "#IMPLIED" l h rfl rfl]
      exact quoted?_of_stands l h
    | fixed g l =>
      have hskip := skipWhile_of_stands g.toSpace h.right.left (AtParameter.of_literal l h.right.right).stops
      have hsize : i + size "#FIXED" + size g.text + size l.print =
          i + size (Written.Default.fixed g l).print := by
        simp only [Written.Default.print, Text.size_append]
        omega
      simp only [attributeDefault?, keyword?_of_stands h.left (.of_gap g h.right.left), hskip,
        quoted?_of_stands l h.right.right, hsize]
      rfl
  rw [lex_within (.of_default d h)]
  simp only [declarationParameter, hdefault]
  rfl

/-! ## Document types -/

section doctype
variable {kind : DoctypeStage}

theorem lex_doctypeOpen (h : Stands s i "<!DOCTYPE") :
    lex s (cursor .content i false) =
      ⟨.dtd .doctypeOpen, cursor (.doctype .start) (i + size "<!DOCTYPE") false, none⟩ :=
  lex_opener (p := contentOpeners.take 2) rfl (rest_of_stands h) (by decide)
    (by rw [rest_of_stands h]; rfl)

theorem lex_doctype (h : i < size s) :
    lex s (cursor (.doctype kind) i false) = doctype s (cursor (.doctype kind) i false) kind := by
  rw [lex, if_neg (Nat.not_le_of_lt h)]

theorem lex_doctypeSpace (h : Stands s i " ") (hnext : Stops isSpace (rest s (i + size " "))) :
    lex s (cursor (.doctype kind) i false) =
      ⟨.blank, cursor (.doctype kind) (i + size " ") false, none⟩ := by
  have hrest := rest_of_stands h
  rw [lex_doctype (lt_size_of_literal hrest (by decide)), doctype,
    space?_of_rest hrest (by decide) (by decide) hnext]
  rfl

theorem lex_doctypeName (n : Written.Name) (h : Stands s i n.text) (hend : AtEnd s (i + size n.text)) :
    lex s (cursor (.doctype .start) i false) =
      ⟨.dtd .doctypeName, cursor (.doctype .named) (i + size n.text) false, none⟩ := by
  have hname := name?_of_stands h n.valid hend
  have hspace : space? s i = none := space?_eq_none (AtParameter.of_name n h).stops
  obtain ⟨b, bs, hb, hstart⟩ := exists_bytesOf_of_isName n.valid
  have hrest := rest_of_stands h
  rw [hb] at hrest
  have hsees (c : UInt8) (hc : isNameStart c = false) :
      (cursor (.doctype .start) i false).sees s c = false := by
    rw [sees_eq, hrest]
    refine beq_eq_false_iff_ne.mpr ?_
    rintro ⟨⟩
    rw [hstart] at hc
    cases hc
  rw [lex_doctype (Text.lt_size_of_rest hrest), doctype, hspace]
  simp only [hsees 0x5B rfl, hsees 0x3E rfl, hsees 0x3C rfl, Bool.and_false, Bool.false_eq_true, if_false,
    doctypeParameter, hname]
  rfl

theorem lex_subsetOpen (h : Stands s i "[") :
    lex s (cursor (.doctype .named) i false) = ⟨.dtd .subsetOpen, between true (i + size "["), none⟩ := by
  have hrest := rest_of_stands h
  have hspace : space? s i = none := space?_eq_none (by rw [hrest]; rintro b ⟨⟩; rfl)
  have hsees : (cursor (.doctype .named) i false).sees s 0x5B = true := by
    rw [sees_eq, hrest]
    rfl
  rw [lex_doctype (lt_size_of_literal hrest (by decide)), doctype, hspace]
  simp only [hsees, show (DoctypeStage.named != .subset) = true from rfl, Bool.and_self, if_true]
  rfl

theorem lex_subsetClose (h : Stands s i "]") :
    lex s (between true i) =
      ⟨.dtd .subsetClose, cursor (.doctype .subset) (i + size "]") false, none⟩ := by
  have hrest := rest_of_stands h
  have hspace : space? s i = none := space?_eq_none (by rw [hrest]; rintro b ⟨⟩; rfl)
  have hsees : (between true i).sees s 0x5D = true := by
    rw [sees_eq, hrest]
    rfl
  rw [lex, if_neg (Nat.not_le_of_lt (lt_size_of_literal hrest (by decide)))]
  show dtdContent s (between true i) = _
  rw [dtdContent, hspace]
  simp only [hsees, Bool.and_self, if_true]
  rfl

theorem lex_doctypeClose (h : Stands s i ">") :
    lex s (cursor (.doctype .subset) i false) =
      ⟨.dtd .doctypeClose, cursor .content (i + size ">") false, none⟩ := by
  have hrest := rest_of_stands h
  have hspace : space? s i = none := space?_eq_none (by rw [hrest]; rintro b ⟨⟩; rfl)
  have hsees : (cursor (.doctype .subset) i false).sees s 0x3E = true := by
    rw [sees_eq, hrest]
    rfl
  rw [lex_doctype (lt_size_of_literal hrest (by decide)), doctype, hspace]
  simp only [hsees, show (DoctypeStage.subset != .subset) = false from rfl, Bool.false_and,
    Bool.false_eq_true, if_false, if_true]
  rfl

end doctype

end XmlAssist.Lexer

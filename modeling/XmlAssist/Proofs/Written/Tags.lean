import XmlAssist.Proofs.Written.Pieces

/-!
# Reading tags

The attributes of a tag or of the XML declaration one after the other, and the tags around them. An
element stays current behind its start tag, and its end tag closes it whatever its content added.
-/

namespace XmlAssist.Written

open Node
open Lexer (cursor attributeMode Stops)
open Text (Stands rest bytesOf size)

variable {s : String} {i j m p : Nat} {N A B : Array Node} {spaced prolog : Bool}

/-! ## Attributes -/

theorem exists_quote (q : Quote) : ∃ c, q.print.toList = [c] ∧ Text.isQuote c = true := by
  cases q with
  | single => exact ⟨_, rfl, rfl⟩
  | double => exact ⟨_, rfl, rfl⟩

theorem startsWithQuote_quoted (a : Attr) : Text.startsWithQuote a.quoted = true := by
  obtain ⟨c, hc, hquote⟩ := exists_quote a.quote
  rw [Text.startsWithQuote, Attr.quoted, String.toList_append, hc]
  exact hquote

theorem stripQuotes_quoted (a : Attr) : Text.stripQuotes a.quoted = a.value := by
  obtain ⟨c, hc, hquote⟩ := exists_quote a.quote
  rw [Text.stripQuotes, Attr.quoted, String.toList_append, String.toList_append, hc]
  show String.ofList (Text.dropEndQuote (Text.dropStartQuote (c :: (a.value.toList ++ [c])))) = _
  rw [Text.dropStartQuote, if_pos hquote, Text.dropEndQuote, List.getLast?_concat]
  show String.ofList (if Text.isQuote c then (a.value.toList ++ [c]).dropLast else _) = _
  rw [if_pos hquote, List.dropLast_concat, String.ofList_toList]

theorem size_print_attr (a : Attr) :
    size a.print = size a.space + size a.name + size "=" + size a.quoted := by
  simp only [Attr.print, Attr.body, Text.size_append]
  omega

theorem passes_tagSpace {space : String} {r : List UInt8} (prolog spaced : Bool)
    (hr : rest s j = bytesOf space ++ r) (hspace : isSpace space) (hnext : Stops Lexer.isSpace r) :
    ∃ spaced', ∀ b, Passes s (cursor (attributeMode prolog) j spaced prolog) b
      (cursor (attributeMode prolog) (j + size space) spaced' prolog) b := by
  by_cases hne : space = ""
  · subst hne
    exact ⟨spaced, fun _ => .refl ..⟩
  · exact ⟨true, fun _ => .of_blank (Lexer.lex_tagSpace hr hspace hne hnext)
      (Nat.lt_add_of_pos_right (Text.size_pos hne))⟩

/-- The node of an attribute at offset `start` of which there is no value yet. -/
def Attr.named (a : Attr) (start parent : Nat) (assigned : Bool) : Node where
  span := ⟨start, start + size a.name⟩
  parent := some parent
  kind := .attribute
    { name := a.name, nameSpan := ⟨start, start + size a.name⟩, hasDelimiter := assigned }

theorem passes_attributeName {a : Attr} {k k' : Kind}
    (hk : Builder.withAttribute (A.size + 1 + B.size) k = some k') (hname : isName a.name)
    (h : Stands s j a.body) (hm : m ≤ j) :
    Passes s (cursor (attributeMode prolog) j true prolog) (.inside A (nodeOf p i m k) B)
      (cursor .afterAttributeName (j + size a.name) false prolog)
      (.insideAttribute A (nodeOf p i (j + size a.name) k') B (a.named j A.size false)) := by
  obtain ⟨r, hr⟩ := h.rest_append
  have hassign : Stops Lexer.isName (bytesOf ("=" ++ a.quoted) ++ r) := by
    rw [Text.bytesOf_append]
    rintro b ⟨⟩
    rfl
  refine .of_lex (Lexer.lex_attributeName hr hname hassign) (by decide)
    (Nat.lt_add_of_pos_right (Text.size_pos (Lexer.ne_empty_of_isName hname))) ?_
  rw [Builder.step_attributeName, Builder.attributeName_inside hk, h.left.slice,
    extendTo_of_le (show m ≤ j + size a.name by omega)]
  rfl

theorem passes_assign {a : Attr} {k : Kind} {start : Nat} (h : Stands s j "=") (hm : m ≤ j) :
    Passes s (cursor .afterAttributeName j false prolog)
      (.insideAttribute A (nodeOf p i m k) B (a.named start A.size false))
      (cursor .beforeAttributeValue (j + size "=") false prolog)
      (.insideAttribute A (nodeOf p i (j + size "=") k) B (a.named start A.size true)) := by
  obtain ⟨_, hr⟩ := h.rest
  refine .of_lex (Lexer.lex_assign hr) (by decide) (Nat.lt_add_of_pos_right (by decide)) ?_
  rw [Builder.step_assign, Builder.assign_inside rfl,
    extendTo_of_le (show m ≤ j + size "=" by omega)]
  rfl

theorem passes_attributeValue {a : Attr} {k : Kind} (ha : a.Valid)
    (h : Stands s (j + size a.space + size a.name + size "=") a.quoted)
    (hm : m ≤ j + size a.space + size a.name + size "=") :
    Passes s (cursor .beforeAttributeValue (j + size a.space + size a.name + size "=") false prolog)
      (.insideAttribute A (nodeOf p i m k) B (a.named (j + size a.space) A.size true))
      (cursor (attributeMode prolog) (j + size a.print) false prolog)
      (.inside A (nodeOf p i (j + size a.print) k) (B.push (a.node j A.size))) := by
  obtain ⟨_, hr⟩ := h.rest
  have hprint : j + size a.print = j + size a.space + size a.name + size "=" + size a.quoted := by
    rw [size_print_attr]
    omega
  have hbody : j + size a.space + size a.body =
      j + size a.space + size a.name + size "=" + size a.quoted := by
    simp only [Attr.body, Text.size_append]
    omega
  rw [hprint]
  refine .of_lex (Lexer.lex_attributeValue hr ha.value ha.quote) (by decide)
    (Nat.lt_add_of_pos_right ?_) ?_
  · rw [Attr.quoted, Text.size_append]
    exact Nat.add_pos_left (by cases a.quote <;> decide) _
  · rw [Builder.step_attributeValue, Builder.attributeValue_inside rfl, h.slice, Attribute.withValue,
      stripQuotes_quoted,
      extendTo_of_le (show m ≤ j + size a.space + size a.name + size "=" + size a.quoted by omega),
      extendTo_of_le (show j + size a.space + size a.name ≤
        j + size a.space + size a.name + size "=" + size a.quoted by omega),
      Attr.node, Attr.record, hbody]
    rfl

theorem passes_attribute {a : Attr} {own : Array Nat → Kind} {ids : Array Nat}
    (hown : ∀ ids id, Builder.withAttribute id (own ids) = some (own (ids.push id)))
    (ha : a.Valid) (h : Stands s j a.print) :
    Passes s (cursor (attributeMode prolog) j spaced prolog) (.inside A (nodeOf p i j (own ids)) B)
      (cursor (attributeMode prolog) (j + size a.print) false prolog)
      (.inside A (nodeOf p i (j + size a.print) (own (ids.push (A.size + 1 + B.size))))
        (B.push (a.node j A.size))) := by
  obtain ⟨r, hr⟩ := h.rest_append
  have hname : Stops Lexer.isSpace (bytesOf a.body ++ r) := by
    rw [Attr.body, Text.bytesOf_append, List.append_assoc]
    exact Lexer.stops_of_isName ha.name Lexer.isSpace_of_isNameStart
  have hspace : Passes s (cursor (attributeMode prolog) j spaced prolog)
      (.inside A (nodeOf p i j (own ids)) B)
      (cursor (attributeMode prolog) (j + size a.space) true prolog)
      (.inside A (nodeOf p i j (own ids)) B) :=
    .of_blank (Lexer.lex_tagSpace hr ha.space ha.spaced hname)
      (Nat.lt_add_of_pos_right (Text.size_pos ha.spaced))
  refine hspace.trans ?_
  refine (passes_attributeName (hown ids _) ha.name h.right (Nat.le_add_right ..)).trans ?_
  refine (passes_assign h.right.right.left (Nat.le_refl _)).trans ?_
  exact passes_attributeValue ha h.right.right.right (Nat.le_refl _)

theorem passes_attributes {as : List Attr} (prolog spaced : Bool) (own : Array Nat → Kind)
    (ids : Array Nat)
    (hown : ∀ ids id, Builder.withAttribute id (own ids) = some (own (ids.push id)))
    (has : ∀ a ∈ as, a.Valid) (h : Stands s j (printAttributes as)) :
    ∃ spaced', Passes s (cursor (attributeMode prolog) j spaced prolog)
      (.inside A (nodeOf p i j (own ids)) B)
      (cursor (attributeMode prolog) (j + size (printAttributes as)) spaced' prolog)
      (.inside A (nodeOf p i (j + size (printAttributes as))
          (own (ids ++ (List.range' (A.size + 1 + B.size) as.length).toArray)))
        (B ++ attributeNodes as j A.size)) := by
  induction as generalizing j ids B spaced with
  | nil =>
    refine ⟨spaced, ?_⟩
    simp only [attributeNodes, List.length_nil, List.range'_zero, Array.append_empty]
    exact .refl ..
  | cons a as ih =>
    obtain ⟨ha, has⟩ := List.forall_mem_cons.mp has
    obtain ⟨spaced', hrest⟩ := ih false (ids.push (A.size + 1 + B.size))
      (B := B.push (a.node j A.size)) has h.right
    refine ⟨spaced', (passes_attribute hown ha h.left).trans ?_⟩
    rw [printAttributes, Text.size_append, ← Nat.add_assoc, attributeNodes, ← Array.append_assoc,
      ← Array.push_eq_append, List.length_cons, List.range'_succ]
    have hids : ids ++ ((A.size + 1 + B.size) :: List.range' (A.size + 1 + B.size + 1) as.length).toArray =
        ids.push (A.size + 1 + B.size) ++
          (List.range' (A.size + 1 + (B.push (a.node j A.size)).size) as.length).toArray := by
      rw [Array.push_eq_append, Array.append_assoc, Array.size_push, List.toArray_cons]
      rfl
    rw [hids]
    exact hrest

theorem stops_attributes {as : List Attr} {r : List UInt8} {f : UInt8 → Bool}
    (has : ∀ a ∈ as, a.Valid) (hf : ∀ b, Lexer.isSpace b = true → f b = false) (hr : Stops f r) :
    Stops f (bytesOf (printAttributes as) ++ r) := by
  cases as with
  | nil => exact hr
  | cons a as =>
    obtain ⟨ha, -⟩ := List.forall_mem_cons.mp has
    rw [printAttributes, Attr.print, Text.bytesOf_append, Text.bytesOf_append, List.append_assoc,
      List.append_assoc]
    exact stops_space ha.space hf fun hempty => absurd hempty ha.spaced

/-! ## Tags -/

theorem passes_tag {t : Tag} {close : String} (spaced : Bool) (hp : Opened N p) (ht : t.Valid)
    (h : Stands s i (t.print close)) (hclose : ∀ r, Stops Lexer.isSpace (bytesOf close ++ r))
    (hname : ∀ r, Stops Lexer.isName (bytesOf close ++ r)) :
    ∃ spaced', ∃ m ≤ t.closeAt i, Passes s (cursor .content i spaced) { nodes := N, current := p }
      (cursor .inTag (t.closeAt i) spaced')
      (.inside (N.modify p (Builder.withChild N.size)) (nodeOf p i m (.element (t.opened i N.size)))
        (t.attributeNodes i N.size)) := by
  obtain ⟨r1, hr1⟩ := h.rest_append
  obtain ⟨r2, hr2⟩ := h.right.rest_append
  obtain ⟨r3, hr3⟩ := h.right.right.right.rest_append
  have hbehind : Stops Lexer.isName (bytesOf (printAttributes t.attributes ++ (t.space ++ close)) ++ r2) := by
    rw [Text.bytesOf_append, Text.bytesOf_append, List.append_assoc, List.append_assoc]
    exact stops_attributes ht.attributes isName_of_isSpace
      (stops_space ht.space isName_of_isSpace fun _ => hname r2)
  have hsize : (N.modify p (Builder.withChild N.size)).size = N.size := Array.size_modify
  let own (ids : Array Nat) : Kind := .element
    { tag := some t.name, tagSpan := some ⟨i + size "<", i + size "<" + size t.name⟩
      startOpen := some i, attributes := ids }
  have hopen : Passes s (cursor .content i spaced) { nodes := N, current := p }
      (cursor .afterStartTagOpen (i + size "<") spaced)
      (.inside (N.modify p (Builder.withChild N.size))
        (nodeOf p i (i + size "<") (.element { startOpen := some i })) #[]) :=
    passes_open hp (by decide)
      (Lexer.lex_startTagOpen (by rw [hr1, Text.bytesOf_append, List.append_assoc]) ht.name)
      (by decide) Builder.step_startTagOpen
  have hnamed : Passes s (cursor .afterStartTagOpen (i + size "<") spaced)
      (.inside (N.modify p (Builder.withChild N.size))
        (nodeOf p i (i + size "<") (.element { startOpen := some i })) #[])
      (cursor .inTag (i + size "<" + size t.name) false)
      (.inside (N.modify p (Builder.withChild N.size))
        (nodeOf p i (i + size "<" + size t.name) (own #[])) #[]) := by
    refine passes_update (Lexer.lex_startTagName hr2 ht.name hbehind) (by decide)
      (Nat.lt_add_of_pos_right (Text.size_pos (Lexer.ne_empty_of_isName ht.name))) (Nat.le_refl _) ?_
    rw [Builder.step_startTagName Builder.kindOf_inside, h.right.left.slice]
    rfl
  obtain ⟨spaced1, hattributes⟩ := passes_attributes false false own #[] (i := i) (p := p)
    (A := N.modify p (Builder.withChild N.size)) (B := #[]) (fun _ _ => rfl) ht.attributes
    h.right.right.left
  obtain ⟨spaced2, hspace⟩ := passes_tagSpace false spaced1 hr3 ht.space (hclose r3)
  rw [hsize, Array.empty_append, Array.empty_append] at hattributes
  exact ⟨spaced2, _, Nat.le_add_right .., hopen.trans (hnamed.trans (hattributes.trans (hspace _)))⟩

theorem size_print_tag (t : Tag) (close : String) : i + size (t.print close) = t.closeAt i + size close := by
  simp only [Tag.print, Tag.closeAt, Text.size_append]
  omega

theorem stands_close {t : Tag} {close : String} (h : Stands s i (t.print close)) :
    Stands s (t.closeAt i) close := h.right.right.right.right

theorem reads_empty {t : Tag} (hp : Opened N p) (ht : t.Valid) (h : Stands s i (t.print "/>")) :
    Reads s p i (i + size (t.print "/>")) N (adopt N p #[N.size] ((Leaf.empty t).nodes i N.size p)) := by
  intro spaced
  obtain ⟨spaced', m, hm, htag⟩ := passes_tag spaced hp ht h
    (by rintro r b ⟨⟩; rfl) (by rintro r b ⟨⟩; rfl)
  obtain ⟨_, hclose⟩ := (stands_close h).rest
  refine ⟨spaced', htag.trans ?_⟩
  rw [Leaf.nodes, Leaf.print, size_print_tag]
  refine passes_close (Lexer.lex_startTagSelfClose hclose) (by decide)
    (Nat.lt_add_of_pos_right (by decide)) hm rfl ?_
  rw [Builder.step_startTagSelfClose Builder.kindOf_inside]
  rfl

theorem passes_startTag {t : Tag} (spaced : Bool) (hp : Opened N p) (ht : t.Valid) (h : Stands s i (t.print ">")) :
    ∃ spaced', Passes s (cursor .content i spaced) { nodes := N, current := p }
      (cursor .content (i + size (t.print ">")) spaced')
      (.inside (N.modify p (Builder.withChild N.size))
        (nodeOf p i (i + size (t.print ">"))
          (.element { t.opened i N.size with startClose := some (t.closeAt i) }))
        (t.attributeNodes i N.size)) := by
  obtain ⟨spaced', m, hm, htag⟩ := passes_tag spaced hp ht h
    (by rintro r b ⟨⟩; rfl) (by rintro r b ⟨⟩; rfl)
  obtain ⟨_, hclose⟩ := (stands_close h).rest
  refine ⟨spaced', htag.trans ?_⟩
  rw [size_print_tag]
  refine passes_update (Lexer.lex_startTagClose hclose) (by decide)
    (Nat.lt_add_of_pos_right (by decide)) hm ?_
  rw [Builder.step_startTagClose Builder.kindOf_inside]
  rfl

theorem passes_endTag {t : Tag} {space : String} {e : Element} (spaced : Bool) (ids : Array Nat)
    (h : Stands s j (t.printEnd space)) (ht : isName t.name) (hspace : isSpace space) (hm : m ≤ j)
    (htag : e.tag = some t.name) (hopen : e.closed = false) :
    ∃ spaced', Passes s (cursor .content j spaced)
      (.inside A { span := ⟨i, m⟩, parent := some p, children := ids, kind := .element e } B)
      (cursor .content (j + size (t.printEnd space)) spaced')
      { nodes := A ++ #[{
            span := ⟨i, j + size (t.printEnd space)⟩
            parent := some p
            children := ids
            kind := .element { e with
              closed := true
              endOpen := some j
              endTagSpan := some ⟨j + size "</", j + size "</" + size t.name⟩
              endClose := some (j + size "</" + size t.name + size space) } }] ++ B
        current := p } := by
  obtain ⟨_, hr1⟩ := h.left.rest
  obtain ⟨r2, hr2⟩ := h.right.rest_append
  obtain ⟨r3, hr3⟩ := h.right.right.rest_append
  obtain ⟨_, hr4⟩ := h.right.right.right.rest
  have hname : Stops Lexer.isName (bytesOf (space ++ ">") ++ r2) := by
    rw [Text.bytesOf_append, List.append_assoc]
    refine stops_space hspace isName_of_isSpace fun _ => ?_
    rintro b ⟨⟩
    rfl
  have hsize : j + size (t.printEnd space) = j + size "</" + size t.name + size space + size ">" := by
    simp only [Tag.printEnd, Text.size_append]
    omega
  let node (k : Element) (stop : Nat) : Node :=
    { span := ⟨i, stop⟩, parent := some p, children := ids, kind := .element k }
  let closing : Element := { e with
    closed := true, endOpen := some j
    endTagSpan := some ⟨j + size "</", j + size "</" + size t.name⟩ }
  have h1 : Passes s (cursor .content j spaced) (.inside A (node e m) B)
      (cursor .afterEndTagOpen (j + size "</") spaced)
      { nodes := A ++ #[node e m] ++ B, current := A.size, endTagOpen := some j } := by
    have hkind : ((Builder.inside A (node e m) B).kindOf A.size).isClosedElement = false := by
      rw [Builder.kindOf_inside]
      exact hopen
    refine .of_lex (Lexer.lex_endTagOpen hr1) (by decide) (Nat.lt_add_of_pos_right (by decide)) ?_
    rw [Builder.step_endTagOpen, Lexer.inDtd_cursor, Builder.inside, Builder.beforeMarkup_of_open hkind]
  have h2 : Passes s (cursor .afterEndTagOpen (j + size "</") spaced)
      { nodes := A ++ #[node e m] ++ B, current := A.size, endTagOpen := some j }
      (cursor .inEndTag (j + size "</" + size t.name) spaced)
      (.inside A (node closing (j + size "</" + size t.name)) B) := by
    refine .of_lex (Lexer.lex_endTagName hr2 ht hname) (by decide)
      (Nat.lt_add_of_pos_right (Text.size_pos (Lexer.ne_empty_of_isName ht))) ?_
    rw [Builder.step_endTagName, Builder.endTag_inside rfl hopen (by rw [htag, h.right.left.slice]),
      extendTo_of_le (show m ≤ j + size "</" + size t.name by omega)]
  have h3 : Passes s (cursor .inEndTag (j + size "</" + size t.name) spaced)
      (.inside A (node closing (j + size "</" + size t.name)) B)
      (cursor .inEndTag (j + size "</" + size t.name + size space) spaced)
      (.inside A (node closing (j + size "</" + size t.name)) B) :=
    passes_space fun hne => Lexer.lex_endTagSpace hr3 hspace hne (by rintro b ⟨⟩; rfl)
  have h4 : Passes s (cursor .inEndTag (j + size "</" + size t.name + size space) spaced)
      (.inside A (node closing (j + size "</" + size t.name)) B)
      (cursor .content (j + size "</" + size t.name + size space + size ">") spaced)
      { nodes := A ++ #[node { closing with
            endClose := some (j + size "</" + size t.name + size space) }
          (j + size "</" + size t.name + size space + size ">")] ++ B
        current := p } := by
    refine .of_lex (Lexer.lex_endTagClose hr4) (by decide) (Nat.lt_add_of_pos_right (by decide)) ?_
    rw [Builder.step_endTagClose Builder.kindOf_inside rfl rfl rfl, Builder.current_inside,
      Builder.update_inside, extendTo_of_le (show j + size "</" + size t.name ≤
        j + size "</" + size t.name + size space + size ">" by omega), Builder.leave_inside rfl]
  rw [hsize]
  exact ⟨spaced, h1.trans (h2.trans (h3.trans h4))⟩

end XmlAssist.Written

import Mathlib.Data.List.Forall2
import XmlAssist.Proofs.Dtd.Scan
import XmlAssist.Proofs.Text.Split
import XmlAssist.Tree.Node

/-!
# Declarations that say what is written

`Declaration.Body.Shows` compares the body of a declaration with a written one, parameter by
parameter. The values of an enumeration are those that are written: no name contains a parenthesis
or a bar, and trimming a value leaves its name.
-/

namespace XmlAssist

open Written (Name Gap Space Literal Contents Choice AttType AttDef External EntityContent DeclBody Decl)

/-- The literal is a parameter, in its quotes and without them; or both are missing. -/
def Parameter.Quotes {stops : List UInt8} (p : Option Parameter) (l : Option (Literal stops)) : Prop :=
  p.map (·.text) = l.map (·.print) ∧ p.map (·.inner) = l.map (·.text)

/-- The attribute is defined as it is written. -/
structure AttributeDef.Shows (d : AttributeDef) (w : AttDef) : Prop where
  name : d.name.map (·.text) = some w.name.text
  type : d.type.map (·.text) = some w.type.print
  value : d.value.map (·.text) = some w.default.print
  enumeration : d.enumeration = w.type.values

/-- The identifiers are those that are written, if any are. -/
structure ExternalId.Shows (x : ExternalId) (w : Option External) : Prop where
  keyword : x.keyword.map (·.text) = w.map (·.keyword)
  publicId : Parameter.Quotes x.publicId (w.bind (·.publicId?))
  systemId : Parameter.Quotes x.systemId (w.bind (·.systemId?))

namespace Declaration

structure ElementBody.Shows (b : ElementBody) (name : Name) (contents : Contents) : Prop where
  name : b.name.map (·.text) = some name.text
  category : b.category.map (·.text) = contents.category?
  content : b.content.map (·.text) = contents.content?

structure AttlistBody.Shows (b : AttlistBody) (element : Name) (definitions : List AttDef) : Prop where
  element : b.element.map (·.text) = some element.text
  definitions : List.Forall₂ AttributeDef.Shows b.definitions definitions

structure EntityBody.Shows (b : EntityBody) (percent : Option Gap) (name : Name)
    (content : EntityContent) : Prop where
  percent : b.percent.map (·.text) = percent.map fun _ => "%"
  name : b.name.map (·.text) = some name.text
  value : Parameter.Quotes b.value content.value?
  external : b.external.Shows content.external?

structure NotationBody.Shows (b : NotationBody) (name : Name) (ids : External) : Prop where
  name : b.name.map (·.text) = some name.text
  external : b.external.Shows (some ids)

/-- The body is that of the written declaration. -/
inductive Body.Shows : Body → DeclBody → Prop where
  | element {b name gap contents} (h : ElementBody.Shows b name contents) :
      Body.Shows (.element b) (.element name gap contents)
  | attlist {b element definitions} (h : AttlistBody.Shows b element definitions) :
      Body.Shows (.attlist b) (.attlist element definitions)
  | entity {b percent name gap content} (h : EntityBody.Shows b percent name content) :
      Body.Shows (.entity b) (.entity percent name gap content)
  | notationDecl {b name gap ids} (h : NotationBody.Shows b name ids) :
      Body.Shows (.notationDecl b) (.notationDecl name gap ids)

end Declaration

/-- The declaration is the written one, closed and with nothing in it that fits nowhere. -/
structure Declaration.Shows (d : Declaration) (w : Decl) : Prop where
  body : d.body.Shows w.body
  closed : d.closed = true
  unrecognized : d.unrecognized = none

/-- The node under `parent` is the written declaration, and it covers its markup in `s`. -/
structure Node.ShowsDecl (s : String) (parent : Nat) (n : Node) (w : Decl) : Prop where
  kind : ∃ d, n.kind = .declaration d ∧ d.Shows w
  parent : n.parent = some parent
  source : Text.slice s n.span.start n.span.stop = w.markup
  children : n.children = #[]

/-! ## Literals -/

theorem Parameter.quotes_none {stops : List UInt8} :
    Parameter.Quotes none (none : Option (Literal stops)) := ⟨rfl, rfl⟩

theorem Parameter.quotes_some {stops : List UInt8} (p : Parameter) (l : Literal stops)
    (h : p.text = l.print) : Parameter.Quotes (some p) (some l) := by
  obtain ⟨c, hc⟩ : ∃ c, l.quote.print.toList = [c] := by cases l.quote <;> exact ⟨_, rfl⟩
  have hinner : p.inner = l.text := by
    rw [Parameter.inner, h, Text.inner, Literal.print, String.toList_append, String.toList_append, hc]
    show String.ofList (l.text.toList ++ [c]).dropLast = _
    rw [List.dropLast_concat, String.ofList_toList]
  exact ⟨congrArg some h, congrArg some hinner⟩

/-! ## Enumerations -/

namespace Text

theorem pieces_of_not_mem {sep : Char} {cs : List Char} (h : sep ∉ cs) : pieces sep cs = [cs] := by
  induction cs with
  | nil => rfl
  | cons c cs ih =>
    rw [List.mem_cons, not_or] at h
    rw [pieces, if_neg (Ne.symm h.1), ih h.2]

theorem pieces_append {sep : Char} {cs ds : List Char} (h : sep ∉ cs) :
    pieces sep (cs ++ sep :: ds) = cs :: pieces sep ds := by
  induction cs with
  | nil => exact if_pos rfl
  | cons c cs ih =>
    rw [List.mem_cons, not_or] at h
    rw [List.cons_append, pieces, if_neg (Ne.symm h.1), ih h.2]

theorem dropWhile_eq_self {p : Char → Bool} {cs : List Char} (h : ∀ c ∈ cs.head?, p c = false) :
    cs.dropWhile p = cs := by
  cases cs with
  | nil => rfl
  | cons c cs => exact List.dropWhile_cons_of_neg (by simp [h c rfl])

theorem trimList_append {p : Char → Bool} {before cs behind : List Char} (hne : cs ≠ [])
    (hbefore : ∀ c ∈ before, p c = true) (hcs : ∀ c ∈ cs, p c = false)
    (hbehind : ∀ c ∈ behind, p c = true) : trimList p (before ++ (cs ++ behind)) = cs := by
  have hstart : (cs ++ behind).dropWhile p = cs ++ behind := by
    refine dropWhile_eq_self fun c hc => ?_
    rw [List.head?_append_of_ne_nil _ hne] at hc
    exact hcs c (List.mem_of_mem_head? hc)
  have hend : cs.reverse.dropWhile p = cs.reverse :=
    dropWhile_eq_self fun c hc => hcs c (List.mem_reverse.mp (List.mem_of_mem_head? hc))
  rw [trimList, List.dropWhile_append_of_pos hbefore, hstart, List.reverse_append,
    List.dropWhile_append_of_pos (by simpa using hbehind), hend, List.reverse_reverse]

end Text

namespace Written

variable {c : Char}

/-- An ASCII character that is neither white space of markup nor part of a name. -/
def isPunctuation (c : Char) : Bool :=
  let b := UInt8.ofNat c.toNat
  decide (c.toNat < 128) && !Lexer.isSpace b && !Lexer.isName b

theorem not_mem_name (hc : isPunctuation c) (n : Name) : c ∉ n.text.toList := by
  simp only [isPunctuation, Bool.and_eq_true, Bool.not_eq_true', decide_eq_true_eq] at hc
  refine Text.not_mem_toList hc.1.1 fun hb => ?_
  rw [Lexer.isName_of_mem n.valid _ hb] at hc
  cases hc.2

theorem not_mem_space (hc : isPunctuation c) (w : Space) : c ∉ w.text.toList := by
  simp only [isPunctuation, Bool.and_eq_true, Bool.not_eq_true', decide_eq_true_eq] at hc
  refine Text.not_mem_toList hc.1.1 fun hb => ?_
  rw [Lexer.isSpace_of_mem w _ hb] at hc
  cases hc.1.2

theorem not_mem_choice (hc : isPunctuation c) (x : Choice) : c ∉ x.print.toList := by
  rw [Choice.print, String.toList_append, String.toList_append, List.mem_append, List.mem_append]
  rintro (h | h | h)
  · exact not_mem_space hc _ h
  · exact not_mem_name hc _ h
  · exact not_mem_space hc _ h

theorem lt_and_isSpace_of_mem (w : Space) (hc : c ∈ w.text.toList) :
    c.toNat < 128 ∧ Lexer.isSpace (UInt8.ofNat c.toNat) = true := by
  have hbytes : ∀ b ∈ String.utf8EncodeChar c, Lexer.isSpace b = true :=
    fun b hb => Lexer.isSpace_of_mem w b (Text.mem_bytesOf_of_mem hc hb)
  have hlt : c.toNat < 128 :=
    Text.lt_of_utf8EncodeChar fun b hb => Lexer.lt_of_isSpace b (hbytes b hb)
  rw [Text.utf8EncodeChar_of_lt hlt, List.forall_mem_singleton] at hbytes
  exact ⟨hlt, hbytes⟩

theorem isBlank_of_mem (w : Space) (hc : c ∈ w.text.toList) : Text.isBlank c = true := by
  obtain ⟨hlt, hspace⟩ := lt_and_isSpace_of_mem w hc
  have hblank : ∀ n < 128, Lexer.isSpace (UInt8.ofNat n) = true →
      ((9 ≤ n && n ≤ 13) || n == 0x20) = true := by decide +kernel
  simp only [Text.isBlank, hblank c.toNat hlt hspace, Bool.true_or]

theorem name_ne_nil (n : Name) : n.text.toList ≠ [] := by
  intro h
  exact Lexer.ne_empty_of_isName n.valid (String.toList_eq_nil_iff.mp h)

theorem trim_choice (x : Choice) : Text.trim x.print = x.name.text := by
  have hvisible : ∀ c ∈ x.name.text.toList, Text.isBlank c = false := by
    simpa using x.visible
  rw [Text.trim, Choice.print, String.toList_append, String.toList_append,
    Text.trimList_append (name_ne_nil x.name) (fun _ => isBlank_of_mem x.before) hvisible
      (fun _ => isBlank_of_mem x.behind), String.ofList_toList]

theorem values_choices (cs : List Choice) :
    ((Text.pieces '|' (printChoices cs).toList).map fun piece => Text.trim (String.ofList piece)).filter
      (· ≠ "") = cs.map (·.name.text) := by
  have hbar : isPunctuation '|' := by decide
  have hname (x : Choice) : decide (x.name.text ≠ "") = true :=
    decide_eq_true (Lexer.ne_empty_of_isName x.name.valid)
  fun_induction printChoices cs with
  | case1 => rfl
  | case2 x =>
    rw [Text.pieces_of_not_mem (not_mem_choice hbar x)]
    simp only [List.map_cons, List.map_nil, String.ofList_toList, trim_choice, List.filter_cons, hname,
      if_true, List.filter_nil]
  | case3 x y cs ih =>
    rw [String.toList_append, String.toList_append]
    show List.filter _ (List.map _ (Text.pieces '|'
      (x.print.toList ++ '|' :: (printChoices (y :: cs)).toList))) = _
    rw [Text.pieces_append (not_mem_choice hbar x), List.map_cons, List.filter_cons,
      String.ofList_toList, trim_choice, hname, if_pos rfl, ih]
    rfl

theorem not_mem_choices {cs : List Choice} (hc : isPunctuation c) (hbar : c ≠ '|') :
    c ∉ (printChoices cs).toList := by
  fun_induction printChoices cs with
  | case1 => simp
  | case2 x => exact not_mem_choice hc x
  | case3 x y cs ih =>
    rw [String.toList_append, String.toList_append, List.mem_append, List.mem_append]
    rintro (h | h | h)
    · exact not_mem_choice hc x h
    · exact hbar (List.mem_singleton.mp h)
    · exact ih h

theorem enumeration_group {d : AttributeDef} {p : Parameter} (before : String) {cs : List Choice}
    (hd : d.type = some p) (hp : p.text = before ++ printGroup cs) (hbefore : '(' ∉ before.toList) :
    d.enumeration = cs.map (·.name.text) := by
  have hclose : (((printChoices cs).toList ++ [')']).reverse.dropWhile (· == ')')).reverse =
      (printChoices cs).toList := by
    rw [List.reverse_concat, List.dropWhile_cons_of_pos (by rfl), Text.dropWhile_eq_self,
      List.reverse_reverse]
    intro c hc
    have hmem := List.mem_reverse.mp (List.mem_of_mem_head? hc)
    refine beq_eq_false_iff_ne.mpr ?_
    rintro rfl
    exact not_mem_choices (by decide) (by decide) hmem
  have htext : p.text.toList = before.toList ++ '(' :: ((printChoices cs).toList ++ [')']) := by
    rw [hp, printGroup, String.toList_append, String.toList_append, String.toList_append]
    rfl
  simp only [AttributeDef.enumeration, hd, htext, Text.splitAtFirst_append hbefore, hclose]
  exact values_choices cs

theorem enumeration_eq {d : AttributeDef} {p : Parameter} (t : AttType) (hd : d.type = some p)
    (hp : p.text = t.print) : d.enumeration = t.values := by
  cases t with
  | name n =>
    have hnone : Text.splitAtFirst '(' n.text.toList = none :=
      Text.splitAtFirst_eq_none (not_mem_name (by decide) n)
    have htext : p.text = n.text := hp
    simp only [AttributeDef.enumeration, hd, htext, hnone]
    rfl
  | enumeration cs =>
    exact enumeration_group "" hd (hp.trans (String.empty_append).symm) (by decide)
  | notations g cs =>
    refine enumeration_group ("NOTATION" ++ g.text) hd ?_ ?_
    · rw [hp, AttType.print, String.append_assoc]
    · rw [String.toList_append, List.mem_append]
      rintro (h | h)
      · exact absurd h (by decide)
      · exact not_mem_space (by decide) _ h

end Written

end XmlAssist

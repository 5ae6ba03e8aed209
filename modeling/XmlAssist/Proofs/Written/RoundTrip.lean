import XmlAssist.Diagnostics.Syntax
import XmlAssist.Proofs.Written.Shows

/-!
# Reading what was written

The document that is read from a written one shows it, and nothing is wrong with its syntax.
-/

namespace XmlAssist

open Written (Attr Tag Leaf Forest Prolog)

/-! ## Problems of elements -/

namespace Diagnostics

variable {d : Document} {id i parent : Nat} {ids : List Nat}

theorem incomplete_eq_nil {a : Attr} {x : Attribute} (h : x.Shows a) (tag : String) (id : Nat) :
    incomplete d tag id x = [] := by
  have hquoted : x.isQuoted = true := by
    rw [Attribute.isQuoted, h.written]
    exact Written.startsWithQuote_quoted a
  rw [incomplete, h.hasDelimiter, hquoted]
  rfl

theorem ofAttributes_eq_nil {as : List Attr} {xs : List (Nat × Attribute)} {tag : String}
    {seen : List Attribute} (h : d.ShowsAttributes id i as xs) (hnodup : (as.map (·.name)).Nodup)
    (hseen : ∀ y ∈ seen, ∀ a ∈ as, y.name ≠ a.name) : ofAttributes d tag seen xs = [] := by
  induction h generalizing seen with
  | nil => rfl
  | @cons i id a as x xs covers shows children others ih =>
    rw [List.map_cons, List.nodup_cons] at hnodup
    have hnew : seen.find? (·.name == x.name) = none := by
      rw [List.find?_eq_none]
      intro y hy
      simpa [shows.name] using hseen y hy a List.mem_cons_self
    have hrest : ofAttributes d tag (seen ++ [x]) xs = [] := by
      refine ih hnodup.2 fun y hy b hb => ?_
      rcases List.mem_append.mp hy with hy | hy
      · exact hseen y hy b (List.mem_cons_of_mem _ hb)
      · rw [List.mem_singleton.mp hy, shows.name]
        exact fun heq => hnodup.1 (heq ▸ List.mem_map_of_mem hb)
    simp only [ofAttributes, hnew, incomplete_eq_nil shows, hrest, List.append_nil]

theorem ofElement_eq_nil {t : Tag} {e : Element} (h : d.ShowsTag id i t e) (ht : t.Distinct)
    (hclosed : e.selfClosed = true ∨ e.hasEndTag = true) : ofElement d id e = [] := by
  have hattributes : ofAttributes d t.name [] (d.attributes id) = [] :=
    ofAttributes_eq_nil h.attributes ht (by simp)
  have hnot : (!e.selfClosed && !e.hasEndTag) = false := by
    rcases hclosed with hclosed | hclosed <;> simp [hclosed]
  simp only [ofElement, h.tag, h.startTag.1, if_true, hnot, Bool.false_eq_true, if_false, hattributes,
    List.append_nil]

/-- No element from a node inwards has a problem. -/
def Clean (d : Document) (id : Nat) : Prop :=
  ∀ c ∈ d.descendants id, ∀ e, d.element? c = some e → ofElement d c e = []

theorem clean_of_children (hid : ∀ e, d.element? id = some e → ofElement d id e = [])
    (h : ∀ c ∈ d.children id, Clean d c) : Clean d id := by
  intro c hc
  rw [Document.descendants, List.mem_cons, List.mem_flatMap] at hc
  rcases hc with rfl | ⟨child, hchild, hc⟩
  · exact hid
  · split at hc
    · exact h child hchild c hc
    · cases hc

theorem clean_forest {f : Forest} (h : d.ShowsForest parent i f ids) (hf : f.Distinct) :
    ∀ c ∈ ids, Clean d c := by
  induction h with
  | nil => simp
  | leaf covers shows children next ih =>
    obtain ⟨hpiece, hothers⟩ := hf
    refine List.forall_mem_cons.mpr ⟨clean_of_children (fun e he => ?_) (by simp [children]), ih hothers⟩
    rcases shows.element_or with ⟨tag, e', rfl, htag, hself⟩ | ⟨hnone, -⟩
    · cases htag.element?.symm.trans he
      exact ofElement_eq_nil htag hpiece (.inl hself)
    · cases hnone.symm.trans he
  | element covers shows selfClosed endTag inside next ihinside ih =>
    obtain ⟨htag, hcontent, hothers⟩ := hf
    refine List.forall_mem_cons.mpr ⟨clean_of_children (fun e he => ?_) (ihinside hcontent), ih hothers⟩
    cases shows.element?.symm.trans he
    exact ofElement_eq_nil shows htag (.inr endTag.1)

theorem isDoctype_forest {f : Forest} (h : d.ShowsForest parent i f ids) :
    ∀ c ∈ ids, (d.node c).doctype? = none := by
  induction h with
  | nil => simp
  | leaf covers shows children next ih =>
    refine List.forall_mem_cons.mpr ⟨?_, ih⟩
    rcases shows.element_or with ⟨tag, e, -, htag, -⟩ | ⟨-, hnone⟩
    · rw [Node.doctype?, htag.kind]
    · exact hnone
  | element covers shows selfClosed endTag inside next ihinside ih =>
    exact List.forall_mem_cons.mpr ⟨by rw [Node.doctype?, shows.kind], ih⟩

/-! ## Problems of a document -/

theorem forall_children {w : Written} {P : Nat → Prop} (h : d.Shows w)
    (hprolog : ∀ id p, d.ShowsProlog id p → P id)
    (hforest : ∀ i ids, d.ShowsForest 0 i w.forest ids → ∀ c ∈ ids, P c) :
    ∀ c ∈ d.children 0, P c := by
  obtain ⟨prolog, forest⟩ := w
  have hchildren := h.children
  cases prolog with
  | none => exact hforest 0 _ hchildren
  | some p =>
    obtain ⟨id, ids, hids, hp, hrest⟩ := hchildren
    rw [hids]
    exact List.forall_mem_cons.mpr ⟨hprolog id p hp, hforest _ ids hrest⟩

theorem clean_prolog {p : Prolog} (h : d.ShowsProlog id p) : Clean d id := by
  obtain ⟨x, hkind, -⟩ := h.kind
  refine clean_of_children (fun e he => ?_) (by simp [h.children])
  rw [Document.element?, Node.element?, hkind] at he
  cases he

theorem ofElements_eq_nil {w : Written} (h : d.Shows w) (hw : w.forest.Distinct) :
    ofElements d = [] := by
  have hclean : Clean d 0 := by
    refine clean_of_children (fun e he => ?_)
      (forall_children h (fun _ _ hp => clean_prolog hp) fun _ _ hf => clean_forest hf hw)
    rw [Document.element?, Node.element?, h.kind] at he
    cases he
  rw [ofElements, List.flatMap_eq_nil_iff]
  intro id hid
  have hdescendant := (List.mem_filter.mp hid).1
  cases he : d.element? id with
  | none => rfl
  | some e => exact hclean id hdescendant e he

theorem ofDoctype_eq_nil {w : Written} (h : d.Shows w) (settings : Settings) :
    ofDoctype d settings = [] := by
  have hnone : d.doctype? = none := by
    rw [Document.doctype?, List.find?_eq_none]
    intro c hc
    have hdoctype := forall_children (P := fun c => (d.node c).doctype? = none) h
      (fun id p hp => by
        obtain ⟨x, hkind, -⟩ := hp.kind
        rw [Node.doctype?, hkind])
      (fun _ _ hf => isDoctype_forest hf) c hc
    rw [Node.isDoctype, hdoctype]
    exact Bool.false_ne_true
  rw [ofDoctype, hnone]
  split <;> rfl

theorem ofTokens_eq_nil (h : ∀ t ∈ d.lexer.tokens d.text, t.1.fault = none) : ofTokens d = [] := by
  rw [ofTokens, List.flatMap_eq_nil_iff]
  intro t ht
  simp only [h t ht]

end Diagnostics

namespace Document

/-- **Reading what was written**: the document shows it, no token of it has a fault, and if no
element has two attributes of one name, nothing is wrong with its syntax. -/
theorem parse_written (w : Written) (uri : String) (hw : w.Valid) (huri : isDtdUri uri = false) :
    (parse w.print uri).Shows w ∧
      (∀ t ∈ Lexer.document.tokens w.print, t.1.fault = none) ∧
      (w.forest.Distinct → ∀ settings, Diagnostics.ofSyntax (parse w.print uri) settings = []) := by
  obtain ⟨hnodes, hfault⟩ := Written.build_written hw
  have hshows : (parse w.print uri).Shows w :=
    shows_of_nodes rfl (by rw [parse, huri, hnodes])
  have hlexer : (parse w.print uri).lexer = .document := by
    rw [lexer, show (parse w.print uri).isDtd = false from huri, if_neg Bool.false_ne_true]
  refine ⟨hshows, hfault, fun hdistinct settings => ?_⟩
  rw [Diagnostics.ofSyntax, Diagnostics.ofTokens_eq_nil (by rwa [hlexer]),
    Diagnostics.ofDoctype_eq_nil hshows, Diagnostics.ofElements_eq_nil hshows hdistinct]
  rfl

/-- A document with a declaration, an element and an empty one in it, text and a comment. -/
def note : Written where
  prolog := some { attributes := [⟨" ", "version", .double, "1.0"⟩] }
  forest := .leaf (.text "\n") (.element ⟨"note", [⟨" ", "to", .single, "\"you\""⟩], ""⟩
    (.leaf (.empty ⟨"b", [], " "⟩) (.leaf (.text "a > b") (.leaf (.comment "-") .nil))) " " .nil)

theorem parse_note : note.Valid ∧ (parse note.print "file:///note.xml").Shows note ∧
    (∀ t ∈ Lexer.document.tokens note.print, t.1.fault = none) ∧
    ∀ settings, Diagnostics.ofSyntax (parse note.print "file:///note.xml") settings = [] := by
  have hvalid : note.Valid := by
    refine ⟨by decide, by decide, by decide, ?_⟩
    rintro ⟨⟩
  have hdistinct : note.forest.Distinct := by decide
  obtain ⟨hshows, hfault, hproblems⟩ := parse_written note "file:///note.xml" hvalid (by decide +kernel)
  exact ⟨hvalid, hshows, hfault, hproblems hdistinct⟩

end Document

end XmlAssist

import XmlAssist.Proofs.Tree.Equality
import XmlAssist.Proofs.Written.Shows

/-!
# What is written, without its layout

The content of a written document (`Forest.content`) is what is left of it without its layout: the
white space in tags, the quotes around values and the choice between `<a/>` and `<a></a>`. Two
documents that are read from written ones are equal in structure exactly if they have the same
content, provided that they print the same instruction in the same way
(`structurallyEqual_decides`).
-/

namespace XmlAssist

namespace Written

/-- What a forest says: elements with the names and the values of their attributes, and pieces of
text, comments, CDATA sections and instructions. -/
inductive Content where
  | nil
  | text (content : String) (others : Content)
  | comment (content : String) (others : Content)
  | cdata (content : String) (others : Content)
  | instruction (target content : String) (others : Content)
  | element (name : String) (attributes : List (String × String)) (inside others : Content)
deriving DecidableEq, Repr, Inhabited

/-- The names and the values of the attributes of a tag. -/
def Tag.pairs (t : Tag) : List (String × String) := t.attributes.map fun a => (a.name, a.value)

/-- What is written, without its layout. -/
def Forest.content : Forest → Content
  | .nil => .nil
  | .leaf (.text content) others => .text content others.content
  | .leaf (.comment content) others => .comment content others.content
  | .leaf (.cdata content) others => .cdata content others.content
  | .leaf (.instruction target _ content) others => .instruction target content others.content
  | .leaf (.empty tag) others => .element tag.name tag.pairs .nil others.content
  | .element tag inside _ others => .element tag.name tag.pairs inside.content others.content

/-- The white space in an instruction is given by its target and its content. -/
def Leaf.Spaced (space : String → String → String) : Leaf → Prop
  | .instruction target s content => s = space target content
  | _ => True

/-- The white space in all instructions is given by their targets and their contents. -/
def Forest.Spaced (space : String → String → String) : Forest → Prop
  | .nil => True
  | .leaf piece others => piece.Spaced space ∧ others.Spaced space
  | .element _ inside _ others => inside.Spaced space ∧ others.Spaced space

/-- The instructions can be read, with such white space in them. -/
def Content.Clear (space : String → String → String) : Content → Prop
  | .nil => True
  | .text _ others | .comment _ others | .cdata _ others => others.Clear space
  | .instruction target content others =>
    isSpace (space target content) ∧ startsWithSpace content = false ∧ others.Clear space
  | .element _ _ inside others => inside.Clear space ∧ others.Clear space

theorem Forest.clear {f : Forest} {space : String → String → String} (hf : f.Valid) (hs : f.Spaced space) :
    f.content.Clear space := by
  induction f with
  | nil => trivial
  | leaf piece others ih =>
    obtain ⟨hpiece, -, hothers⟩ := hf
    obtain ⟨hspace, hs⟩ := hs
    have hrest := ih hothers hs
    cases piece with
    | instruction target s content =>
      obtain ⟨-, hblank, -, hstart, -⟩ := hpiece
      rw [Leaf.Spaced] at hspace
      exact ⟨hspace ▸ hblank, hstart, hrest⟩
    | empty tag => exact ⟨trivial, hrest⟩
    | _ => exact hrest
  | element tag inside space' others ihinside ih =>
    obtain ⟨-, hinside, -, hothers⟩ := hf
    exact ⟨ihinside hinside hs.1, ih hothers hs.2⟩

/-! ## White space in front -/

theorem takeWhile_isSpace {s c : String} (hs : isSpace s = true) (hc : startsWithSpace c = false) :
    (Text.bytesOf (s ++ c)).takeWhile Lexer.isSpace = Text.bytesOf s := by
  rw [Text.bytesOf_append, List.takeWhile_append_of_pos (by simpa [isSpace] using hs)]
  unfold startsWithSpace at hc
  cases h : Text.bytesOf c with
  | nil => simp
  | cons b bs =>
    rw [h] at hc
    simp [hc]

theorem space_append_inj {s s' c c' : String} (hs : isSpace s = true) (hs' : isSpace s' = true)
    (hc : startsWithSpace c = false) (hc' : startsWithSpace c' = false) (h : s ++ c = s' ++ c') :
    s = s' ∧ c = c' := by
  have hspace : s = s' := by
    apply Text.eq_of_bytesOf_eq
    rw [← takeWhile_isSpace hs hc, h, takeWhile_isSpace hs' hc']
  subst hspace
  exact ⟨rfl, (String.append_right_inj s).mp h⟩

/-! ## The tree of a content -/

open Document (Label Labelled)

/-- The instruction as it is written, with the white space given. -/
def source (space : String → String → String) (target content : String) : String :=
  (Leaf.instruction target (space target content) content).print

/-- The trees of labels that a document with this content has. -/
def Content.labelled (space : String → String → String) : Content → List Labelled
  | .nil => []
  | .text content others => .node (.text (some content)) [] :: others.labelled space
  | .comment content others => .node (.comment (some content)) [] :: others.labelled space
  | .cdata content others => .node (.cdata (some content)) [] :: others.labelled space
  | .instruction target content others =>
    .node (.instruction (some target) (source space target content)) [] :: others.labelled space
  | .element name attributes inside others =>
    .node (.element (some name) (attributes.map fun (name, value) => (name, some value)))
      (inside.labelled space) :: others.labelled space

theorem source_inj {space : String → String → String} {target c c' : String}
    (hs : isSpace (space target c) = true) (hc : startsWithSpace c = false)
    (hs' : isSpace (space target c') = true) (hc' : startsWithSpace c' = false)
    (h : source space target c = source space target c') : c = c' := by
  have hrest := (String.append_right_inj _).mp ((String.append_right_inj _).mp h)
  rw [← String.append_assoc, ← String.append_assoc] at hrest
  exact (space_append_inj hs hs' hc hc' ((String.append_left_inj _).mp hrest)).2

theorem labelled_inj {space : String → String → String} {f g : Content} (hf : f.Clear space)
    (hg : g.Clear space) (h : f.labelled space = g.labelled space) : f = g := by
  induction f generalizing g with
  | nil =>
    cases g with
    | nil => rfl
    | _ => cases h
  | text content others ih =>
    cases g with
    | text content' others' =>
      simp only [Content.labelled, List.cons.injEq, Labelled.node.injEq, Label.text.injEq,
        Option.some.injEq, and_true] at h
      rw [h.1, ih hf (g := others') hg h.2]
    | _ => simp [Content.labelled] at h
  | comment content others ih =>
    cases g with
    | comment content' others' =>
      simp only [Content.labelled, List.cons.injEq, Labelled.node.injEq, Label.comment.injEq,
        Option.some.injEq, and_true] at h
      rw [h.1, ih hf (g := others') hg h.2]
    | _ => simp [Content.labelled] at h
  | cdata content others ih =>
    cases g with
    | cdata content' others' =>
      simp only [Content.labelled, List.cons.injEq, Labelled.node.injEq, Label.cdata.injEq,
        Option.some.injEq, and_true] at h
      rw [h.1, ih hf (g := others') hg h.2]
    | _ => simp [Content.labelled] at h
  | instruction target content others ih =>
    cases g with
    | instruction target' content' others' =>
      simp only [Content.labelled, List.cons.injEq, Labelled.node.injEq, Label.instruction.injEq,
        Option.some.injEq, and_true] at h
      obtain ⟨⟨rfl, hsource⟩, hothers⟩ := h
      obtain ⟨hs, hc, hf⟩ := hf
      obtain ⟨hs', hc', hg⟩ := hg
      rw [source_inj hs hc hs' hc' hsource, ih hf hg hothers]
    | _ => simp [Content.labelled] at h
  | element name attributes inside others ihinside ih =>
    cases g with
    | element name' attributes' inside' others' =>
      simp only [Content.labelled, List.cons.injEq, Labelled.node.injEq, Label.element.injEq,
        Option.some.injEq] at h
      obtain ⟨⟨⟨rfl, hattributes⟩, hinside⟩, hothers⟩ := h
      have hpairs : attributes = attributes' := by
        refine (List.map_inj_right fun x y hxy => ?_).mp hattributes
        simpa [Prod.ext_iff] using hxy
      rw [hpairs, ihinside hf.1 hg.1 hinside, ih hf.2 hg.2 hothers]
    | _ => simp [Content.labelled] at h

end Written

/-! ## Reading -/

namespace Document

open Written (Attr Tag Leaf Forest)

variable {d : Document} {id i parent : Nat} {ids : List Nat}

theorem pairs_of_shows {as : List Attr} {xs : List (Nat × Attribute)} (h : d.ShowsAttributes id i as xs) :
    xs.map (fun (_, x) => (x.name, x.value)) = as.map fun a => (a.name, some a.value) := by
  induction h with
  | nil => rfl
  | cons covers shows children others ih =>
    rw [List.map_cons, List.map_cons, ← ih, ← shows.name, ← shows.value]

theorem label_of_showsTag {t : Tag} {e : Element} (h : d.ShowsTag id i t e) :
    d.label id = .element (some t.name) (t.pairs.map fun (name, value) => (name, some value)) := by
  rw [label, h.kind]
  simp only [h.tag, pairs_of_shows h.attributes, Tag.pairs, List.map_map]
  rfl

theorem labelled_forest (ha : Arena d.nodes) {space : String → String → String} {f : Forest}
    (h : d.ShowsForest parent i f ids) (hs : f.Spaced space) :
    ids.map d.labelled = f.content.labelled space := by
  induction h with
  | nil => rfl
  | @leaf parent i id ids piece others covers shows children next ih =>
    obtain ⟨hspace, hs⟩ := hs
    have hnode : d.labelled id = .node (d.label id) [] := by rw [labelled_eq ha, children, List.map_nil]
    rw [List.map_cons, ih hs, hnode]
    cases piece with
    | text content =>
      rw [label, shows.1, shows.2]
      rfl
    | comment content =>
      obtain ⟨⟨c, hkind⟩, hcontent⟩ := shows
      rw [label, hkind, hcontent]
      rfl
    | cdata content =>
      obtain ⟨⟨c, hkind⟩, hcontent⟩ := shows
      rw [label, hkind, hcontent]
      rfl
    | instruction target s content =>
      obtain ⟨⟨p, hkind, htarget, -⟩, -⟩ := shows
      rw [Leaf.Spaced] at hspace
      rw [label, hkind, Node.name, hkind, covers.source, hspace]
      simp only [htarget]
      rfl
    | empty tag =>
      obtain ⟨e, htag, -⟩ := shows
      rw [label_of_showsTag htag]
      rfl
  | @element parent i id ids tag content s others e covers shows selfClosed endTag inside next ihinside ih =>
    rw [List.map_cons, ih hs.2, labelled_eq ha, ihinside hs.1, label_of_showsTag shows]
    rfl

theorem shows_parse {w : Written} (hw : w.Valid) {uri : String} (huri : isDtdUri uri = false) :
    (parse w.print uri).Shows w := by
  obtain ⟨hnodes, -⟩ := Written.build_written hw
  exact shows_of_nodes rfl (by rw [parse, huri, hnodes])

theorem labelled_written {w : Written} (hw : w.Valid) (hprolog : w.prolog = none) {uri : String}
    (huri : isDtdUri uri = false) {space : String → String → String} (hs : w.forest.Spaced space) :
    (parse w.print uri).labelled 0 =
      .node (.other .document (some "#document")) (w.forest.content.labelled space) := by
  have hshows := shows_parse hw huri
  have hchildren := hshows.children
  rw [hprolog] at hchildren
  rw [labelled_eq (arena_parse _ _), labelled_forest (arena_parse _ _) hchildren hs, label, hshows.kind,
    Node.name, hshows.kind]
  rfl

/-- **Equality in structure decides whether documents say the same**: those that are read from
written ones are equal exactly if the same is left of these without their layout, if they have no
XML declaration and print the same instruction in the same way. And it is an equivalence of all
documents that are read. -/
theorem structurallyEqual_decides :
    (∀ (v w : Written) (uri uri' : String) (space : String → String → String),
      v.Valid → v.prolog = none → v.forest.Spaced space → isDtdUri uri = false →
      w.Valid → w.prolog = none → w.forest.Spaced space → isDtdUri uri' = false →
        ((parse v.print uri).structurallyEqual (parse w.print uri') = true ↔
          v.forest.content = w.forest.content)) ∧
      Equivalence fun x y : String × String =>
        (parse x.1 x.2).structurallyEqual (parse y.1 y.2) = true := by
  refine ⟨?_, equivalence_structurallyEqual⟩
  intro v w uri uri' space hv hvprolog hvs huri hw hwprolog hws huri'
  rw [structurallyEqual_iff (arena_parse _ _) (arena_parse _ _), labelled_written hv hvprolog huri hvs,
    labelled_written hw hwprolog huri' hws, Labelled.node.injEq]
  constructor
  · rintro ⟨-, h⟩
    exact Written.labelled_inj (Forest.clear hv.forest hvs) (Forest.clear hw.forest hws) h
  · intro h
    exact ⟨rfl, congrArg _ h⟩

/-- A document with an instruction, and an empty element with an attribute in another. -/
def terse : Written where
  forest := .leaf (.instruction "go" " " "on") (.element ⟨"a", [], ""⟩
    (.leaf (.empty ⟨"b", [⟨" ", "x", .double, "1"⟩], ""⟩) .nil) "" .nil)

def roomy : Written where
  forest := .leaf (.instruction "go" " " "on") (.element ⟨"a", [], "\n"⟩
    (.element ⟨"b", [⟨"  ", "x", .single, "1"⟩], " "⟩ .nil "" .nil) " " .nil)

theorem structurallyEqual_layouts : terse.Valid ∧ roomy.Valid ∧ terse.print ≠ roomy.print ∧
    (parse terse.print "file:///a.xml").structurallyEqual (parse roomy.print "file:///b.xml") = true := by
  have hterse : terse.Valid := ⟨by decide, by decide, by decide, by decide⟩
  have hroomy : roomy.Valid := ⟨by decide, by decide, by decide, by decide⟩
  refine ⟨hterse, hroomy, by decide, ?_⟩
  refine (structurallyEqual_decides.1 terse roomy _ _ (fun _ _ => " ") hterse rfl ?_ (by decide +kernel)
    hroomy rfl ?_ (by decide +kernel)).mpr (by decide)
  · exact ⟨rfl, ⟨trivial, trivial⟩, trivial⟩
  · exact ⟨rfl, ⟨trivial, trivial⟩, trivial⟩

end Document

end XmlAssist

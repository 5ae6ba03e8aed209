import XmlAssist.Proofs.Written.Tags

/-!
# Reading written documents

By induction on the content of a document, the lexer and the builder pass over all of it and the
builder has exactly the nodes that it stands for.
-/

namespace XmlAssist.Written

open Node
open Lexer (cursor attributeMode Stops)
open Text (Stands rest bytesOf size)

variable {s : String} {i j p : Nat} {N : Array Node}

/-- Markup follows at an offset, or the end of the text. -/
def AtMarkup (s : String) (j : Nat) : Prop := ∀ b ∈ (rest s j).head?, b = 0x3C

theorem AtMarkup.of_stands {lit : String} {cs : List UInt8} (h : Stands s j lit)
    (hlit : bytesOf lit = 0x3C :: cs) : AtMarkup s j := by
  obtain ⟨r, hr⟩ := h.rest
  rw [AtMarkup, hr, hlit]
  rintro b ⟨⟩
  rfl

theorem atMarkup_size (s : String) : AtMarkup s (size s) := by
  rw [AtMarkup, Text.rest_eq_nil (Nat.le_refl _)]
  rintro b ⟨⟩

theorem atMarkup_forest {f : Forest} (h : Stands s j f.print) (hf : f.startsWithText = false)
    (hend : AtMarkup s (j + size f.print)) : AtMarkup s j := by
  cases f with
  | nil => exact hend
  | leaf piece others =>
    cases piece with
    | text content => cases hf
    | comment content => exact .of_stands h.left.left rfl
    | cdata content => exact .of_stands h.left.left rfl
    | instruction target space content => exact .of_stands h.left.left rfl
    | empty tag => exact .of_stands h.left.left rfl
  | element tag content space others => exact .of_stands h.left.left.left rfl

theorem size_print_leaf {piece : Leaf} (hv : piece.Valid) : 0 < size piece.print := by
  cases piece with
  | text content => exact Text.size_pos hv.1
  | comment content => exact Text.size_append .. ▸ Nat.add_pos_left (by decide) _
  | cdata content => exact Text.size_append .. ▸ Nat.add_pos_left (by decide) _
  | instruction target space content => exact Text.size_append .. ▸ Nat.add_pos_left (by decide) _
  | empty tag => exact Text.size_append .. ▸ Nat.add_pos_left (by decide) _

theorem reads_leaf {piece : Leaf} (hp : Opened N p) (hv : piece.Valid) (h : Stands s i piece.print)
    (hnext : piece.isText → AtMarkup s (i + size piece.print))
    (hxml : i = 0 → piece.isProlog = false) :
    Reads s p i (i + size piece.print) N (adopt N p #[N.size] (piece.nodes i N.size p)) := by
  cases piece with
  | text content => exact reads_text hp h hv.1 hv.2 (hnext rfl)
  | comment content => exact reads_comment hp h hv
  | cdata content => exact reads_cdata hp h hv
  | instruction target space content => exact reads_instruction hp h hv hxml
  | empty tag => exact reads_empty hp hv h

theorem adopt_mid {A B : Array Node} {n : Nat} {ids : Array Nat} {ns : Array Node} {k : Kind}
    (hA : A.size = n) : adopt (A ++ #[nodeOf p i j k] ++ B) n ids ns =
      A ++ #[{ nodeOf p i j k with children := ids }] ++ (B ++ ns) := by
  subst hA
  rw [adopt, modify_mid, Array.append_assoc, nodeOf, Array.empty_append]

theorem reads_element {tag : Tag} {content : Forest} {space : String} (hp : Opened N p) (ht : tag.Valid)
    (hspace : isSpace space)
    (h : Stands s i (tag.print ">" ++ (content.print ++ tag.printEnd space)))
    (hcontent : ∀ {N' : Array Node}, N'.size = N.size + (1 + tag.attributes.length) → Opened N' N.size →
      Reads s N.size (i + size (tag.print ">")) (i + size (tag.print ">") + size content.print) N'
        (adopt N' N.size (content.roots N'.size) (content.nodes (i + size (tag.print ">")) N'.size N.size))) :
    Reads s p i (i + size (tag.print ">") + size content.print + size (tag.printEnd space)) N
      (adopt N p #[N.size] ((Forest.element tag content space .nil).nodes i N.size p)) := by
  intro spaced
  obtain ⟨spaced1, hstart⟩ := passes_startTag spaced hp ht h.left
  let start := i + size (tag.print ">")
  let stop := start + size content.print
  let first := N.size + (1 + tag.attributes.length)
  let A := N.modify p (Builder.withChild N.size)
  let B := tag.attributeNodes i N.size
  let e : Element := { tag.opened i N.size with startClose := some (tag.closeAt i) }
  have hA : A.size = N.size := Array.size_modify
  have hsize : (A ++ #[nodeOf p i start (.element e)] ++ B).size = first := by
    have hB : B.size = tag.attributes.length := size_attributeNodes ..
    rw [Array.size_append, Array.size_append, hA, hB, Nat.add_assoc]
    rfl
  have hopened : Opened (A ++ #[nodeOf p i start (.element e)] ++ B) N.size :=
    ⟨_, hA ▸ getElem?_mid A B _, rfl⟩
  obtain ⟨spaced2, hinside⟩ := hcontent hsize hopened spaced1
  rw [hsize, adopt_mid hA] at hinside
  obtain ⟨spaced3, hend⟩ := passes_endTag spaced2 (content.roots first) (A := A) (i := i) (p := p)
    (B := B ++ content.nodes start first N.size) (e := e) h.right.right ht.name hspace
    (Nat.le_add_right start _) rfl rfl
  rw [Builder.inside, hA] at hend hstart
  refine ⟨spaced3, hstart.trans (hinside.trans ?_)⟩
  have hnodes : adopt N p #[N.size] ((Forest.element tag content space .nil).nodes i N.size p) =
      A ++ #[{ span := ⟨i, stop + size (tag.printEnd space)⟩
               parent := some p
               children := content.roots first
               kind := .element (tag.element i N.size stop space) }] ++
        (B ++ content.nodes start first N.size) := by
    simp only [adopt_singleton, Forest.nodes, Array.append_empty, Array.append_assoc]
    rfl
  rw [hnodes]
  exact hend

theorem reads_forest {f : Forest} (hp : Opened N p) (hv : f.Valid) (h : Stands s i f.print)
    (hend : AtMarkup s (i + size f.print)) (hxml : i = 0 → f.startsWithProlog = false) :
    Reads s p i (i + size f.print) N (adopt N p (f.roots N.size) (f.nodes i N.size p)) := by
  induction f generalizing i N p with
  | nil =>
    intro spaced
    refine ⟨spaced, ?_⟩
    rw [Forest.roots, Forest.nodes, adopt_empty]
    exact .refl ..
  | leaf piece others ih =>
    obtain ⟨hpiece, hnext, hothers⟩ := hv
    have hsize : i + size (Forest.leaf piece others).print =
        i + size piece.print + size others.print := by
      rw [Forest.print, Text.size_append, Nat.add_assoc]
    have hpos : 0 < i + size piece.print := Nat.add_pos_right i (size_print_leaf hpiece)
    rw [hsize] at hend ⊢
    have hfirst := reads_leaf hp hpiece h.left
      (fun htext => atMarkup_forest h.right (hnext htext) hend) hxml
    have hrest := ih (hp.adopt #[N.size] (piece.nodes i N.size p)) hothers h.right hend
      (fun hzero => absurd hzero (by omega))
    rw [size_adopt, Leaf.size_nodes, adopt_adopt hp.lt_size] at hrest
    exact hfirst.trans hrest
  | element tag content space others ihcontent ih =>
    obtain ⟨htag, hcontent, hspace, hothers⟩ := hv
    have hsize : i + size (tag.print ">" ++ (content.print ++ tag.printEnd space)) =
        i + size (tag.print ">") + size content.print + size (tag.printEnd space) := by
      simp only [Text.size_append]
      omega
    have hall : i + size (Forest.element tag content space others).print =
        i + size (tag.print ">") + size content.print + size (tag.printEnd space) +
          size others.print := by
      rw [Forest.print, Text.size_append, ← Nat.add_assoc, hsize]
    have hpos : 0 < i + size (tag.print ">") := by
      rw [size_print_tag]
      exact Nat.add_pos_right _ (by decide)
    rw [hall] at hend ⊢
    have hfirst := reads_element hp htag hspace h.left fun _ hopened =>
      ihcontent hopened hcontent h.left.right.left (.of_stands h.left.right.right.left rfl)
        fun hzero => absurd hzero (by omega)
    have hrest := ih (hp.adopt #[N.size] ((Forest.element tag content space .nil).nodes i N.size p))
      hothers (hsize ▸ h.right) hend (fun hzero => absurd hzero (by omega))
    have hnodes : (Forest.element tag content space others).nodes i N.size p =
        (Forest.element tag content space .nil).nodes i N.size p ++
          others.nodes (i + size (tag.print ">") + size content.print + size (tag.printEnd space))
            (N.size + (1 + tag.attributes.length) + content.count) p := by
      simp only [Forest.nodes, Array.append_empty]
    rw [size_adopt, Forest.size_nodes, adopt_adopt hp.lt_size] at hrest
    rw [Forest.roots, hnodes, Nat.add_assoc N.size]
    exact hfirst.trans hrest

theorem reads_prolog {prolog : Prolog} (hN : N.size = 1) (hp : Opened N 0)
    (hattributes : ∀ a ∈ prolog.attributes, a.Valid) (hspace : isSpace prolog.space)
    (h : Stands s 0 prolog.print) :
    Reads s 0 0 (size prolog.print) N (adopt N 0 #[N.size] prolog.nodes) := by
  intro spaced
  obtain ⟨_, hopen⟩ := h.left.rest
  obtain ⟨r2, hr2⟩ := h.right.rest_append
  obtain ⟨r3, hr3⟩ := h.right.right.right.rest_append
  obtain ⟨_, hclose⟩ := h.right.right.right.right.rest
  let A := N.modify 0 (Builder.withChild N.size)
  have hA : A.size = 1 := Array.size_modify.trans hN
  let own (ids : Array Nat) : Kind := .instruction
    { target := some "xml", targetSpan := some ⟨size "<?", size "<?" + size "xml"⟩
      isProlog := true, attributes := ids }
  have hbehind : ∀ b ∈ (bytesOf (printAttributes prolog.attributes ++ (prolog.space ++ "?>")) ++ r2).head?,
      Lexer.isSpace b = true ∨ b = 0x3F := by
    have hstops : Stops (fun b => !(Lexer.isSpace b || b == 0x3F))
        (bytesOf (printAttributes prolog.attributes ++ (prolog.space ++ "?>")) ++ r2) := by
      rw [Text.bytesOf_append, Text.bytesOf_append, List.append_assoc, List.append_assoc]
      refine stops_attributes hattributes (fun b hb => by simp [hb])
        (stops_space hspace (fun b hb => by simp [hb]) fun _ => ?_)
      rintro b ⟨⟩
      rfl
    intro b hb
    have hb := hstops b hb
    rwa [Bool.not_eq_false', Bool.or_eq_true, beq_iff_eq] at hb
  have h1 : Passes s (cursor .content 0 spaced) { nodes := N, current := 0 }
      (cursor .afterInstructionOpen 2 spaced) (.inside A (nodeOf 0 0 2 (.instruction {})) #[]) :=
    passes_open hp (by decide) (Lexer.lex_instructionOpen hopen) (by decide)
      Builder.step_instructionOpen
  have h2 : Passes s (cursor .afterInstructionOpen 2 spaced) (.inside A (nodeOf 0 0 2 (.instruction {})) #[])
      (cursor .inProlog (2 + size "xml") false true)
      (.inside A (nodeOf 0 0 (2 + size "xml") (own #[])) #[]) := by
    refine passes_update (Lexer.lex_prologName hr2 hbehind) (by decide)
      (Nat.lt_add_of_pos_right (by decide)) (Nat.le_refl _) ?_
    rw [Builder.step_prologName Builder.kindOf_inside,
      show Text.slice s 2 (2 + size "xml") = "xml" from h.right.left.slice]
    rfl
  obtain ⟨spaced1, h3⟩ := passes_attributes true false own #[] (i := 0) (p := 0) (A := A) (B := #[])
    (fun _ _ => rfl) hattributes h.right.right.left
  obtain ⟨spaced2, h4⟩ := passes_tagSpace true spaced1 hr3 hspace (by rintro b ⟨⟩; rfl)
  refine ⟨spaced2, h1.trans (h2.trans (h3.trans ((h4 _).trans ?_)))⟩
  have hsize : size prolog.print = 2 + size "xml" + size (printAttributes prolog.attributes) +
      size prolog.space + size "?>" := by
    simp only [Prolog.print, Text.size_append, show size "<?" = 2 from rfl]
    omega
  rw [Prolog.nodes, hsize, hA, Array.empty_append, Array.empty_append]
  refine passes_close (Lexer.lex_prologClose hclose) (by decide)
    (Nat.lt_add_of_pos_right (by decide)) (Nat.le_add_right ..) rfl ?_
  rw [Builder.step_close_of_instruction Builder.kindOf_inside (.inr rfl)]
  rfl

/-! ## Whole documents -/

theorem reads_head {w : Written} (hw : w.Valid) (h : Stands s 0 w.head) (hN : N.size = 1)
    (hp : Opened N 0) : Reads s 0 0 (size w.head) N (adopt N 0 w.headRoots w.headNodes) := by
  obtain ⟨prolog, forest⟩ := w
  cases prolog with
  | none =>
    intro spaced
    refine ⟨spaced, ?_⟩
    rw [show headRoots ⟨none, forest⟩ = #[] from rfl, show headNodes ⟨none, forest⟩ = #[] from rfl,
      adopt_empty]
    exact .refl ..
  | some prolog =>
    have hread := reads_prolog hN hp (hw.attributes prolog rfl) (hw.space prolog rfl) h
    rw [hN] at hread
    exact hread

theorem adopt_document (span : Span) (ids : Array Nat) (ns : Array Node) :
    adopt #[{ span }] 0 ids ns = #[{ span, children := ids }] ++ ns := by
  have h := modify_last #[] { span } fun n => { n with children := n.children ++ ids }
  simp only [Array.empty_append, Array.size_empty] at h
  rw [adopt, h]

theorem reads_written {w : Written} (hw : w.Valid) :
    Reads w.print 0 0 (size w.print) #[{ span := ⟨0, size w.print⟩ }] w.nodes := by
  have h := Text.stands_self w.print
  have hp : Opened #[{ span := ⟨0, size w.print⟩ }] 0 := ⟨_, rfl, rfl⟩
  have hhead := reads_head hw h.left rfl hp
  have hsize : size w.print = 0 + size w.head + size w.forest.print := by
    rw [print, Text.size_append, Nat.zero_add]
  have hforest := reads_forest (hp.adopt w.headRoots w.headNodes) hw.forest h.right
    (hsize ▸ atMarkup_size _) fun hzero => hw.start ?_
  · rw [adopt_adopt hp.lt_size, size_adopt, ← hsize, Nat.zero_add, adopt_document _ (_ ++ _)] at hforest
    exact hhead.trans hforest
  · cases hprolog : w.prolog with
    | none => rfl
    | some prolog =>
      rw [head, hprolog] at hzero
      have hpos : 0 < size prolog.print := Text.size_append .. ▸ Nat.add_pos_left (by decide) _
      exact absurd hzero (Nat.ne_of_gt (Nat.zero_add _ ▸ hpos))

/-- **The builder makes the nodes that a written document stands for**, of tokens without a fault. -/
theorem build_written {w : Written} (hw : w.Valid) :
    Builder.build w.print false = w.nodes ∧ ∀ t ∈ Lexer.document.tokens w.print, t.1.fault = none := by
  obtain ⟨spaced, hread⟩ := reads_written hw false
  have hdocument : w.nodes = #[] ++ #[w.documentNode] ++ w.innerNodes := by
    rw [Array.empty_append, nodes]
  have hfirst : w.nodes[0]? = some w.documentNode := hdocument ▸ getElem?_mid #[] _ _
  have hchain : chain w.nodes 0 = [0] := by
    apply chain_of_parentAt_eq_none
    rw [parentAt, hfirst]
    rfl
  refine Builder.build_of_passes (c := { nodes := w.nodes }) hread (Nat.le_refl _) rfl ?_
  -- all that is open at the end is the document, and it reaches up to there from the start
  intro id hid n hn
  obtain rfl := List.mem_singleton.mp (hchain ▸ hid)
  obtain rfl := Option.some.inj (hfirst.symm.trans hn)
  exact Nat.le_refl _

end XmlAssist.Written

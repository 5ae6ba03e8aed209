import XmlAssist.Proofs.Written.Inside
import XmlAssist.Proofs.Written.Nodes

/-!
# Reading written pieces

Where a piece is written, the lexer and the builder pass over it and the builder has the nodes of
the piece, under the node that was current (`Reads`).
-/

namespace XmlAssist.Written

open Node
open Lexer (cursor attributeMode Stops)
open Text (Stands rest bytesOf size)

variable {s : String} {i j m p : Nat} {N A B : Array Node}

/-- The nodes `ns` are new ones behind `N`, and those with the numbers `ids` are children of `p`. -/
def adopt (N : Array Node) (p : Nat) (ids : Array Nat) (ns : Array Node) : Array Node :=
  N.modify p (fun n => { n with children := n.children ++ ids }) ++ ns

/-- The node `p` is there, and it is no element that is closed. -/
def Opened (N : Array Node) (p : Nat) : Prop := ∃ n, N[p]? = some n ∧ n.kind.isClosedElement = false

/-- Under the node `p`, the text from `i` to `j` makes `N'` of the nodes `N`. -/
def Reads (s : String) (p i j : Nat) (N N' : Array Node) : Prop :=
  ∀ spaced, ∃ spaced', Passes s (cursor .content i spaced) { nodes := N, current := p }
    (cursor .content j spaced') { nodes := N', current := p }

/-! ## Adopting nodes -/

theorem adopt_empty (N : Array Node) (p : Nat) : adopt N p #[] #[] = N := by
  apply Array.ext_getElem?
  intro j
  rw [adopt, Array.append_empty, Array.getElem?_modify]
  split
  · simp
  · rfl

theorem adopt_adopt {ids ids' : Array Nat} {ns ns' : Array Node} (h : p < N.size) :
    adopt (adopt N p ids ns) p ids' ns' = adopt N p (ids ++ ids') (ns ++ ns') := by
  have hp : p < (N.modify p (fun n => { n with children := n.children ++ ids })).size := by
    rwa [Array.size_modify]
  unfold adopt
  rw [modify_append_left hp, Array.append_assoc]
  congr 1
  apply Array.ext_getElem?
  intro j
  simp only [Array.getElem?_modify]
  split
  · simp [Function.comp_def]
  · rfl

theorem size_adopt (N : Array Node) (p : Nat) (ids : Array Nat) (ns : Array Node) :
    (adopt N p ids ns).size = N.size + ns.size := by
  rw [adopt, Array.size_append, Array.size_modify]

theorem adopt_singleton (N : Array Node) (p : Nat) (ns : Array Node) :
    adopt N p #[N.size] ns = N.modify p (Builder.withChild N.size) ++ ns := by
  rw [adopt]
  congr 2

theorem Opened.adopt (h : Opened N p) (ids : Array Nat) (ns : Array Node) :
    Opened (adopt N p ids ns) p := by
  obtain ⟨n, hn, hk⟩ := h
  refine ⟨{ n with children := n.children ++ ids }, ?_, hk⟩
  have hlt := lt_size_of_getElem? hn
  rw [Written.adopt, Array.getElem?_append_left (by rwa [Array.size_modify]), Array.getElem?_modify,
    if_pos rfl, hn]
  rfl

theorem Opened.lt_size (h : Opened N p) : p < N.size := by
  obtain ⟨n, hn, -⟩ := h
  exact lt_size_of_getElem? hn

theorem Opened.kindOf (h : Opened N p) :
    (Builder.kindOf { nodes := N, current := p } p).isClosedElement = false := by
  obtain ⟨n, hn, hk⟩ := h
  rwa [Builder.kindOf_eq hn]

theorem Reads.trans {k : Nat} {N' N'' : Array Node} (h : Reads s p i j N N')
    (h' : Reads s p j k N' N'') : Reads s p i k N N'' := by
  intro spaced
  obtain ⟨spaced', h⟩ := h spaced
  obtain ⟨spaced'', h'⟩ := h' spaced'
  exact ⟨spaced'', h.trans h'⟩

theorem extendTo_of_le {span : Span} (h : span.stop ≤ j) : span.extendTo j = ⟨span.start, j⟩ := by
  rw [Span.extendTo, Nat.max_eq_right h]

/-! ## Tokens of one node -/

/-- The node that reaches from `i` to `j` under the node `p`. -/
def nodeOf (p i j : Nat) (k : Kind) : Node := { span := ⟨i, j⟩, parent := some p, kind := k }

theorem passes_open {kind : Token.Kind} {mode : Lexer.Mode} {lit : String} {k : Kind} {spaced : Bool}
    (hp : Opened N p) (hlit : 0 < size lit)
    (hlex : Lexer.lex s (cursor .content i spaced) = ⟨kind, cursor mode (i + size lit) spaced, none⟩)
    (hk : kind ≠ .eos)
    (hstep : Builder.step s { nodes := N, current := p } ⟨kind, i, i + size lit, none⟩ false =
      (Builder.beforeMarkup { nodes := N, current := p } i false).openNode k ⟨i, i + size lit⟩) :
    Passes s (cursor .content i spaced) { nodes := N, current := p }
      (cursor mode (i + size lit) spaced)
      (.inside (N.modify p (Builder.withChild N.size)) (nodeOf p i (i + size lit) k) #[]) := by
  refine .of_lex hlex hk (Nat.lt_add_of_pos_right hlit) (hstep.trans ?_)
  rw [Builder.beforeMarkup_of_open hp.kindOf, Builder.openNode_eq]
  rfl

theorem update_nodeOf {k k' : Kind} (hm : m ≤ j) :
    (Builder.inside A (nodeOf p i m k) B).update A.size k' j = .inside A (nodeOf p i j k') B := by
  rw [Builder.update_inside, extendTo_of_le hm]
  rfl

theorem passes_update {kind : Token.Kind} {x y : Lexer} {k k' : Kind}
    (hlex : x.lex s = ⟨kind, y, none⟩) (hk : kind ≠ .eos) (hlt : x.pos < y.pos) (hm : m ≤ x.pos)
    (hstep : Builder.step s (.inside A (nodeOf p i m k) B) ⟨kind, x.pos, y.pos, none⟩ y.inDtd =
      (Builder.inside A (nodeOf p i m k) B).update A.size k' y.pos) :
    Passes s x (.inside A (nodeOf p i m k) B) y (.inside A (nodeOf p i y.pos k') B) := by
  refine .of_lex hlex hk hlt (hstep.trans ?_)
  rw [update_nodeOf (by omega)]

theorem passes_close {kind : Token.Kind} {x y : Lexer} {k k' : Kind}
    (hlex : x.lex s = ⟨kind, y, none⟩) (hk : kind ≠ .eos) (hlt : x.pos < y.pos) (hm : m ≤ x.pos)
    (hA : A = N.modify p (Builder.withChild N.size))
    (hstep : Builder.step s (.inside A (nodeOf p i m k) B) ⟨kind, x.pos, y.pos, none⟩ y.inDtd =
      ((Builder.inside A (nodeOf p i m k) B).update A.size k' y.pos).leave) :
    Passes s x (.inside A (nodeOf p i m k) B) y
      { nodes := adopt N p #[N.size] (#[nodeOf p i y.pos k'] ++ B), current := p } := by
  refine .of_lex hlex hk hlt (hstep.trans ?_)
  rw [update_nodeOf (by omega), Builder.leave_inside rfl, adopt_singleton, ← hA, Array.append_assoc]

/-! ## Text, comments and CDATA sections -/

theorem reads_text {text : String} (hp : Opened N p) (h : Stands s i text) (hne : text ≠ "")
    (hfree : Free "<" text) (hnext : ∀ b ∈ (rest s (i + size text)).head?, b = 0x3C) :
    Reads s p i (i + size text) N (adopt N p #[N.size] ((Leaf.text text).nodes i N.size p)) := by
  intro spaced
  obtain ⟨r, hr⟩ := h.rest
  have hbehind : rest s (i + size text) = r := by
    rw [← Text.length_bytesOf]
    exact Text.rest_add hr
  refine ⟨spaced, .of_lex (Lexer.lex_text hr hne hfree (by rwa [← hbehind])) (by decide)
    (Nat.lt_add_of_pos_right (Text.size_pos hne)) ?_⟩
  rw [Builder.step_text, Lexer.inDtd_cursor, Builder.beforeMarkup_of_open hp.kindOf, Builder.append_eq,
    adopt_singleton]
  rfl

/-- A piece between two delimiters, of which the first makes a node, the text between them is its
content, and the last one closes it. -/
theorem reads_enclosed {opener closer text : String} {mode : Lexer.Mode} {k : Enclosed → Kind}
    {first inner last : Token.Kind} (hp : Opened N p) (h : Stands s i (opener ++ (text ++ closer)))
    (hopener : 0 < size opener) (hcloser : 0 < size closer)
    (hkinds : first ≠ .eos ∧ inner ≠ .eos ∧ last ≠ .eos)
    (hfirst : ∀ {r spaced}, rest s i = bytesOf opener ++ r →
      Lexer.lex s (cursor .content i spaced) = ⟨first, cursor mode (i + size opener) spaced, none⟩)
    (hinner : ∀ {j r spaced}, rest s j = bytesOf text ++ bytesOf closer ++ r → text ≠ "" →
      Lexer.lex s (cursor mode j spaced) = ⟨inner, cursor mode (j + size text) spaced, none⟩)
    (hlast : ∀ {j r spaced}, rest s j = bytesOf closer ++ r →
      Lexer.lex s (cursor mode j spaced) = ⟨last, cursor .content (j + size closer) spaced, none⟩)
    (hopen : ∀ {b : Builder} {i j}, Builder.step s b ⟨first, i, j, none⟩ false =
      (b.beforeMarkup i false).openNode (k {}) ⟨i, j⟩)
    (htext : ∀ {b : Builder} {i j c}, b.kindOf b.current = k c →
      Builder.step s b ⟨inner, i, j, none⟩ false =
        b.update b.current (k { c with content := some ⟨i, j⟩ }) j)
    (hclose : ∀ {b : Builder} {i j c}, b.kindOf b.current = k c →
      Builder.step s b ⟨last, i, j, none⟩ false =
        (b.update b.current (k { c with closed := true }) j).leave) :
    Reads s p i (i + size (opener ++ (text ++ closer))) N
      (adopt N p #[N.size] (#[nodeOf p i (i + size (opener ++ (text ++ closer)))
        (k { content := spanOf? (i + size opener) text, closed := true })] ++ #[])) := by
  obtain ⟨_, hr1⟩ := h.left.rest
  obtain ⟨_, hr2⟩ := h.right.rest
  obtain ⟨_, hr3⟩ := h.right.right.rest
  rw [Text.bytesOf_append] at hr2
  have hsize : i + size (opener ++ (text ++ closer)) =
      i + size opener + size text + size closer := by
    rw [Text.size_append, Text.size_append]
    omega
  rw [hsize]
  intro spaced
  refine ⟨spaced, (passes_open hp hopener (hfirst hr1) hkinds.1 hopen).trans
    (.trans ?_ (passes_close (hlast hr3) hkinds.2.2 (Nat.lt_add_of_pos_right hcloser)
      (Nat.le_refl _) rfl
      (hclose (c := { content := spanOf? (i + size opener) text }) Builder.kindOf_inside)))⟩
  by_cases hne : text = ""
  · subst hne
    exact .refl ..
  · rw [spanOf?, if_neg hne]
    exact passes_update (hinner hr2 hne) hkinds.2.1 (Nat.lt_add_of_pos_right (Text.size_pos hne))
      (Nat.le_refl _) (htext (c := {}) Builder.kindOf_inside)

theorem reads_comment {text : String} (hp : Opened N p) (h : Stands s i (Leaf.comment text).print)
    (hfree : Free "-->" text) :
    Reads s p i (i + size (Leaf.comment text).print) N
      (adopt N p #[N.size] ((Leaf.comment text).nodes i N.size p)) :=
  reads_enclosed (k := .comment) hp h (by decide) (by decide) (by decide) Lexer.lex_commentOpen
    (fun hr hne => Lexer.lex_comment hr hne hfree) Lexer.lex_commentClose Builder.step_commentOpen
    (fun hc => Builder.step_text_of_comment hc (.inl rfl))
    (fun hc => Builder.step_close_of_comment hc (.inl rfl))

theorem reads_cdata {text : String} (hp : Opened N p) (h : Stands s i (Leaf.cdata text).print)
    (hfree : Free "]]>" text) :
    Reads s p i (i + size (Leaf.cdata text).print) N
      (adopt N p #[N.size] ((Leaf.cdata text).nodes i N.size p)) :=
  reads_enclosed (k := .cdata) hp h (by decide) (by decide) (by decide) Lexer.lex_cdataOpen
    (fun hr hne => Lexer.lex_cdata hr hne hfree) Lexer.lex_cdataClose Builder.step_cdataOpen
    (fun hc => Builder.step_text_of_cdata hc (.inr rfl))
    (fun hc => Builder.step_close_of_cdata hc (.inr rfl))

/-! ## Processing instructions -/

theorem stops_space {space : String} {r : List UInt8} {f : UInt8 → Bool} (hspace : isSpace space)
    (hf : ∀ b, Lexer.isSpace b = true → f b = false) (hr : space = "" → Stops f r) :
    Stops f (bytesOf space ++ r) := by
  cases hbytes : bytesOf space with
  | nil => exact hr (Text.eq_of_bytesOf_eq (q := "") hbytes)
  | cons c cs =>
    rintro b ⟨⟩
    rw [isSpace, hbytes, List.all_cons, Bool.and_eq_true] at hspace
    exact hf c hspace.1

theorem isName_of_isSpace (b : UInt8) (h : Lexer.isSpace b = true) : Lexer.isName b = false :=
  Lexer.isName_eq_false _ (.inl h)

theorem stops_of_startsWithSpace {text : String} {r : List UInt8} (h : startsWithSpace text = false)
    (hr : Stops Lexer.isSpace r) : Stops Lexer.isSpace (bytesOf text ++ r) := by
  unfold startsWithSpace at h
  cases hbytes : bytesOf text with
  | nil => exact hr
  | cons c cs =>
    rw [hbytes] at h
    rintro b ⟨⟩
    exact h

theorem passes_target {target : String} {r : List UInt8} {spaced : Bool} (h : Stands s j target)
    (hr : rest s j = bytesOf target ++ r) (hname : isName target) (hnext : Stops Lexer.isName r)
    (hxml : j = 2 → target ≠ "xml") :
    Passes s (cursor .afterInstructionOpen j spaced) (.inside A (nodeOf p i j (.instruction {})) B)
      (cursor .inInstruction (j + size target) spaced)
      (.inside A (nodeOf p i (j + size target) (.instruction
        { target := some target, targetSpan := some ⟨j, j + size target⟩ })) B) := by
  refine passes_update (Lexer.lex_instructionTarget hr hname hnext hxml) (by decide)
    (Nat.lt_add_of_pos_right (Text.size_pos (Lexer.ne_empty_of_isName hname))) (Nat.le_refl _) ?_
  rw [Builder.step_instructionTarget Builder.kindOf_inside, h.slice]
  rfl

theorem passes_space {space : String} {mode : Lexer.Mode} {spaced : Bool} {b : Builder}
    (hlex : space ≠ "" → Lexer.lex s (cursor mode j spaced) =
      ⟨.blank, cursor mode (j + size space) spaced, none⟩) :
    Passes s (cursor mode j spaced) b (cursor mode (j + size space) spaced) b := by
  by_cases hne : space = ""
  · subst hne
    exact .refl ..
  · exact .of_blank (hlex hne) (Nat.lt_add_of_pos_right (Text.size_pos hne))

theorem passes_instructionEnd {text : String} {k : Instruction} {spaced : Bool}
    (h : Stands s j (text ++ "?>")) (hstart : startsWithSpace text = false) (hfree : Free "?>" text)
    (hm : m ≤ j) (hA : A = N.modify p (Builder.withChild N.size)) (hk : k.content = none) :
    Passes s (cursor .inInstruction j spaced) (.inside A (nodeOf p i m (.instruction k)) B)
      (cursor .content (j + size text + size "?>") spaced)
      { nodes := adopt N p #[N.size] (#[nodeOf p i (j + size text + size "?>") (.instruction
          { k with content := spanOf? j text, closed := true })] ++ B), current := p } := by
  obtain ⟨_, hclose⟩ := h.right.rest
  by_cases hne : text = ""
  · subst hne
    refine passes_close (Lexer.lex_instructionClose hclose) (by decide)
      (Nat.lt_add_of_pos_right (by decide)) hm hA ?_
    rw [Builder.step_close_of_instruction Builder.kindOf_inside (.inl rfl), spanOf?, if_pos rfl, ← hk]
    rfl
  · obtain ⟨r, hr⟩ := h.rest
    rw [Text.bytesOf_append] at hr
    refine (passes_update (Lexer.lex_instruction hr hne hstart hfree) (by decide)
      (Nat.lt_add_of_pos_right (Text.size_pos hne)) hm
      (Builder.step_instructionContent Builder.kindOf_inside)).trans ?_
    rw [spanOf?, if_neg hne]
    refine passes_close (Lexer.lex_instructionClose hclose) (by decide)
      (Nat.lt_add_of_pos_right (by decide)) (Nat.le_refl _) hA ?_
    rw [Builder.step_close_of_instruction Builder.kindOf_inside (.inl rfl)]
    rfl

theorem reads_instruction {target space text : String} (hp : Opened N p)
    (h : Stands s i (Leaf.instruction target space text).print)
    (hv : (Leaf.instruction target space text).Valid)
    (hxml : i = 0 → (Leaf.instruction target space text).isProlog = false) :
    Reads s p i (i + size (Leaf.instruction target space text).print) N
      (adopt N p #[N.size] ((Leaf.instruction target space text).nodes i N.size p)) := by
  obtain ⟨htarget, hspace, hspaced, hstart, hfree⟩ := hv
  have hsize : i + size (Leaf.instruction target space text).print =
      i + size "<?" + size target + size space + size text + size "?>" := by
    simp only [Leaf.print, Text.size_append]
    omega
  have hmark : ∀ (f : UInt8 → Bool) r, f 0x3F = false → Stops f (bytesOf "?>" ++ r) := by
    rintro f r hf b ⟨⟩
    exact hf
  obtain ⟨_, hopen⟩ := h.left.rest
  obtain ⟨r1, hr1⟩ := h.right.rest_append
  obtain ⟨r2, hr2⟩ := h.right.right.rest_append
  have hname : Stops Lexer.isName (bytesOf (space ++ (text ++ "?>")) ++ r1) := by
    rw [Text.bytesOf_append, List.append_assoc]
    refine stops_space hspace isName_of_isSpace fun hempty => ?_
    have hnone : text = "" := Decidable.not_not.mp fun hne => hspaced hne hempty
    rw [hnone]
    exact hmark _ _ rfl
  have hblank : Stops Lexer.isSpace (bytesOf (text ++ "?>") ++ r2) := by
    rw [Text.bytesOf_append, List.append_assoc]
    exact stops_of_startsWithSpace hstart (hmark _ _ rfl)
  have hnot : i + size "<?" = 2 → target ≠ "xml" := by
    intro hi
    have hi0 : i = 0 := by
      have : size "<?" = 2 := rfl
      omega
    simpa [Leaf.isProlog] using hxml hi0
  rw [Leaf.nodes, hsize]
  intro spaced
  refine ⟨spaced, ?_⟩
  refine (passes_open hp (by decide) (Lexer.lex_instructionOpen hopen) (by decide)
    Builder.step_instructionOpen).trans ?_
  refine (passes_target h.right.left hr1 htarget hname hnot).trans ?_
  refine (passes_space fun hne => Lexer.lex_instructionSpace hr2 hspace hne hblank).trans ?_
  exact passes_instructionEnd h.right.right.right hstart hfree (Nat.le_add_right ..) rfl rfl

end XmlAssist.Written

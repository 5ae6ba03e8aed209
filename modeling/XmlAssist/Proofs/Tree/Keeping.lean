import XmlAssist.Proofs.Tree.Change
import XmlAssist.Proofs.Tree.Places
import XmlAssist.Proofs.Tree.Shape

/-!
# What is left behind

A token works on the nodes around the current one, on the open attribute and on new nodes; it leaves
all other nodes as they are, and no later token comes back to them (`Builder.spares_step`). So a node
that has been left is still the same at the end of the text (`Builder.Follows.spared`).
-/

namespace XmlAssist.Builder

open Node
open Text (size isBoundary)
open Lexer (Leads)

variable {s : String} {x y : Lexer} {l : List (Token × Lexer)} {b b' b'' : Builder} {t : Token}
variable {id stop : Nat} {k : Kind} {inDtd : Bool}

/-- The node is the document or one of those around what the builder is at. -/
inductive Around (b : Builder) : Nat → Prop where
  | root : Around b 0
  | current : Around b b.current
  | doctype {id : Nat} (h : b.doctype = some id) : Around b id
  | declaration {id : Nat} (h : b.declaration = some id) : Around b id
  | parent {id : Nat} (h : Around b id) : Around b (b.parentOf id)

/-- Only nodes around what the builder is at, the open attribute and new nodes are worked on, and no
others are come back to; all nodes stay in their places, start where they did and reach as far. -/
structure Spares (b b' : Builder) : Prop where
  size_le : b.nodes.size ≤ b'.nodes.size
  fixed : ∀ (id : Nat) (n : Node), b.nodes[id]? = some n →
    ∃ m, b'.nodes[id]? = some m ∧ m.parent = n.parent ∧ m.span.start = n.span.start ∧
      n.span.stop ≤ m.span.stop
  node : ∀ id < b.nodes.size, ¬ b.Around id → b.openAttribute ≠ some id → b'.nodes[id]? = b.nodes[id]?
  around : ∀ id, b'.Around id → b.Around id ∨ b.nodes.size ≤ id
  openAttribute : ∀ id, b'.openAttribute = some id → b.openAttribute = some id ∨ b.nodes.size ≤ id

theorem Around.modify {c : Nat} (h : b.Around c) {f : Node → Node} (hf : ∀ n, (f n).parent = n.parent) :
    (b.modify id f).Around c := by
  induction h with
  | root => exact .root
  | current => exact .current (b := b.modify id f)
  | doctype h => exact .doctype h
  | declaration h => exact .declaration h
  | parent _ ih => exact parentOf_modify (fun n _ => hf n) _ ▸ ih.parent

namespace Spares

theorem refl (b : Builder) : Spares b b where
  size_le := Nat.le_refl _
  fixed _ n hn := ⟨n, hn, rfl, rfl, Nat.le_refl _⟩
  node _ _ _ _ := rfl
  around _ := .inl
  openAttribute _ := .inl

theorem trans (h : Spares b b') (h' : Spares b' b'') : Spares b b'' where
  size_le := Nat.le_trans h.size_le h'.size_le
  fixed id n hn := by
    obtain ⟨m, hm, hparent, hstart, hstop⟩ := h.fixed id n hn
    obtain ⟨m', hm', hparent', hstart', hstop'⟩ := h'.fixed id m hm
    exact ⟨m', hm', hparent'.trans hparent, hstart'.trans hstart, Nat.le_trans hstop hstop'⟩
  node id hid haround hopen := by
    have hlt := Nat.not_le_of_lt hid
    rw [h'.node id (Nat.lt_of_lt_of_le hid h.size_le) (fun ha => (h.around id ha).elim haround hlt)
      (fun ho => (h.openAttribute id ho).elim hopen hlt)]
    exact h.node id hid haround hopen
  around id ha := (h'.around id ha).elim (h.around id) fun hle => .inr (Nat.le_trans h.size_le hle)
  openAttribute id ho :=
    (h'.openAttribute id ho).elim (h.openAttribute id) fun hle => .inr (Nat.le_trans h.size_le hle)

/-- Nodes stay in their places, and new ones and what the builder is at are around what it was at. -/
theorem around_of_links (hlinks : ∀ id, b'.parentOf id = b.parentOf id ∨ b.Around (b'.parentOf id))
    (hcurrent : b.Around b'.current ∨ b.nodes.size ≤ b'.current)
    (hdoctype : ∀ id, b'.doctype = some id → b.Around id ∨ b.nodes.size ≤ id)
    (hdeclaration : ∀ id, b'.declaration = some id → b.Around id ∨ b.nodes.size ≤ id) (ha : b'.Around id) :
    b.Around id ∨ b.nodes.size ≤ id := by
  induction ha with
  | root => exact .inl .root
  | current => exact hcurrent
  | doctype h => exact hdoctype _ h
  | declaration h => exact hdeclaration _ h
  | @parent id _ ih =>
    rcases hlinks id with hsame | haround
    · rw [hsame]
      rcases ih with ha | hle
      · exact .inl (.parent ha)
      · rw [parentOf, Array.getElem?_eq_none hle]
        exact .inl .root
    · exact .inl haround

theorem of_nodes (hnodes : b'.nodes = b.nodes) (hcurrent : b.Around b'.current)
    (hdoctype : ∀ id, b'.doctype = some id → b.Around id)
    (hdeclaration : ∀ id, b'.declaration = some id → b.Around id)
    (hopen : ∀ id, b'.openAttribute = some id → b.openAttribute = some id) : Spares b b' := by
  refine ⟨Nat.le_of_eq (by rw [hnodes]), fun id n hn => ⟨n, hnodes ▸ hn, rfl, rfl, Nat.le_refl _⟩,
    fun id _ _ _ => by rw [hnodes], fun id ha => ?_, fun id ho => .inl (hopen id ho)⟩
  exact around_of_links (fun id => .inl (by rw [parentOf, parentOf, hnodes])) (.inl hcurrent)
    (fun id h => .inl (hdoctype id h)) (fun id h => .inl (hdeclaration id h)) ha

/-- A node around what the builder is at, or the open attribute, is changed. -/
theorem modify (hid : b.Around id ∨ b.openAttribute = some id) {f : Node → Node}
    (hf : ∀ n, (f n).parent = n.parent ∧ (f n).span.start = n.span.start ∧ n.span.stop ≤ (f n).span.stop) :
    Spares b (b.modify id f) := by
  have hlinks (c : Nat) : (b.modify id f).parentOf c = b.parentOf c :=
    parentOf_modify (fun n _ => (hf n).1) c
  refine ⟨by simp [Builder.modify], fun c n hn => ?_, fun c _ haround hopen => ?_, fun c ha => ?_,
    fun c ho => .inl ho⟩
  · simp only [Builder.modify, Array.getElem?_modify, hn, Option.map_some]
    split
    · exact ⟨_, rfl, hf n⟩
    · exact ⟨n, rfl, rfl, rfl, Nat.le_refl _⟩
  · have hne : id ≠ c := by
      rintro rfl
      exact hid.elim haround hopen
    simp only [Builder.modify, Array.getElem?_modify, if_neg hne]
  · exact around_of_links (fun c => .inl (hlinks c)) (.inl .current) (fun _ h => .inl (.doctype h))
      (fun _ h => .inl (.declaration h)) ha

theorem update (hid : b.Around id ∨ b.openAttribute = some id) : Spares b (b.update id k stop) :=
  modify hid fun _ => ⟨rfl, rfl, Nat.le_max_left ..⟩

theorem extend (hid : b.Around id ∨ b.openAttribute = some id) : Spares b (b.extend id stop) :=
  modify hid fun _ => ⟨rfl, rfl, Nat.le_max_left ..⟩

theorem push {n : Node} (hn : n.parent = some b.current) (hnodes : b'.nodes = b.nodes.push n)
    (hcurrent : b'.current = b.current ∨ b'.current = b.nodes.size) (hdoctype : b'.doctype = b.doctype)
    (hdeclaration : b'.declaration = b.declaration)
    (hopen : b'.openAttribute = b.openAttribute ∨ b'.openAttribute = some b.nodes.size) : Spares b b' := by
  have hget (c : Nat) : b'.nodes[c]? = if c = b.nodes.size then some n else b.nodes[c]? := by
    rw [hnodes, Array.getElem?_push]
  refine ⟨by simp [hnodes], fun c m hm => ?_, fun c hc _ _ => by rw [hget, if_neg (Nat.ne_of_lt hc)],
    fun c ha => ?_, fun c ho => ?_⟩
  · exact ⟨m, by rw [hget, if_neg (Nat.ne_of_lt (lt_size_of_getElem? hm)), hm], rfl, rfl, Nat.le_refl _⟩
  · refine around_of_links (fun c => ?_) ?_ (fun _ h => .inl (.doctype (hdoctype ▸ h)))
      (fun _ h => .inl (.declaration (hdeclaration ▸ h))) ha
    · rw [parentOf, hget]
      split
      · right
        simpa [hn] using Around.current
      · exact .inl rfl
    · rcases hcurrent with h | h
      · exact .inl (h ▸ .current)
      · exact .inr (Nat.le_of_eq h.symm)
  · rcases hopen with h | h
    · exact .inl (h ▸ ho)
    · exact .inr (Nat.le_of_eq (Option.some.inj (h.symm.trans ho)))

theorem append (b : Builder) (k : Kind) (span : Span) : Spares b (b.append k span) :=
  (modify (f := fun n => { n with children := n.children.push b.nodes.size }) (.inl .current) fun _ =>
      ⟨rfl, rfl, Nat.le_refl _⟩).trans
    (push (n := { span, parent := some b.current, kind := k }) rfl rfl (.inl rfl) rfl rfl (.inl rfl))

theorem openNode (b : Builder) (k : Kind) (span : Span) : Spares b (b.openNode k span) := by
  refine (modify (b := b) (f := fun n => { n with children := n.children.push b.nodes.size })
    (.inl .current) fun _ => ⟨rfl, rfl, Nat.le_refl _⟩).trans ?_
  refine push (n := { span, parent := some b.current, kind := k }) rfl rfl (.inr ?_) rfl rfl (.inl rfl)
  simp [Builder.openNode, Builder.append, Builder.modify]

theorem leave (b : Builder) : Spares b b.leave :=
  of_nodes rfl (.parent .current) (fun _ h => .doctype h) (fun _ h => .declaration h) fun _ h => h

theorem forget (b : Builder) : Spares b { b with openAttribute := none } :=
  of_nodes rfl .current (fun _ h => .doctype h) (fun _ h => .declaration h) fun _ h => by cases h

end Spares

/-! ## Before new markup -/

theorem spares_leaveClosedElement (b : Builder) : Spares b b.leaveClosedElement := by
  unfold leaveClosedElement
  split
  · split
    · exact .leave b
    · exact .refl b
  · exact .refl b

theorem spares_leaveDeclaration (b : Builder) : Spares b b.leaveDeclaration := by
  unfold leaveDeclaration
  split
  · rename_i id h
    exact .of_nodes rfl (.parent (.declaration h)) (fun _ h => .doctype h) (fun _ h => by cases h) fun _ h => h
  · exact .refl b

theorem spares_leaveDoctype (b : Builder) (stop : Nat) : Spares b (b.leaveDoctype stop) := by
  unfold leaveDoctype
  dsimp only
  refine (spares_leaveDeclaration b).trans ?_
  split
  · rename_i id h
    have hextend : Spares b.leaveDeclaration (b.leaveDeclaration.extend id stop) := .extend (.inl (.doctype h))
    refine hextend.trans ?_
    exact .of_nodes rfl ((Around.parent (.doctype h)).modify fun _ => rfl) (fun _ h => by cases h)
      (fun _ h => .declaration h) fun _ h => h
  · exact .refl _

theorem spares_flushEndTag (b : Builder) (stop : Nat) (close : Option Nat) : Spares b (b.flushEndTag stop close) := by
  unfold flushEndTag
  split
  · have hforget : Spares b { b with endTagOpen := none } :=
      .of_nodes rfl .current (fun _ h => .doctype h) (fun _ h => .declaration h) fun _ h => h
    exact hforget.trans (.append _ _ _)
  · exact .refl b

theorem spares_beforeMarkup (b : Builder) (start : Nat) (inDtd : Bool) : Spares b (b.beforeMarkup start inDtd) := by
  have hsettle : Spares b (b.settle start) :=
    ((Spares.forget b).trans (spares_flushEndTag _ start none)).trans (spares_leaveDeclaration _)
  rw [beforeMarkup_eq]
  refine (hsettle.trans ?_).trans (spares_leaveClosedElement _)
  split
  · exact spares_leaveDoctype _ _
  · exact .refl _

/-! ## One token -/

theorem around_of_mem_chain (hid : b.Around id) {c : Nat} (hc : c ∈ chain b.nodes id) : b.Around c := by
  induction id using Nat.strongRecOn with
  | ind id ih =>
    rcases chain_cases b.nodes id with h | ⟨p, hp, hlt, h⟩
    · rw [h, List.mem_singleton] at hc
      exact hc ▸ hid
    · rw [h, List.mem_cons] at hc
      rcases hc with rfl | hc
      · exact hid
      · have hparent : b.parentOf id = p := by rw [parentOf, show b.nodes[id]?.bind (·.parent) = some p from hp]; rfl
        exact ih p hlt (hparent ▸ .parent hid) hc

theorem Around.foldl_extend (h : b.Around id) (ids : List Nat) (stop : Nat) :
    (ids.foldl (fun b id => b.extend id stop) b).Around id := by
  induction ids generalizing b with
  | nil => exact h
  | cons c ids ih => exact ih (h.modify fun _ => rfl)

theorem spares_foldl_extend {ids : List Nat} (h : ∀ c ∈ ids, b.Around c) (stop : Nat) :
    Spares b (ids.foldl (fun b id => b.extend id stop) b) := by
  induction ids generalizing b with
  | nil => exact .refl b
  | cons c ids ih =>
    obtain ⟨hc, hids⟩ := List.forall_mem_cons.mp h
    exact (Spares.extend (.inl hc)).trans (ih fun d hd => (hids d hd).modify fun _ => rfl)

theorem spares_closeNearest (start : Nat) (t : Token) : Spares b (closeNearest s b start t) := by
  unfold closeNearest
  split
  · rename_i id hid
    have haround {c : Nat} (hc : c ∈ chain b.nodes b.current) : b.Around c := around_of_mem_chain .current hc
    generalize hinner : (chain b.nodes b.current).takeWhile (!b.isOpenAs (t.written s) ·) = inner
    have hspares : Spares b (inner.foldl (fun b id => b.extend id start) b) :=
      spares_foldl_extend (fun c hc => haround (List.takeWhile_subset _ (hinner ▸ hc))) start
    have hclosed : (inner.foldl (fun b id => b.extend id start) b).Around id :=
      (haround (List.mem_of_find?_eq_some hid)).foldl_extend inner start
    unfold closeAt
    dsimp only
    split
    · rename_i e _
      have hupdate (k : Kind) : Spares b ((inner.foldl (fun b id => b.extend id start) b).update id k t.stop) :=
        hspares.trans (.update (.inl hclosed))
      exact (hupdate _).trans (.of_nodes rfl (hclosed.modify fun _ => rfl) (fun _ h => .doctype h)
        (fun _ h => .declaration h) fun _ h => h)
    · exact hspares
  · exact .openNode b _ _

theorem spares_attributeName (t : Token) : Spares b (attributeName s b t) := by
  unfold attributeName
  dsimp only
  split
  · rename_i k _
    have hupdate : Spares b (b.update b.current k t.stop) := .update (.inl .current)
    refine hupdate.trans ?_
    exact .push (n := { span := t.span, parent := some b.current, kind := _ }) rfl rfl (.inl rfl) rfl rfl
      (.inr (by simp [Builder.update, Builder.modify]))
  · exact .refl b

theorem spares_assign (t : Token) : Spares b (assign b t) := by
  unfold assign
  dsimp only
  split
  · rename_i id h
    split
    · rename_i a _
      exact (Spares.modify (f := markDelimiter a) (.inr h)
        fun _ => ⟨rfl, rfl, Nat.le_refl _⟩).trans (.extend (.inl .current))
    · exact .extend (.inl .current)
  · exact .extend (.inl .current)

theorem spares_attributeValue (t : Token) : Spares b (attributeValue s b t) := by
  unfold attributeValue
  split
  · rename_i id h
    dsimp only
    split
    · rename_i a _
      have hvalue : Spares b (b.update id (.attribute (a.withValue (Text.slice s t.start t.stop) t.span)) t.stop) :=
        .update (.inr h)
      exact (hvalue.trans (.forget _)).trans (.extend (.inl .current))
    · have hvalue : Spares b (b.extend id t.stop) := .extend (.inr h)
      exact (hvalue.trans (.forget _)).trans (.extend (.inl .current))
  · exact .extend (.inl .current)

theorem spares_tagToken (t : Token) : Spares b (tagToken s b t inDtd) := by
  unfold tagToken
  split
  · exact (spares_beforeMarkup ..).trans (.openNode ..)
  · exact .update (.inl .current)
  · exact (Spares.forget b).trans (.update (.inl .current))
  · exact ((Spares.forget b).trans (.update (.inl .current))).trans (.leave _)
  · exact .forget b
  · exact .forget b
  · exact (spares_beforeMarkup ..).trans (.of_nodes rfl .current (fun _ h => .doctype h)
      (fun _ h => .declaration h) fun _ h => h)
  · have hforget : Spares b { b with endTagOpen := none } :=
      .of_nodes rfl .current (fun _ h => .doctype h) (fun _ h => .declaration h) fun _ h => h
    exact hforget.trans (spares_closeNearest (b.endTagOpen.getD (t.start - 2)) t)
  · split
    · exact spares_flushEndTag ..
    · split
      · split
        · exact (Spares.update (.inl .current)).trans (.leave _)
        · exact .refl b
      · exact .refl b
  · split
    · exact .extend (.inl .current)
    · exact .refl b
  · exact .refl b

theorem spares_sectionToken (t : Token) : Spares b (sectionToken s b t inDtd) := by
  have hopen (k : Kind) : Spares b ((b.beforeMarkup t.start inDtd).openNode k t.span) :=
    (spares_beforeMarkup ..).trans (.openNode ..)
  have hclose (k : Kind) : Spares b (b.update b.current k t.stop).leave :=
    (Spares.update (.inl .current)).trans (.leave _)
  unfold sectionToken
  split
  · exact hopen _
  · exact hopen _
  · exact .update (.inl .current)
  · exact .update (.inl .current)
  · exact .update (.inl .current)
  · exact .update (.inl .current)
  · exact hclose _
  · exact hclose _
  · exact hclose _
  · exact hclose _
  · exact hopen _
  · exact .update (.inl .current)
  · exact .update (.inl .current)
  · exact .update (.inl .current)
  · exact ((Spares.forget b).trans (.update (.inl .current))).trans (.leave _)
  · exact ((Spares.forget b).trans (.update (.inl .current))).trans (.leave _)
  · exact .forget b
  · exact .forget b
  · exact .refl b

theorem spares_onDoctype (t : Token) (f : Doctype → Doctype) : Spares b (b.onDoctype t f) := by
  unfold onDoctype
  split
  · rename_i id h
    split
    · exact .update (.inl (.doctype h))
    · exact .extend (.inl (.doctype h))
  · exact .refl b

theorem spares_openDeclaration (t : Token) (body : Declaration.Body) : Spares b (b.openDeclaration t body) := by
  have hopen : Spares b (b.leaveDeclaration.leaveClosedElement.openNode (.declaration { body }) t.span) :=
    ((spares_leaveDeclaration b).trans (spares_leaveClosedElement _)).trans (.openNode ..)
  refine hopen.trans (.of_nodes rfl .current (fun _ h => .doctype h) (fun id h => ?_) fun _ h => h)
  obtain rfl := Option.some.inj h
  exact .current

theorem spares_unrecognized (t : Token) : Spares b (unrecognized s b t) := by
  unfold unrecognized
  split
  · rename_i id h
    have hid : b.Around id := by
      rcases Option.or_eq_some_iff.mp h with h | ⟨-, h⟩
      · exact .declaration h
      · exact .doctype h
    split
    · exact .update (.inl hid)
    · exact .update (.inl hid)
    · exact .refl b
  · exact .refl b

theorem spares_declarationParameter (kind : Token.DtdKind) (t : Token) :
    Spares b (declarationParameter s b kind t) := by
  unfold declarationParameter
  split
  · exact .refl b
  · rename_i id h
    have hmark : Spares b (if kind = .contentOpen then { b with contentStart := some t.start } else b) := by
      split
      · exact .of_nodes rfl .current (fun _ h => .doctype h) (fun _ h => .declaration h) fun _ h => h
      · exact .refl b
    dsimp only
    split
    · refine hmark.trans (.update (.inl (.declaration ?_)))
      split <;> exact h
    · exact hmark

theorem spares_dtdToken (kind : Token.DtdKind) (t : Token) : Spares b (dtdToken s b kind t inDtd) := by
  have hleave := spares_leaveDeclaration b
  unfold dtdToken
  split
  · have hopen : Spares b ((b.beforeMarkup t.start inDtd).openNode (.doctype {}) t.span) :=
      (spares_beforeMarkup ..).trans (.openNode ..)
    refine hopen.trans (.of_nodes rfl .current (fun id h => ?_) (fun _ h => .declaration h) fun _ h => h)
    obtain rfl := Option.some.inj h
    exact .current
  · exact spares_onDoctype ..
  · exact hleave.trans (spares_onDoctype ..)
  · dsimp only
    split
    · rename_i id h
      have hclose := hleave.trans (spares_onDoctype t fun d => { d with closed := true })
      have hid := (stays_onDoctype (b := b.leaveDeclaration) (t := t)
        fun d => { d with closed := true }).doctype.trans h
      exact hclose.trans (.of_nodes rfl (.parent (.doctype hid)) (fun _ h => by cases h)
        (fun _ h => .declaration h) fun _ h => h)
    · exact hleave
  · exact spares_onDoctype ..
  · exact spares_onDoctype ..
  · exact spares_onDoctype ..
  · exact spares_onDoctype ..
  · exact spares_onDoctype ..
  · exact spares_openDeclaration ..
  · exact spares_openDeclaration ..
  · exact spares_openDeclaration ..
  · exact spares_openDeclaration ..
  · split
    · rename_i id h
      have hid : b.Around id := .declaration h
      have hleave {c : Builder} (hclose : Spares b c) (hparent : c.Around (c.parentOf id)) :
          Spares b { c with declaration := none, current := c.parentOf id } :=
        hclose.trans (.of_nodes rfl hparent (fun _ h => .doctype h) (fun _ h => by cases h) fun _ h => h)
      cases b.kindOf id with
      | declaration d => exact hleave (.update (.inl hid)) (.parent (.declaration h))
      | _ => exact hleave (.extend (.inl hid)) (.parent (.declaration h))
    · exact .refl b
  · exact spares_unrecognized t
  · exact spares_declarationParameter ..

/-- **A token spares all nodes but those around what the builder is at.** -/
theorem spares_step (s : String) (b : Builder) (t : Token) (inDtd : Bool) : Spares b (step s b t inDtd) := by
  unfold step
  split
  any_goals exact spares_tagToken t
  · exact spares_attributeName t
  · exact spares_assign t
  · exact spares_attributeValue t
  · exact .refl b
  · exact .refl b
  · exact (spares_beforeMarkup ..).trans (.append ..)
  · exact spares_dtdToken ..
  · exact spares_sectionToken t

/-! ## Along the tokens -/

theorem spares_behind (s : String) (l : List (Token × Lexer)) (b : Builder) : Spares b (behind s l b) := by
  induction l generalizing b with
  | nil => exact .refl b
  | cons p l ih => exact (spares_step s b p.1 p.2.inDtd).trans (ih _)

theorem spares_atEnd (s : String) (b : Builder) : Spares b (atEnd s b) :=
  (spares_flushEndTag b (size s) none).trans
    (spares_foldl_extend (fun _ hc => around_of_mem_chain .current hc) (size s))

theorem Fits.mem_chain_of_around (h : Fits s x b) (hid : b.Around id) : id ∈ chain b.nodes b.current := by
  obtain ⟨edge, hn⟩ := h.nested
  obtain ⟨n, hcurrent, -⟩ := hn.current_node
  have hroot : 0 ∈ chain b.nodes b.current :=
    Document.zero_mem_chain (d := { (default : Document) with nodes := b.nodes }) hn.arena
      (lt_size_of_getElem? hcurrent)
  induction hid with
  | root => exact hroot
  | current => exact mem_chain_self ..
  | doctype hi => exact h.doctype.mem_chain hn hi
  | declaration hi =>
    rcases h.declaration with hnone | ⟨_, hdeclaring⟩
    · cases hnone.symm.trans hi
    · obtain rfl := Option.some.inj (hdeclaring.declaration.symm.trans hi)
      exact mem_chain_self ..
  | @parent id _ ih =>
    cases hp : parentAt b.nodes id with
    | none =>
      have hzero : b.parentOf id = 0 := by rw [parentOf, show b.nodes[id]?.bind (·.parent) = none from hp]; rfl
      exact hzero ▸ hroot
    | some p =>
      have hparent : b.parentOf id = p := by rw [parentOf, show b.nodes[id]?.bind (·.parent) = some p from hp]; rfl
      have hlt : p < id := by
        obtain ⟨m, hm, hmp⟩ := parentAt_eq_some.mp hp
        obtain ⟨r, hr, -, hnone⟩ := hn.arena.root
        rcases Nat.eq_zero_or_pos id with rfl | hpos
        · obtain rfl := Option.some.inj (hm.symm.trans hr)
          cases hnone.symm.trans hmp
        · obtain ⟨-, q, hq, hlt⟩ := hn.arena.inner hm hpos
          exact Option.some.inj (hq.symm.trans hmp) ▸ hlt
      exact hparent ▸ mem_chain_trans ih (parentAt_mem_chain hp hlt)

/-- The open attribute is an attribute. -/
def Attributive (b : Builder) : Prop := ∀ id, b.openAttribute = some id → ∃ a, b.kindOf id = .attribute a

theorem Attributive.step (h : b.Attributive) (t : Token) (inDtd : Bool) : (step s b t inDtd).Attributive := by
  have hchanges := changes_step s b t inDtd
  have hold {id : Nat} (hid : b.openAttribute = some id) :
      ∃ a, (Builder.step s b t inDtd).kindOf id = .attribute a := by
    obtain ⟨a, ha⟩ := h id hid
    have hlt : id < b.nodes.size := by
      refine Nat.lt_of_not_le fun hge => ?_
      rw [kindOf_of_ge hge] at ha
      cases ha
    have hchange := hchanges.old id hlt
    rw [ha] at hchange
    generalize (Builder.step s b t inDtd).kindOf id = k at *
    cases hchange with
    | inner hother => cases hother
    | _ => exact ⟨_, rfl⟩
  intro id hid
  by_cases hkind : t.kind = .attributeName
  · have hstep : Builder.step s b t inDtd = attributeName s b t := by simp only [Builder.step, hkind]
    have hopen : (attributeName s b t).openAttribute = some id := hstep ▸ hid
    rw [openAttribute_attributeName] at hopen
    split at hopen
    · rename_i howner
      obtain rfl := Option.some.inj hopen
      obtain ⟨k, hk⟩ := Option.isSome_iff_exists.mp howner
      refine ⟨{ name := Text.slice s t.start t.stop, nameSpan := t.span }, ?_⟩
      rw [hstep]
      unfold attributeName
      dsimp only
      rw [hk]
      simp only [kindOf, update, modify, Array.getElem?_push, Array.size_modify, if_true, Option.map_some,
        Option.getD_some]
    · exact hold hopen
  · rw [openAttribute_step hkind] at hid
    split at hid
    · cases hid
    · exact hold hid

theorem attributive_start (s : String) (dtdFile : Bool) : (start s dtdFile).Attributive := by
  intro id hid
  cases dtdFile <;> cases hid

theorem Attributive.behind (h : b.Attributive) (l : List (Token × Lexer)) : (behind s l b).Attributive := by
  induction l generalizing b with
  | nil => exact h
  | cons p l ih => exact ih (h.step p.1 p.2.inDtd)

/-- **A node that has been left stays as it is**, up to the end of the text. -/
theorem Follows.spared (h : Follows s x b) (ha : b.Attributive) (hid : id < b.nodes.size)
    (hout : id ∉ chain b.nodes b.current) (hattr : ∀ a, b.kindOf id ≠ .attribute a) (l : List (Token × Lexer)) :
    (Builder.behind s l b).nodes[id]? = b.nodes[id]? ∧
      (atEnd s (Builder.behind s l b)).nodes[id]? = b.nodes[id]? ∧ ¬ (Builder.behind s l b).Around id := by
  have haround : ¬ b.Around id := fun haround => hout (h.fits.mem_chain_of_around haround)
  have hopen : b.openAttribute ≠ some id := fun hopen => (ha id hopen).elim hattr
  have hspares := spares_behind s l b
  exact ⟨hspares.node id hid haround hopen, (hspares.trans (spares_atEnd s _)).node id hid haround hopen,
    fun hbehind => (hspares.around id hbehind).elim haround (Nat.not_le_of_lt hid)⟩

end XmlAssist.Builder

import XmlAssist.Proofs.Edits.Attribute
import XmlAssist.Proofs.Written.Tags

/-!
# Attributes that get quotes

The last attribute that was added waits for its `=` and its value, and no token behind these changes an
attribute (`Follows.untouched`). Two builders that hold the same but for quotes around the value of one attribute
(`Retouch.quote`) go on doing so (`Mirrors.behind_quoted`).
-/

namespace XmlAssist

open Node
open Text (size)
open Lexer (Leads Reads)

namespace Lexer

variable {x y : Lexer} {pos : Nat} {spaced : Bool} {kind : Token.Kind}

theorem Reads.mode_of_attributeName (h : Reads x pos spaced .attributeName y) :
    (x.mode = .inTag ∨ x.mode = .inProlog) ∧ y = x.moved pos spaced .afterAttributeName := by
  cases h with
  | attributeName hmode => exact ⟨hmode, rfl⟩
  | content _ h => simp [StartsContent, contentOpeners] at h
  | declaration _ h => simp [StartsDeclaration, dtdOpeners] at h

theorem Reads.mode_of_assign (h : Reads x pos spaced .assign y) : x.mode = .afterAttributeName := by
  cases h with
  | assign hmode => exact hmode
  | content _ h => simp [StartsContent, contentOpeners] at h
  | declaration _ h => simp [StartsDeclaration, dtdOpeners] at h

theorem Reads.awaits (h : Reads x pos spaced kind y) (hy : y.mode.awaits = true) :
    kind = .attributeName ∨ ((kind = .blank ∨ kind = .assign) ∧ x.mode.awaits = true) := by
  cases h with
  | blank => exact .inr ⟨.inl rfl, hy⟩
  | attributeName => exact .inl rfl
  | assign hmode => exact .inr ⟨.inr rfl, by rw [hmode]; rfl⟩
  | unknown hmode =>
    rw [moved_mode] at hy
    rcases hmode with hmode | hmode | hmode <;> rw [hmode] at hy <;> cases hy
  | content _ hk =>
    rw [moved_mode] at hy
    rcases hk with ⟨-, rfl⟩ | hk
    · cases hy
    · have hnot : ∀ o ∈ contentOpeners.map (·.2), o.2.awaits = false := by decide
      rw [hnot _ hk] at hy
      cases hy
  | declaration _ hk =>
    rw [moved_mode] at hy
    rcases hk with ⟨-, rfl⟩ | hk
    · cases hy
    · have hnot : ∀ o ∈ dtdOpeners.map (·.2), o.2.awaits = false := by decide
      rw [hnot _ hk] at hy
      cases hy
  | attributeValue =>
    rw [moved_mode, tagMode] at hy
    split at hy <;> cases hy
  | commentClose | cdataClose | prologClose | instructionClose =>
    rw [moved_mode, contentMode] at hy
    split at hy <;> cases hy
  | _ => cases hy

end Lexer

namespace Builder

variable {s s' : String} {x x' y y' : Lexer} {b b' : Builder} {m m' : List (Token × Lexer)} {a : Nat} {A : Attribute}

theorem lt_size_of_attribute (hkind : b.kindOf a = .attribute A) : a < b.nodes.size := by
  refine Nat.lt_of_not_le fun hle => ?_
  rw [kindOf_of_ge hle] at hkind
  cases hkind

theorem kind_of_changes {t : Token} {k k' : Kind} (h : k.Changes s b t a k') (hk : k = .attribute A) :
    k' = .attribute A ∨
      (b.openAttribute = some a ∧ t.kind = .assign ∧ k' = .attribute { A with hasDelimiter := true }) ∨
      (b.openAttribute = some a ∧ t.kind = .attributeValue ∧
        k' = .attribute (A.withValue (t.written s) t.span)) := by
  cases h <;> cases hk
  · exact .inl rfl
  · exact .inr (.inl ⟨‹_›, ‹_›, rfl⟩)
  · exact .inr (.inr ⟨‹_›, ‹_›, rfl⟩)
  · exact .inl (by simp_all [Kind.isOther])

theorem Follows.exists_reads (h : Follows s x b) (hlt : x.pos < size s) :
    ∃ z, Follows s z b ∧ z.inStartTag = x.inStartTag ∧ (z.mode.awaits = true → z = x) ∧
      Reads z (x.step s).2.pos (x.step s).2.spaced (x.step s).1.kind (x.step s).2 := by
  obtain ⟨z, spaced, hz, hreads⟩ := Lexer.lex_turns h.consistent hlt
  rw [Lexer.step_eq_lex h.boundary hlt]
  rcases hz with rfl | hfall
  · exact ⟨z, h, rfl, fun _ => rfl, hreads⟩
  · refine ⟨z, h.of_falls hfall, hfall.inStartTag_eq, fun hz => ?_, hreads⟩
    cases hfall with
    | backInTag =>
      rw [Lexer.moved_mode, Lexer.tagMode] at hz
      split at hz <;> cases hz
    | _ => cases hz

theorem Follows.awaits_of_mode (h : Follows s x b) (hmode : x.mode.awaits = true) : b.Awaits := by
  have hd := h.detail
  cases hm : x.mode <;> rw [hm] at hmode <;> first | (cases hmode; done) | skip
  all_goals
    simp only [Detail, hm] at hd
    exact hd.2

theorem Follows.awaits_of_kind (h : Follows s x b) (hlt : x.pos < size s)
    (hkind : (x.step s).1.kind = .assign ∨ (x.step s).1.kind = .attributeValue) :
    x.mode.awaits = true ∧ b.Awaits := by
  obtain ⟨z, -, -, hz, hreads⟩ := h.exists_reads hlt
  have hmode : z.mode.awaits = true := by
    rcases hkind with hkind | hkind <;> rw [hkind] at hreads
    · rw [hreads.mode_of_assign]
      rfl
    · rw [hreads.mode_of_attributeValue.1]
      rfl
  obtain rfl := hz hmode
  exact ⟨hmode, h.awaits_of_mode hmode⟩

theorem Follows.attributeName (h : Follows s x b) (hlt : x.pos < size s)
    (hkind : (x.step s).1.kind = .attributeName) :
    (step s b (x.step s).1 (x.step s).2.inDtd).nodes.size = b.nodes.size + 1 ∧
      (step s b (x.step s).1 (x.step s).2.inDtd).openAttribute = some b.nodes.size ∧
      (step s b (x.step s).1 (x.step s).2.inDtd).kindOf b.nodes.size =
        .attribute { name := (x.step s).1.written s, nameSpan := (x.step s).1.span } := by
  obtain ⟨z, hz, -, -, hreads⟩ := h.exists_reads hlt
  rw [hkind] at hreads
  have howns := hz.detail.owns hreads.mode_of_attributeName.1
  obtain ⟨k, hk, -⟩ := howns.withAttribute (s := s) b.nodes.size (Nat.le_refl 0)
  have hstep : step s b (x.step s).1 (x.step s).2.inDtd = Builder.attributeName s b (x.step s).1 := by
    simp only [step, hkind]
  rw [hstep, attributeName_eq hk]
  exact ⟨size_grow .., rfl, kindOf_eq (n := attributeNode s (x.step s).1 b.current)
    ((getElem?_grow ..).trans (if_pos rfl))⟩

theorem Follows.awaits_step (h : Follows s x b) (hlt : x.pos < size s) (hy : (x.step s).2.mode.awaits = true) :
    (step s b (x.step s).1 (x.step s).2.inDtd).nodes.size = b.nodes.size + 1 ∨
      (x.mode.awaits = true ∧ (x.step s).2.inStartTag = x.inStartTag) := by
  obtain ⟨z, hz, hin, heq, hreads⟩ := h.exists_reads hlt
  rcases hreads.awaits hy with hname | ⟨hk, hzmode⟩
  · exact .inl (h.attributeName hlt hname).1
  · obtain rfl := heq hzmode
    have hin' := hreads.inStartTag_eq hz.consistent (by rcases hk with hk | hk <;> simp [hk])
      (by rcases hk with hk | hk <;> simp [hk])
    refine .inr ⟨hzmode, hin'.trans ?_⟩
    rcases hk with hk | hk <;> rw [hk] <;> exact Bool.and_true _

/-- Behind all that an attribute can wait for it stays what it is. -/
theorem Follows.untouched (h : Follows s x b) (hkind : b.kindOf a = .attribute A)
    (hx : x.mode.awaits = true → a + 1 < b.nodes.size) (hm : Leads s x m y) :
    (Builder.behind s m b).kindOf a = .attribute A := by
  induction hm generalizing b with
  | here => exact hkind
  | @next x y m hlt hrest ih =>
    have hid := lt_size_of_attribute hkind
    have hnot (hk : (x.step s).1.kind = .assign ∨ (x.step s).1.kind = .attributeValue) :
        b.openAttribute ≠ some a := by
      intro hopen
      obtain ⟨hmode, id, _, hid, hlast, -⟩ := h.awaits_of_kind hlt hk
      obtain rfl := Option.some.inj (hopen.symm.trans hid)
      exact Nat.ne_of_lt (hx hmode) hlast
    have hchanges := changes_step s b (x.step s).1 (x.step s).2.inDtd
    have hold := hchanges.old a hid
    refine ih (h.next hlt).2 ?_ fun hy => ?_
    · rcases kind_of_changes hold hkind with hk | ⟨hopen, hk, -⟩ | ⟨hopen, hk, -⟩
      · exact hk
      · exact absurd hopen (hnot (.inl hk))
      · exact absurd hopen (hnot (.inr hk))
    · show a + 1 < (step s b (x.step s).1 (x.step s).2.inDtd).nodes.size
      rcases h.awaits_step hlt hy with hsize | ⟨hmode, -⟩
      · omega
      · exact Nat.lt_of_lt_of_le (hx hmode) hchanges.size_le

theorem Follows.awaits_behind (h : Follows s x b) (hid : a < b.nodes.size)
    (hx : x.mode.awaits = true → x.inStartTag = true ∨ a + 1 < b.nodes.size) (hm : Leads s x m y)
    (hy : y.mode.awaits = true) : y.inStartTag = true ∨ a + 1 < (Builder.behind s m b).nodes.size := by
  induction hm generalizing b with
  | here => exact hx hy
  | @next x y m hlt hrest ih =>
    have hsize := (changes_step s b (x.step s).1 (x.step s).2.inDtd).size_le
    refine ih (h.next hlt).2 (Nat.lt_of_lt_of_le hid hsize) (fun hy => ?_) hy
    rcases h.awaits_step hlt hy with hnew | ⟨hmode, hin⟩
    · exact .inr (hnew ▸ Nat.succ_lt_succ hid)
    · exact (hx hmode).imp (hin.trans ·) (Nat.lt_of_lt_of_le · hsize)

/-! ## Builders that differ in one node -/

/-- The builders hold the same outline but for the kind of one node. -/
structure SameBut (a : Nat) (b b' : Builder) : Prop where
  others : ∀ id ≠ a, b'.nodes[id]?.map Node.outline = b.nodes[id]?.map Node.outline
  links : b'.nodes[a]?.map (fun n => (n.parent, n.children)) = b.nodes[a]?.map fun n => (n.parent, n.children)
  current : b'.current = b.current
  doctype : b'.doctype = b.doctype
  declaration : b'.declaration = b.declaration
  pending : b'.endTagOpen.isSome = b.endTagOpen.isSome

namespace SameBut

variable {b'' : Builder}

theorem symm (h : SameBut a b b') : SameBut a b' b :=
  ⟨fun id hid => (h.others id hid).symm, h.links.symm, h.current.symm, h.doctype.symm, h.declaration.symm,
    h.pending.symm⟩

theorem trans (h : SameBut a b b') (h' : SameBut a b' b'') : SameBut a b b'' :=
  ⟨fun id hid => (h'.others id hid).trans (h.others id hid), h'.links.trans h.links, h'.current.trans h.current,
    h'.doctype.trans h.doctype, h'.declaration.trans h.declaration, h'.pending.trans h.pending⟩

theorem of_mirrors (h : Mirrors {} b b') : SameBut a b b' := by
  have hnode (id : Nat) : b'.nodes[id]?.map Node.outline = b.nodes[id]?.map Node.outline := by
    simpa only [retouch_default] using h.node id
  refine ⟨fun id _ => hnode id, ?_, h.current, h.doctype, h.declaration, h.pending⟩
  have hlinks := congrArg (Option.map fun n => (n.parent, n.children)) (hnode a)
  simpa [Function.comp_def, Node.outline] using hlinks

theorem of_modify {g : Node → Node} (hg : ∀ n, (g n).parent = n.parent ∧ (g n).children = n.children) :
    SameBut a b (b.modify a g) := by
  refine ⟨fun id hid => ?_, ?_, rfl, rfl, rfl, rfl⟩
  · simp [Builder.modify, Array.getElem?_modify, hid.symm]
  · cases hn : b.nodes[a]? <;> simp [Builder.modify, Array.getElem?_modify, hn, hg]

theorem of_assign {t : Token} (hopen : b.openAttribute = some a) (hkind : b.kindOf a = .attribute A) :
    SameBut a b (assign b t) ∧ (assign b t).openAttribute = some a ∧
      (assign b t).kindOf a = .attribute { A with hasDelimiter := true } := by
  rw [assign_eq hopen hkind]
  have hmark : SameBut a b (b.modify a (markDelimiter A)) := of_modify fun _ => ⟨rfl, rfl⟩
  refine ⟨hmark.trans (of_mirrors (.extend_same ..)), hopen, ?_⟩
  rw [kindOf_extend]
  obtain ⟨n, hn, -⟩ := Builder.exists_node hkind (by simp)
  exact kindOf_eq (n := markDelimiter A n) (by simp [Builder.modify, Array.getElem?_modify, hn])

theorem of_attributeValue {t : Token} (hopen : b.openAttribute = some a) (hkind : b.kindOf a = .attribute A) :
    SameBut a b (attributeValue s b t) ∧
      (attributeValue s b t).kindOf a = .attribute (A.withValue (t.written s) t.span) := by
  rw [attributeValue_eq hopen hkind]
  have hforget : SameBut a b { b with openAttribute := none } := ⟨fun _ _ => rfl, rfl, rfl, rfl, rfl, rfl⟩
  have hvalue : SameBut a { b with openAttribute := none }
      ({ b with openAttribute := none }.update a (.attribute (A.withValue (t.written s) t.span)) t.stop) :=
    of_modify fun _ => ⟨rfl, rfl⟩
  refine ⟨hforget.trans (hvalue.trans (of_mirrors (.extend_same ..))), ?_⟩
  rw [kindOf_extend]
  exact kindOf_update (b := { b with openAttribute := none }) hkind (by simp)

end SameBut

end Builder

/-- The attribute `a` has an `=` and the value `v` in quotes. -/
def Retouch.quote (a : Nat) (v : String) : Retouch :=
  { onAttribute := fun id x =>
      if id = a then
        { x with hasDelimiter := true, written := some (Lexer.quoted v), value := some v, valueSpan := some {} }
      else x }

theorem Retouch.onAttribute_quote (a : Nat) (v : String) (x : Attribute) : (Retouch.quote a v).onAttribute a x =
    { x with hasDelimiter := true, written := some (Lexer.quoted v), value := some v, valueSpan := some {} } :=
  if_pos rfl

namespace Builder

variable {v : String}

theorem SameBut.quoted {A' : Attribute} (h : SameBut a b b') (hkind : b.kindOf a = .attribute A)
    (hkind' : b'.kindOf a = .attribute A') (hA : A'.outline = (Retouch.quote a v).onAttribute a A.outline) :
    Mirrors (.quote a v) b b' := by
  refine ⟨fun id => ?_, h.current, h.doctype, h.declaration, h.pending⟩
  by_cases hid : id = a
  · subst hid
    obtain ⟨n, hn, hk⟩ := Builder.exists_node hkind (by simp)
    obtain ⟨n', hn', hk'⟩ := Builder.exists_node hkind' (by simp)
    have hlinks := h.links
    rw [hn, hn', Option.map_some, Option.map_some, Option.some_inj, Prod.mk.injEq] at hlinks
    rw [hn, hn', Option.map_some, Option.map_some, Node.outline, Node.outline, Retouch.node, hk, hk', hlinks.1,
      hlinks.2]
    show some { n with span := {}, kind := .attribute A'.outline } = _
    rw [hA]
    rfl
  · rw [h.others id hid]
    refine congrArg (Option.map · _) (funext fun n => ?_)
    have hsame : (Retouch.quote a v).kind id n.outline.kind = n.outline.kind := by
      cases hk : n.outline.kind <;> simp [Retouch.kind, Retouch.quote, hid]
    rw [Retouch.node, hsame]

theorem withValue_quoted (A : Attribute) (v : String) (sp : Span) :
    (A.withValue (Lexer.quoted v) sp).outline =
      { A.outline with written := some (Lexer.quoted v), value := some v, valueSpan := some {} } := by
  have hvalue : Text.stripQuotes (Lexer.quoted v) = v := Written.stripQuotes_quoted ⟨"", "", .double, v⟩
  rw [Attribute.withValue, hvalue]
  rfl

theorem Mirrored.kindOf_attribute (h : Mirrored {} b b') (hkind : b.kindOf a = .attribute A) :
    ∃ A', b'.kindOf a = .attribute A' ∧ A'.outline = A.outline :=
  (h.kindOf_of_eq hkind).ofAttribute

theorem Mirrored.assigned (h : Mirrored {} b b') (hopen : b.openAttribute = some a)
    (hkind : b.kindOf a = .attribute A) {t t' : Token} (hw : t'.written s' = Lexer.quoted "") :
    Mirrors (.quote a "") b (attributeValue s' (assign b' t) t') := by
  obtain ⟨A', hkind', hA'⟩ := h.kindOf_attribute hkind
  obtain ⟨hassign, hopen', hkind₁⟩ := SameBut.of_assign (t := t) (h.openAttribute.trans hopen) hkind'
  obtain ⟨hvalue, hkind₂⟩ := SameBut.of_attributeValue (s := s') (t := t') hopen' hkind₁
  refine ((SameBut.of_mirrors h.toMirrors).trans (hassign.trans hvalue)).quoted hkind hkind₂ ?_
  rw [hw, withValue_quoted, ← hA', Retouch.onAttribute_quote]
  rfl

theorem Mirrored.requoted (h : Mirrored {} b b') (hopen : b.openAttribute = some a)
    (hkind : b.kindOf a = .attribute A) (hA : A.hasDelimiter = true) {t t' : Token}
    (hw : t'.written s' = Lexer.quoted (t.written s)) :
    Mirrors (.quote a (t.written s)) (attributeValue s b t) (attributeValue s' b' t') := by
  obtain ⟨A', hkind', hA'⟩ := h.kindOf_attribute hkind
  obtain ⟨hvalue, hkind₁⟩ := SameBut.of_attributeValue (s := s) (t := t) hopen hkind
  obtain ⟨hvalue', hkind₂⟩ := SameBut.of_attributeValue (s := s') (t := t') (h.openAttribute.trans hopen) hkind'
  refine (hvalue.symm.trans ((SameBut.of_mirrors h.toMirrors).trans hvalue')).quoted hkind₁ hkind₂ ?_
  have hdelimiter : A'.outline.hasDelimiter = true := by rw [hA']; exact hA
  rw [hw, withValue_quoted, Retouch.onAttribute_quote, Attribute.withValue]
  obtain ⟨name, nameSpan, valueSpan, written, value, hasDelimiter⟩ := A
  obtain ⟨name', nameSpan', valueSpan', written', value', hasDelimiter'⟩ := A'
  simp only [Attribute.outline, Attribute.mk.injEq] at hA' hdelimiter hA ⊢
  simp [hA'.1, hdelimiter]

theorem suits_quote (h : Mirrors (.quote a v) b b') (hid : a < b.nodes.size) {kind : Token.Kind}
    (hopen : kind = .assign ∨ kind = .attributeValue → b.openAttribute ≠ some a) (w : String) :
    (Retouch.quote a v).Suits b b' kind w w := by
  have hother {id : Nat} (hne : id ≠ a) (x : Attribute) : (Retouch.quote a v).onAttribute id x = x := if_neg hne
  refine ⟨fun _ => rfl, fun _ => rfl, fun _ => ⟨fun _ => rfl, ?_⟩, fun _ => rfl, fun _ => ?_,
    fun hk id ho x => ?_, fun hk id ho x => ?_⟩
  · exact congrArg (List.find? · _) (funext fun id => h.isOpenAs w id fun _ => rfl)
  · exact hother (Nat.ne_of_gt hid) _
  · have hne : id ≠ a := by
      rintro rfl
      exact hopen (.inl hk) ho
    rw [hother hne, hother hne]
  · have hne : id ≠ a := by
      rintro rfl
      exact hopen (.inr hk) ho
    rw [hother hne, hother hne]

/-- **Behind the attribute** all goes on in the same way. -/
theorem Mirrors.behind_quoted (h : Mirrors (.quote a v) b b') (hkind : b.kindOf a = .attribute A)
    (hf : Follows s x b) (hf' : Follows s' x' b') (hm : Leads s x m y) (hm' : Leads s' x' m' y')
    (hsame : List.Forall₂ (SameToken s s') m m') :
    Mirrors (.quote a v) (Builder.behind s m b) (Builder.behind s' m' b') := by
  induction hm generalizing b b' x' m' A with
  | here =>
    cases hsame
    exact h
  | @next x y m hlt hrest ih =>
    cases hm' with
    | here => cases hsame
    | @next _ _ m' hlt' hrest' =>
      obtain ⟨hp, hsame⟩ := List.forall₂_cons.mp hsame
      have hid := lt_size_of_attribute hkind
      -- an attribute that waits for its value is the last node of both builders, and `a` has got its value
      have hopen (hk : (x.step s).1.kind = .assign ∨ (x.step s).1.kind = .attributeValue) :
          b'.openAttribute = b.openAttribute ∧ b.openAttribute ≠ some a := by
        obtain ⟨-, id, B, ho, hlast, -, -⟩ := hf.awaits_of_kind hlt hk
        obtain ⟨-, id', B', ho', hlast', hk', hspan⟩ := hf'.awaits_of_kind hlt' (by rwa [hp.kind])
        have hsize := h.size
        obtain rfl : id' = id := by omega
        refine ⟨ho'.trans ho.symm, fun ha => ?_⟩
        obtain rfl := Option.some.inj (ho.symm.trans ha)
        obtain ⟨A', hA', hout⟩ := (h.kindOf_of_eq hkind).ofAttribute
        obtain rfl := Kind.attribute.inj (hA'.symm.trans hk')
        have hvalue := congrArg (·.valueSpan.isSome) hout
        simp [Attribute.outline, Retouch.quote, hspan] at hvalue
      have hstep : Mirrors (.quote a v) (Builder.step s b (x.step s).1 (x.step s).2.inDtd)
          (Builder.step s' b' (x'.step s').1 (x'.step s').2.inDtd) := by
        rw [hp.inDtd]
        refine h.step hp.kind (fun hk => (hopen hk).1) ?_
        rw [hp.written]
        exact suits_quote h hid (fun hk => (hopen hk).2) _
      have hkind' : ∃ A', (Builder.step s b (x.step s).1 (x.step s).2.inDtd).kindOf a = .attribute A' := by
        have hold := (changes_step s b (x.step s).1 (x.step s).2.inDtd).old a hid
        rcases kind_of_changes hold hkind with hk | ⟨-, -, hk⟩ | ⟨-, -, hk⟩ <;> exact ⟨_, hk⟩
      obtain ⟨A', hkind'⟩ := hkind'
      rw [behind_cons, behind_cons]
      exact ih hstep hkind' (hf.next hlt).2 (hf'.next hlt').2 hrest' hsame

theorem attribute_behind (hkind : b.kindOf a = .attribute A) (hm : Leads s x m y) :
    ∃ A', (behind s m b).kindOf a = .attribute A' ∧ (A.hasDelimiter = true → A'.hasDelimiter = true) := by
  induction hm generalizing b A with
  | here => exact ⟨A, hkind, id⟩
  | @next x y m hlt hrest ih =>
    have hid := lt_size_of_attribute hkind
    have hold := (changes_step s b (x.step s).1 (x.step s).2.inDtd).old a hid
    rw [behind_cons]
    rcases kind_of_changes hold hkind with hk | ⟨-, -, hk⟩ | ⟨-, -, hk⟩
    · exact ih hk
    · obtain ⟨A', hA', hdelimiter⟩ := ih hk
      exact ⟨A', hA', fun _ => hdelimiter rfl⟩
    · obtain ⟨A', hA', hdelimiter⟩ := ih hk
      exact ⟨A', hA', hdelimiter⟩

theorem behind_alike (h : List.Forall₂ Lexer.ReadAlike m m') (b : Builder) : behind s m' b = behind s m b := by
  induction h generalizing b with
  | nil => rfl
  | cons hp _ ih => rw [behind_cons, behind_cons, ih, hp.token, hp.inDtd]

end Builder

end XmlAssist

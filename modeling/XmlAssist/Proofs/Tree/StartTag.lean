import XmlAssist.Proofs.Tree.Tags

/-!
# What is read in a start tag

From its bracket to its `>` a start tag belongs to one element, which stays the current node and gets no children
(`KeepsChildren`). So the `>` of an element is read behind the bracket and the name of that element, with nothing
but the tokens of a start tag between them (`exists_startTagClose`).
-/

namespace XmlAssist

open Node
open Text (size isBoundary)
open Lexer (Leads StaysInTag)

variable {s uri : String} {x y z w : Lexer} {l m : List (Token × Lexer)} {t : Token} {e : Element}
variable {id p stop : Nat} {k : Kind} {inDtd : Bool}

namespace Builder

variable {b b' b'' : Builder}

/-- The current node stays the same one, and no node gets a child. -/
structure KeepsChildren (b b' : Builder) : Prop where
  current : b'.current = b.current
  children : ∀ (id : Nat) (n : Node), b.nodes[id]? = some n →
    ∃ n', b'.nodes[id]? = some n' ∧ n'.children = n.children

namespace KeepsChildren

theorem refl (b : Builder) : KeepsChildren b b := ⟨rfl, fun _ n hn => ⟨n, hn, rfl⟩⟩

theorem trans (h : KeepsChildren b b') (h' : KeepsChildren b' b'') : KeepsChildren b b'' := by
  refine ⟨h'.current.trans h.current, fun id n hn => ?_⟩
  obtain ⟨n', hn', hsame⟩ := h.children id n hn
  obtain ⟨n'', hn'', hsame'⟩ := h'.children id n' hn'
  exact ⟨n'', hn'', hsame'.trans hsame⟩

theorem of_same (hnodes : b'.nodes = b.nodes) (hcurrent : b'.current = b.current) : KeepsChildren b b' :=
  ⟨hcurrent, fun _ n hn => ⟨n, hnodes ▸ hn, rfl⟩⟩

theorem modify (b : Builder) (id : Nat) (f : Node → Node) (hf : ∀ n, (f n).children = n.children) :
    KeepsChildren b (b.modify id f) := by
  refine ⟨rfl, fun c n hn => ?_⟩
  rw [Builder.modify, Array.getElem?_modify, hn]
  split
  · exact ⟨f n, rfl, hf n⟩
  · exact ⟨n, rfl, rfl⟩

theorem update (b : Builder) (id : Nat) (k : Kind) (stop : Nat) : KeepsChildren b (b.update id k stop) :=
  modify b id (fun n => { n with kind := k, span := n.span.extendTo stop }) fun _ => rfl

theorem extend (b : Builder) (id stop : Nat) : KeepsChildren b (b.extend id stop) :=
  modify b id (fun n => { n with span := n.span.extendTo stop }) fun _ => rfl

theorem attributeName (s : String) (b : Builder) (t : Token) : KeepsChildren b (attributeName s b t) := by
  unfold Builder.attributeName
  dsimp only
  split
  · rename_i k _
    refine (update b b.current k t.stop).trans ⟨rfl, fun id n hn => ⟨n, ?_, rfl⟩⟩
    rw [← hn]
    exact Array.getElem?_push_lt (lt_size_of_getElem? hn) ▸ (Array.getElem?_eq_getElem _).symm
  · exact refl b

theorem assign (b : Builder) (t : Token) : KeepsChildren b (assign b t) := by
  unfold Builder.assign
  refine trans ?_ (extend ..)
  split
  · split
    · exact modify _ _ _ fun _ => rfl
    · exact refl b
  · exact refl b

theorem attributeValue (s : String) (b : Builder) (t : Token) : KeepsChildren b (attributeValue s b t) := by
  have hforget : KeepsChildren b { b with openAttribute := none } := of_same rfl rfl
  unfold Builder.attributeValue
  refine trans ?_ (extend ..)
  split
  · dsimp only
    split
    · exact hforget.trans (update ..)
    · exact hforget.trans (extend ..)
  · exact refl b

/-- A token of a start tag, but for its `/>`. -/
theorem step (hkind : t.kind.inStartTag = true) (hself : t.kind ≠ .startTagSelfClose) :
    KeepsChildren b (step s b t inDtd) := by
  obtain ⟨kind, i, j, fault⟩ := t
  cases kind with
  | blank => exact refl b
  | attributeName => exact step_attributeName ▸ attributeName ..
  | assign => exact step_assign ▸ assign ..
  | attributeValue => exact step_attributeValue ▸ attributeValue ..
  | unknown =>
    cases hk : b.kindOf b.current <;> simp only [Builder.step, tagToken, hk] <;> first
      | exact refl b
      | (split
         · exact extend ..
         · exact refl b)
  | startTagName =>
    cases hk : b.kindOf b.current with
    | element e => exact step_startTagName hk ▸ update ..
    | _ =>
      simp only [Builder.step, tagToken, hk]
      exact refl b
  | startTagClose =>
    have hforget : KeepsChildren b { b with openAttribute := none } := of_same rfl rfl
    cases hk : b.kindOf b.current with
    | element e => exact step_startTagClose hk ▸ hforget.trans (update ..)
    | _ =>
      simp only [Builder.step, tagToken, hk]
      exact hforget
  | startTagSelfClose => exact absurd rfl hself
  | _ => cases hkind

/-- The tokens of a start tag. -/
theorem behind (hkinds : ∀ p ∈ m, p.1.kind.inStartTag = true ∧ p.1.kind ≠ .startTagSelfClose) (b : Builder) :
    KeepsChildren b (behind s m b) := by
  induction m generalizing b with
  | nil => exact refl b
  | cons p m ih =>
    obtain ⟨hp, hm⟩ := List.forall_mem_cons.mp hkinds
    exact (step hp.1 hp.2).trans (ih hm _)

end KeepsChildren

theorem Acts.selfCloses (h : Acts s b t b') (hkind : t.kind = .startTagSelfClose) :
    ∃ e, b'.core b.current = some e ∧ e.selfClosed = true ∧ e.closed = true := by
  cases h with
  | quiet hk => simp [hkind, Token.Kind.pairs] at hk
  | closes _ _ _ _ _ hcore => exact ⟨_, hcore, rfl, rfl⟩
  | opens hk | names hk | ends _ hk | stray _ hk => simp [hkind] at hk

theorem childless_of_startTagOpen (b : Builder) (inDtd : Bool) (hkind : t.kind = .startTagOpen) :
    ∃ n, (Builder.step s b t inDtd).nodes[(Builder.step s b t inDtd).current]? = some n ∧ n.children = #[] := by
  obtain ⟨kind, i, j, fault⟩ := t
  cases hkind
  rw [step_startTagOpen]
  exact ⟨_, getElem?_openNode _ _ _, rfl⟩

end Builder

/-- On the way through a document the lexer comes to the bracket of a start tag at `z`, to its name at `y`, and behind
the tokens `r` of that tag to its `>` at `w`. -/
structure ReadsStartTag (s : String) (l : List (Token × Lexer)) (z : Lexer) (m : List (Token × Lexer)) (y : Lexer)
    (r : List (Token × Lexer)) (w : Lexer) : Prop extends ReadsTag s l z m y where
  name : (y.step s).1.kind = .startTagName
  tokens : Leads s (y.step s).2 r w
  before_end : w.pos < size s
  close : (w.step s).1.kind = .startTagClose
  in_tag : w.inStartTag = true
  stays : StaysInTag (y.step s :: r)
  tag_kinds : ∀ q ∈ r, q.1.kind.inStartTag = true

theorem Lexer.Leads.ne_selfClose (h : Leads s x l y) (hc : x.Consistent) (hx : isBoundary s x.pos = true)
    (hstays : StaysInTag l) : ∀ q ∈ l, q.1.kind ≠ .startTagSelfClose := by
  intro q hq
  obtain ⟨l₁, l₂, rfl⟩ := List.append_of_mem hq
  obtain ⟨z, hz, hrest⟩ := h.of_append
  cases hrest with
  | next hlt hrest =>
    intro hkind
    obtain ⟨z', hc', -, hreads⟩ := Lexer.exists_reads (hz.consistent hc hx) (hz.boundary hx) hlt
    have hin := hreads.inStartTag_eq hc' (by rw [hkind]; rintro ⟨⟩) (by rw [hkind]; rintro ⟨⟩)
    rw [hkind, hstays _ hq] at hin
    simp [Token.Kind.staysInTag] at hin

namespace ReadsStartTag

open Builder

variable (h : ReadsStartTag s l z m y r w)
include h

theorem before_close : Leads s .document (l ++ z.step s :: m ++ y.step s :: r) w :=
  h.leads.append (.next h.inside h.tokens)

theorem behind_close : Leads s .document (l ++ z.step s :: m ++ y.step s :: r ++ [w.step s]) (w.step s).2 :=
  h.before_close.append (.one h.before_end)

theorem keeps (b : Builder) : KeepsChildren b (behind s (y.step s :: r ++ [w.step s]) b) := by
  have hzero := Text.isBoundary_zero s
  have hne := (Leads.next h.inside h.tokens).ne_selfClose (h.leads.consistent Lexer.consistent_document hzero)
    (h.leads.boundary hzero) h.stays
  refine .behind (fun q hq => ?_) b
  rcases List.mem_append.mp hq with hq | hq
  · refine ⟨?_, hne q hq⟩
    rcases List.mem_cons.mp hq with rfl | hq
    · rw [h.name]
      rfl
    · exact h.tag_kinds q hq
  · rw [List.mem_singleton.mp hq, h.close]
    exact ⟨rfl, nofun⟩

theorem keeps_close :
    KeepsChildren (behind s (l ++ z.step s :: m ++ y.step s :: r) (start s false))
      (behind s (l ++ z.step s :: m ++ y.step s :: r ++ [w.step s]) (start s false)) := by
  rw [behind_append _ (l ++ z.step s :: m ++ y.step s :: r)]
  refine .behind (fun q hq => ?_) _
  rw [List.mem_singleton.mp hq, h.close]
  exact ⟨rfl, nofun⟩

theorem current_named : ∃ e, (behind s (l ++ z.step s :: m ++ y.step s :: r ++ [w.step s]) (start s false)).core
    (behind s (l ++ z.step s :: m ++ y.step s :: r ++ [w.step s]) (start s false)).current = some e ∧
      e.tag = some ((y.step s).1.written s) := by
  obtain ⟨hacts, hf⟩ := ((follows_start s false).behind h.leads).next h.inside
  obtain ⟨e₁, he₁, htag, -⟩ := hacts.names_current h.name
  obtain ⟨e, he, hbecomes⟩ := hf.behind_becomes (h.tokens.append (.one h.before_end)) he₁
  rw [List.append_assoc, behind_append _ (l ++ z.step s :: m), (h.keeps _).current]
  exact ⟨e, he, (hbecomes.named (by rw [htag]; rfl)).1.trans htag⟩

end ReadsStartTag

namespace Document

open Builder

variable {text : String} {sp : Span}

/-- **The `>` of a start tag** is read in the start tag of its element, which is the current node there and has no
children yet. -/
theorem exists_startTagClose (huri : isDtdUri uri = false) (he : (parse text uri).element? id = some e)
    (hsp : e.tagSpan = some sp) (hclose : e.startClose = some p) (hself : e.selfClosed = false) :
    ∃ l z m y r w, ReadsStartTag text l z m y r w ∧ w.pos = p ∧ e.startOpen = some z.pos ∧
      (Builder.behind text (l ++ z.step text :: m ++ y.step text :: r) (start text false)).current = id ∧
      ∃ n,
        (Builder.behind text (l ++ z.step text :: m ++ y.step text :: r)
          (start text false)).nodes[id]? = some n ∧
        n.children = #[] := by
  have hzero := Text.isBoundary_zero text
  obtain ⟨l, z, m, y, hread, hname, rfl, hstart, -⟩ := exists_startTag huri he hsp
  obtain ⟨l', w, hw, hlt, rfl, hle, hkind, hcurrent, hin⟩ := exists_startClose huri he hsp hclose
  have hkind : (w.step text).1.kind = .startTagClose := by
    refine hkind.resolve_right fun hselfClose => ?_
    have hall := hw.append (.one hlt)
    obtain ⟨e₁, he₁, hselfClosed, hclosed⟩ :=
      (((follows_start text false).behind hw).next hlt).1.selfCloses hselfClose
    rw [← behind_concat, hcurrent] at he₁
    obtain ⟨e', he', hbecomes⟩ := exists_element huri hall he₁
    obtain rfl := Option.some.inj (he.symm.trans he')
    have hsame : e.core.selfClosed = e₁.selfClosed := congrArg Element.selfClosed (hbecomes.closed hclosed)
    rw [hselfClosed] at hsame
    cases hself.symm.trans hsame
  -- the bracket of the tag that the `>` stands in
  obtain ⟨l₀, z₀, m₀, rfl, hz₀, hlt₀, hopen, hm₀, -, hstays, hkinds⟩ :=
    hw.before_inTag Lexer.consistent_document hzero rfl hin
  have hf₀ := (follows_start text false).behind hz₀
  have hb₀ := Leads.boundary_step hf₀.boundary hlt₀
  have hkeeps := KeepsChildren.behind (s := text) (m := m₀)
    (fun q hq => ⟨hkinds q hq, hm₀.ne_selfClose (hf₀.consistent.step hf₀.boundary hlt₀) hb₀ hstays q hq⟩)
    (Builder.step text (Builder.behind text l₀ (start text false)) (z₀.step text).1 (z₀.step text).2.inDtd)
  obtain ⟨n₀, hn₀, hchildless⟩ := childless_of_startTagOpen (s := text)
    (Builder.behind text l₀ (start text false)) (z₀.step text).2.inDtd hopen
  have hbehind : Builder.behind text (l₀ ++ z₀.step text :: m₀) (start text false) = _ := behind_append ..
  rw [behind_cons] at hbehind
  rw [← hbehind] at hkeeps
  have hid := hkeeps.current.symm.trans hcurrent
  -- it is that of the element
  have hsame : z₀ = z := by
    have hcore := (hf₀.next hlt₀).1.core_current hopen
    rw [← behind_concat] at hcore hid
    rw [hid] at hcore
    obtain ⟨e', he', hbecomes⟩ := exists_element huri (hz₀.append (.one hlt₀)) hcore
    obtain rfl := Option.some.inj (he.symm.trans he')
    have hpos : e.startOpen = some (z₀.step text).1.start := hbecomes.startOpen
    rw [Leads.start_step hf₀.boundary hlt₀, hstart, Option.some_inj] at hpos
    exact hz₀.eq_of_pos hread.before hzero hpos.symm
  subst hsame
  have hyb := hread.leads.boundary hzero
  have hahead := Leads.pos_lt_step hyb hread.inside
  have hyw : y.pos < w.pos := by
    have hstop : (y.step text).1.span.stop = (y.step text).2.pos := Leads.stop_step hyb hread.inside
    omega
  obtain ⟨r₀, rfl, hr₀⟩ := hread.spaces.split hm₀ hb₀ (Nat.le_of_lt hyw)
  cases hr₀ with
  | here => exact absurd hyw (Nat.lt_irrefl _)
  | @next _ _ r _ hr =>
    have htag : ReadsTag text l₀ z₀ m y := { hread with before := hz₀ }
    refine ⟨l₀, z₀, m, y, r, w, ⟨htag, hname, hr, hlt, hkind, hin, ?_, ?_⟩, rfl, hstart, ?_, ?_⟩
    · exact fun q hq => hstays q (List.mem_append_right _ hq)
    · exact fun q hq => hkinds q (List.mem_append_right _ (List.mem_cons_of_mem _ hq))
    · rw [List.append_assoc, List.cons_append]
      exact hcurrent
    · obtain ⟨n, hn, hsame⟩ := hkeeps.children _ n₀ hn₀
      rw [hid] at hn
      rw [List.append_assoc, List.cons_append]
      exact ⟨n, hn, hsame.trans hchildless⟩

end Document

end XmlAssist

import XmlAssist.Proofs.Tree.Fate

/-!
# The tags without a counterpart

As far as tags go, the builder is a stack of names. `Tally` keeps that stack, with the number of named
start tags that have no end so far, open or not, and the number of end tags that stand alone. Every
token changes it by its kind and by what is written there (`Acts.tally`). So two readings can be
compared without their trees: what they count differs by the same number as long as they read the same
(`Tally.reads_less`), also where one of them has an element open that the other one has not
(`Without.behind`).
-/

namespace XmlAssist

open Node
open Lexer (Leads)

namespace Element

/-- The element has a name, and a start tag that lacks its end. -/
def lacksEnd (e : Element) : Bool := e.tag.isSome && e.isUnended

/-- The element is an end tag with a name that lacks its start. -/
def lacksStart (e : Element) : Bool := e.tag.isSome && !e.hasStartTag && e.endTagSpan.isSome

end Element

/-- The open tags from the inside to the outside, and how many tags lack a counterpart. -/
@[ext] structure Tally where
  tags : List (Option String) := []
  unclosed : Int := 0
  unmatched : Int := 0

namespace Tally

variable {n : Tally} {kind : Token.Kind} {w v : String} {s s' : String} {l l' : List (Token × Lexer)}

/-- The tally behind a token of the kind at which `w` is written. -/
def after (n : Tally) (kind : Token.Kind) (w : String) : Tally :=
  match kind with
  | .startTagOpen => { n with tags := none :: n.tags }
  | .startTagName => { n with tags := some w :: n.tags.tail, unclosed := n.unclosed + 1 }
  | .startTagSelfClose =>
    { n with
      tags := n.tags.tail
      unclosed := n.unclosed - if n.tags.head?.join.isSome then 1 else 0 }
  | .endTagName =>
    match n.tags.dropWhile (· ≠ some w) with
    | _ :: outer => { n with tags := outer, unclosed := n.unclosed - 1 }
    | [] => { n with unmatched := n.unmatched + 1 }
  | _ => n

/-- One start tag less lacks its end. -/
def less (n : Tally) : Tally := { n with unclosed := n.unclosed - 1 }

theorem after_of_not_pairs (h : kind.pairs = false) : n.after kind w = n := by
  cases kind <;> first | rfl | cases h

theorem after_endTag {p q : List (Option String)} (htags : n.tags = p ++ some w :: q)
    (hinner : some w ∉ p) :
    n.after .endTagName w = { n with tags := q, unclosed := n.unclosed - 1 } := by
  have hdrop : n.tags.dropWhile (· ≠ some w) = some w :: q := by
    rw [htags, List.dropWhile_append_of_pos fun t ht => by
      simpa using fun heq : t = some w => hinner (heq ▸ ht)]
    simp
  rw [after, hdrop]

theorem after_endTag_of_not_mem (h : some w ∉ n.tags) :
    n.after .endTagName w = { n with unmatched := n.unmatched + 1 } := by
  have hdrop : n.tags.dropWhile (· ≠ some w) = [] := by
    rw [List.dropWhile_eq_nil_iff]
    intro t ht
    simpa using fun heq : t = some w => h (heq ▸ ht)
  rw [after, hdrop]

theorem exists_first {tags : List (Option String)} (h : some w ∈ tags) :
    ∃ inner outer, tags = inner ++ some w :: outer ∧ some w ∉ inner := by
  induction tags with
  | nil => cases h
  | cons t tags ih =>
    by_cases ht : t = some w
    · exact ⟨[], tags, by rw [ht]; rfl, List.not_mem_nil⟩
    · obtain ⟨inner, outer, rfl, hinner⟩ := ih ((List.mem_cons.mp h).resolve_left (Ne.symm ht))
      refine ⟨t :: inner, outer, rfl, fun hmem => ?_⟩
      exact (List.mem_cons.mp hmem).elim (fun heq => ht heq.symm) hinner

theorem after_less (n : Tally) (kind : Token.Kind) (w : String) :
    n.less.after kind w = (n.after kind w).less := by
  cases kind with
  | endTagName =>
    by_cases hw : some w ∈ n.tags
    · obtain ⟨inner, outer, htags, hinner⟩ := exists_first hw
      rw [after_endTag (n := n.less) htags hinner, after_endTag htags hinner]
      rfl
    · rw [after_endTag_of_not_mem (n := n.less) hw, after_endTag_of_not_mem hw]
      rfl
  | startTagName => exact Tally.ext rfl (by simp only [after, less]; ring) rfl
  | startTagSelfClose => exact Tally.ext rfl (sub_right_comm ..) rfl
  | _ => rfl

theorem after_endTag_inner {inner outer : List (Option String)}
    (htags : n.tags = inner ++ some w :: outer) (hinner : some w ∉ inner) (hv : some v ∈ inner) :
    (n.after .endTagName v).after .endTagName w = (n.after .endTagName w).less := by
  obtain ⟨first, second, rfl, hfirst⟩ := exists_first hv
  have htags' : n.tags = first ++ some v :: (second ++ some w :: outer) := by
    rw [htags, List.append_assoc, List.cons_append]
  have hsecond : some w ∉ second := fun h =>
    hinner (List.mem_append_right _ (List.mem_cons_of_mem _ h))
  rw [after_endTag htags' hfirst, after_endTag rfl hsecond, after_endTag htags hinner]
  rfl

def reads (n : Tally) (s : String) (l : List (Token × Lexer)) : Tally :=
  l.foldl (fun n p => n.after p.1.kind (p.1.written s)) n

theorem reads_append (n : Tally) (s : String) (l r : List (Token × Lexer)) :
    n.reads s (l ++ r) = (n.reads s l).reads s r := List.foldl_append

theorem reads_same (h : List.Forall₂ (SameToken s s') l l') : n.reads s' l' = n.reads s l := by
  induction h generalizing n with
  | nil => rfl
  | cons hp _ ih =>
    rw [reads, List.foldl_cons, hp.kind, hp.written]
    exact ih

theorem reads_less (n : Tally) (s : String) (l : List (Token × Lexer)) :
    n.less.reads s l = (n.reads s l).less := by
  induction l generalizing n with
  | nil => rfl
  | cons p l ih =>
    rw [reads, List.foldl_cons, after_less]
    exact ih _

theorem reads_of_not_pairs (h : ∀ p ∈ l, p.1.kind.pairs = false) : n.reads s l = n := by
  induction l with
  | nil => rfl
  | cons p l ih =>
    obtain ⟨hp, hl⟩ := List.forall_mem_cons.mp h
    rw [reads, List.foldl_cons, after_of_not_pairs hp]
    exact ih hl

/-- An end tag for something that the next one, which is for something around it, would have cut off. -/
theorem reads_inner {m r : List (Token × Lexer)} {p : Token × Lexer} {inner outer : List (Option String)}
    (hm : ∀ q ∈ m, q.1.kind.pairs = false) (hkind : p.1.kind = .endTagName)
    (htags : n.tags = inner ++ some (p.1.written s) :: outer) (hinner : some (p.1.written s) ∉ inner)
    (hv : some v ∈ inner) : (n.after .endTagName v).reads s (m ++ p :: r) = (n.reads s (m ++ p :: r)).less := by
  have hcons (k : Tally) : k.reads s (m ++ p :: r) = (k.after .endTagName (p.1.written s)).reads s r := by
    rw [reads_append, reads_of_not_pairs hm, ← hkind]
    rfl
  rw [hcons, hcons, after_endTag_inner htags hinner hv, reads_less]

end Tally

namespace Builder

variable {s s' : String} {x y : Lexer} {l : List (Token × Lexer)} {b b' : Builder} {t : Token}
variable {changed : Option Nat} {id : Nat} {e e' : Element} {P : Element → Bool} {n : Tally}

/-! ## Counting elements -/

def count (P : Element → Bool) (b : Builder) : Nat :=
  (List.range b.nodes.size).countP fun id => (b.core id).any P

theorem countP_range_of_eq {p q : Nat → Bool} {n c : Nat} (hc : c < n)
    (h : ∀ i < n, i ≠ c → q i = p i) :
    (List.range n).countP q + (p c).toNat = (List.range n).countP p + (q c).toNat := by
  induction n with
  | zero => omega
  | succ n ih =>
    rw [List.range_succ, List.countP_append, List.countP_append, List.countP_singleton,
      List.countP_singleton]
    rcases Nat.lt_or_eq_of_le (Nat.le_of_lt_succ hc) with hlt | rfl
    · have := ih hlt fun i hi => h i (Nat.lt_succ_of_lt hi)
      rw [h n (Nat.lt_succ_self n) (Nat.ne_of_gt hlt)]
      omega
    · have hsame : (List.range c).countP q = (List.range c).countP p :=
        List.countP_congr fun i hi => by
          rw [h i (Nat.lt_succ_of_lt (List.mem_range.mp hi)) (Nat.ne_of_lt (List.mem_range.mp hi))]
      rw [hsame]
      cases p c <;> cases q c <;> simp

theorem count_eq (h : Frame none b b')
    (hnew : ∀ id e, b.nodes.size ≤ id → b'.core id = some e → P e = false) :
    b'.count P = b.count P := by
  obtain ⟨k, hk⟩ := Nat.exists_eq_add_of_le h.size_le
  rw [count, count, hk, List.range_add, List.countP_append]
  have hold : (List.range b.nodes.size).countP (fun id => (b'.core id).any P) =
      (List.range b.nodes.size).countP fun id => (b.core id).any P :=
    List.countP_congr fun id hid => by rw [h.core id (List.mem_range.mp hid) nofun]
  have hfresh : ((List.range k).map (b.nodes.size + ·)).countP (fun id => (b'.core id).any P) = 0 := by
    rw [List.countP_eq_zero]
    intro id hid
    obtain ⟨j, -, rfl⟩ := List.mem_map.mp hid
    cases he : b'.core (b.nodes.size + j) with
    | none => simp
    | some e => simp [hnew _ e (Nat.le_add_right ..) he]
  rw [hold, hfresh, Nat.add_zero]

theorem count_change (h : Frame (some id) b b') (hsize : b'.nodes.size = b.nodes.size)
    (he : b.core id = some e) (he' : b'.core id = some e') :
    b'.count P + (P e).toNat = b.count P + (P e').toNat := by
  have hcount := countP_range_of_eq (p := fun id => (b.core id).any P)
    (q := fun id => (b'.core id).any P) (lt_size_of_core he) fun i hi hne => by
      rw [h.core i hi (by simpa using hne.symm)]
  rw [count, count, hsize]
  simpa [he, he'] using hcount

theorem count_push (h : Frame none b b') (hsize : b'.nodes.size = b.nodes.size + 1)
    (he : b'.core b.nodes.size = some e) : b'.count P = b.count P + (P e).toNat := by
  rw [count, count, hsize, List.range_succ, List.countP_append, List.countP_singleton, he]
  have hold : (List.range b.nodes.size).countP (fun id => (b'.core id).any P) =
      (List.range b.nodes.size).countP fun id => (b.core id).any P :=
    List.countP_congr fun id hid => by rw [h.core id (List.mem_range.mp hid) nofun]
  rw [hold, Option.any_some]
  cases P e <;> rfl

/-! ## The tally of a builder -/

/-- The tags that are open, and the tags without a counterpart so far. -/
def tally (b : Builder) : Tally where
  tags := b.opened.map (·.2.tag)
  unclosed := b.count Element.lacksEnd
  unmatched := b.count Element.lacksStart

theorem tally_start (s : String) (dtdFile : Bool) : (start s dtdFile).tally = {} := by
  have hopened : (start s dtdFile).opened = [] :=
    List.eq_nil_iff_forall_not_mem.mpr fun ⟨id, e⟩ he => by
      simpa [core_start] using (mem_opened.mp he).2.1
  have hcount (P : Element → Bool) : (start s dtdFile).count P = 0 := by
    rw [count, List.countP_eq_zero]
    exact fun id _ => by simp [core_start]
  rw [tally, hopened, hcount, hcount]
  rfl

theorem Quiet.tally (h : Quiet b b') : b'.tally = b.tally := by
  have hnew (P : Element → Bool) (hP : ∀ e : Element, e.tag = none → P e = false) :
      b'.count P = b.count P :=
    count_eq h.toFrame fun id e hid he => hP e (h.fresh id e hid he).1
  rw [Builder.tally, Builder.tally, h.opened, hnew _ fun e he => by simp [Element.lacksEnd, he],
    hnew _ fun e he => by simp [Element.lacksStart, he]]

theorem lacksEnd_of_open (hs : e.startOpen.isSome = true ∧ e.endOpen = none ∧ e.selfClosed = false) :
    e.lacksEnd = e.tag.isSome := by
  simp [Element.lacksEnd, Element.isUnended, Element.hasStartTag, Element.hasEndTag, hs]

theorem count_open (h : Frame (some id) b b') (hsize : b'.nodes.size = b.nodes.size)
    (he : b.core id = some e) (he' : b'.core id = some e') (hstart : e.startOpen.isSome = true)
    (hstart' : e'.startOpen = e.startOpen) : b'.count Element.lacksStart = b.count Element.lacksStart := by
  have hcount := count_change (P := Element.lacksStart) h hsize he he'
  have hno {e : Element} (hs : e.startOpen.isSome = true) : e.lacksStart = false := by
    simp [Element.lacksStart, Element.hasStartTag, hs]
  rw [hno hstart, hno (hstart' ▸ hstart)] at hcount
  exact Nat.add_right_cancel hcount

theorem not_mem_tags {w : String}
    (h : ∀ c ∈ chain b.nodes b.current, ∀ e, b.core c = some e → e.tag ≠ some w) :
    some w ∉ b.tally.tags := fun hmem => by
  obtain ⟨⟨c, e⟩, hc, htag⟩ := List.mem_map.mp hmem
  obtain ⟨hc, he, -⟩ := mem_opened.mp hc
  exact h c hc e he htag

/-- **A token changes the tally** by its kind and by what is written there. -/
theorem Acts.tally (h : Acts s b t b') (hs : ∀ id e, (id, e) ∈ b.opened →
      e.startOpen.isSome = true ∧ e.endOpen = none ∧ e.selfClosed = false) :
    b'.tally = b.tally.after t.kind (t.written s) := by
  cases h with
  | quiet hk hq => rw [Tally.after_of_not_pairs hk, hq.tally]
  | opens hk hf hopened _ hfresh =>
    have hnew (P : Element → Bool) (hP : ∀ e : Element, e.tag = none → P e = false) :
        b'.count P = b.count P := by
      refine count_eq hf fun id e hid he => hP e ?_
      by_cases hcurrent : id = b'.current
      · obtain rfl := Option.some.inj ((core_of_opened (l := []) hopened).symm.trans (hcurrent ▸ he))
        rfl
      · exact (hfresh id e hid hcurrent he).1
    rw [hk, Builder.tally, hopened, hnew _ fun e he => by simp [Element.lacksEnd, he],
      hnew _ fun e he => by simp [Element.lacksStart, he]]
    rfl
  | @names e outer hk hf hsize _ hbefore hunnamed hopened =>
    have hopen := hs b.current e (by simp [hbefore])
    have he := core_of_opened (l := []) hbefore
    have he' := core_of_opened (l := []) hopened
    have hcount := count_change (P := Element.lacksEnd) hf hsize he he'
    simp only [Element.lacksEnd, Element.isUnended, Element.hasStartTag, Element.hasEndTag, hopen, hunnamed,
      Option.isSome_none, Option.isSome_some, Bool.not_false, Bool.and_true, Bool.toNat_false,
      Bool.toNat_true, Nat.add_zero] at hcount
    rw [hk, Builder.tally, hopened, hcount, count_open hf hsize he he' hopen.1 rfl]
    simp [Tally.after, Builder.tally, hbefore]
  | @closes e outer hk hf hsize hbefore hopened hcore =>
    have hopen := hs b.current e (by simp [hbefore])
    have he := core_of_opened (l := []) hbefore
    have hcount := count_change (P := Element.lacksEnd) hf hsize he hcore
    have hnone : ({ e with selfClosed := true, closed := true } : Element).lacksEnd = false := by
      simp [Element.lacksEnd, Element.isUnended]
    rw [lacksEnd_of_open hopen, hnone] at hcount
    rw [hk, Builder.tally, hopened, count_open hf hsize he hcore hopen.1 rfl]
    simp only [Tally.after, Builder.tally, hbefore, List.map_cons, List.tail_cons, List.head?_cons,
      Option.join_some, Tally.mk.injEq, true_and, and_true]
    cases htag : e.tag with
    | none => simp_all
    | some w =>
      simp only [htag, Option.isSome_some, Bool.toNat_true, Bool.toNat_false] at hcount
      simp only [Option.isSome_some, if_true]
      omega
  | @ends _ inner outer id e hk hf hsize hbefore _ hothers htag hopened hcore _ =>
    have hopen := hs id e (by simp [hbefore])
    have he := core_of_opened hbefore
    have hcount := count_change (P := Element.lacksEnd) hf hsize he hcore
    rw [lacksEnd_of_open hopen, htag] at hcount
    simp only [Element.lacksEnd, Element.isUnended, Element.hasEndTag, Option.isSome_some, Bool.not_true,
      Bool.and_false, Bool.toNat_false, Bool.toNat_true, Nat.add_zero] at hcount
    have hafter := Tally.after_endTag (n := b.tally) (w := t.written s) (p := inner.map (·.2.tag))
      (q := outer.map (·.2.tag)) (by simp [Builder.tally, hbefore, htag])
      (by simpa [eq_comm] using hothers)
    rw [hk, hafter, Builder.tally, hopened, count_open hf hsize he hcore hopen.1 rfl]
    simp only [Builder.tally, Tally.mk.injEq, true_and, and_true]
    omega
  | stray _ hk hf hsize hothers hopened _ hcore =>
    have hafter := Tally.after_endTag_of_not_mem (not_mem_tags hothers)
    have hend := count_push (P := Element.lacksEnd) hf hsize hcore
    have hstart := count_push (P := Element.lacksStart) hf hsize hcore
    rw [hk, hafter, Builder.tally, hopened, hend, hstart]
    simp [Builder.tally, Element.lacksEnd, Element.isUnended, Element.lacksStart, Element.hasStartTag,
      strayElement]

theorem Follows.tally_behind (h : Follows s x b) (hl : Leads s x l y) :
    (Builder.behind s l b).tally = b.tally.reads s l := by
  induction hl generalizing b with
  | here => rfl
  | next hlt _ ih =>
    obtain ⟨hacts, hnext⟩ := h.next hlt
    rw [behind_cons, ih hnext, hacts.tally h.started]
    rfl

/-! ## One element less -/

/-- The tally is that of the builder but for the element, which has a name and may be open. -/
def Without (id : Nat) (b : Builder) (n : Tally) : Prop :=
  n = b.tally.less ∨ ∃ inner outer e, b.opened = inner ++ (id, e) :: outer ∧ e.tag.isSome = true ∧
    n = ⟨(inner ++ outer).map (·.2.tag), b.tally.unclosed - 1, b.tally.unmatched⟩

section without

variable {inner outer inner' outer' : List (Nat × Element)} {a : Nat} {w : String}

theorem Without.ends (hopened : b.opened = inner ++ (id, e) :: outer) (hnamed : e.tag.isSome = true)
    (hbefore : b.opened = inner' ++ (a, e') :: outer') (hne : id ≠ a)
    (hothers : ∀ c ∈ inner', c.2.tag ≠ some w) (htag : e'.tag = some w)
    (hopened' : b'.opened = outer') (htally : b'.tally = b.tally.after .endTagName w) :
    Without id b' (Tally.after
      ⟨(inner ++ outer).map (·.2.tag), b.tally.unclosed - 1, b.tally.unmatched⟩ .endTagName w) := by
  rw [Tally.after_endTag (p := inner'.map (·.2.tag)) (q := outer'.map (·.2.tag))
    (by simp [tally, hbefore, htag]) (by simpa [eq_comm] using hothers)] at htally
  rcases List.append_eq_append_iff.mp (hopened.symm.trans hbefore) with
    ⟨between, rfl, hsplit⟩ | ⟨between, rfl, hsplit⟩
  · -- the element is cut off
    cases between with
    | nil => exact absurd (Prod.mk.inj (List.cons.inj hsplit).1).1 hne
    | cons c between =>
      obtain ⟨-, rfl⟩ := List.cons.inj hsplit
      have hinner : some w ∉ (inner ++ between).map (·.2.tag) := fun hmem => by
        obtain ⟨d, hd, hdtag⟩ := List.mem_map.mp hmem
        refine hothers d ?_ hdtag
        rcases List.mem_append.mp hd with hd | hd
        · exact List.mem_append_left _ hd
        · exact List.mem_append_right _ (List.mem_cons_of_mem _ hd)
      rw [Tally.after_endTag (p := (inner ++ between).map (·.2.tag)) (q := outer'.map (·.2.tag))
        (by simp [htag]) hinner]
      refine .inl ?_
      rw [htally]
      rfl
  · -- what ends is inside the element
    cases between with
    | nil => exact absurd (Prod.mk.inj (List.cons.inj hsplit).1).1.symm hne
    | cons c between =>
      obtain ⟨rfl, rfl⟩ := List.cons.inj hsplit
      rw [Tally.after_endTag (p := inner'.map (·.2.tag)) (q := (between ++ outer).map (·.2.tag))
        (by simp [htag]) (by simpa [eq_comm] using hothers)]
      exact .inr ⟨between, outer, e, hopened', hnamed, by rw [htally]⟩

theorem Without.stray (hopened : b.opened = inner ++ (id, e) :: outer) (hnamed : e.tag.isSome = true)
    (hnone : some w ∉ b.tally.tags) (hopened' : b'.opened = b.opened)
    (htally : b'.tally = b.tally.after .endTagName w) :
    Without id b' (Tally.after
      ⟨(inner ++ outer).map (·.2.tag), b.tally.unclosed - 1, b.tally.unmatched⟩ .endTagName w) := by
  have hnone' : some w ∉ (inner ++ outer).map (·.2.tag) := fun hmem => hnone (by
    rw [tally, hopened]
    simp only [List.map_append, List.mem_append, List.map_cons, List.mem_cons] at hmem ⊢
    exact hmem.imp_right .inr)
  rw [Tally.after_endTag_of_not_mem hnone] at htally
  rw [Tally.after_endTag_of_not_mem hnone']
  exact .inr ⟨inner, outer, e, hopened'.trans hopened, hnamed, by rw [htally]⟩

end without

theorem Without.step (h : Without id b n) (hacts : Acts s b t b')
    (hs : ∀ id e, (id, e) ∈ b.opened →
      e.startOpen.isSome = true ∧ e.endOpen = none ∧ e.selfClosed = false)
    (hopen : ∀ e, b'.core id = some e → e.closed = false) :
    Without id b' (n.after t.kind (t.written s)) := by
  have htally := hacts.tally hs
  rcases h with rfl | ⟨inner, outer, e, hopened, hnamed, rfl⟩
  · rw [Tally.after_less, ← htally]
    exact .inl rfl
  cases hacts with
  | quiet hk hq =>
    rw [Tally.after_of_not_pairs hk]
    exact .inr ⟨inner, outer, e, hq.opened.trans hopened, hnamed, by rw [hq.tally]⟩
  | @opens hk _ hopened' =>
    rw [hk] at htally ⊢
    refine .inr ⟨_ :: inner, outer, e, by rw [hopened', hopened]; rfl, hnamed, ?_⟩
    rw [htally]
    rfl
  | @names e' outer' hk _ _ _ hbefore hunnamed hopened' =>
    rw [hk] at htally ⊢
    cases inner with
    | nil =>
      obtain ⟨heq, -⟩ := List.cons.inj (hopened.symm.trans hbefore)
      obtain ⟨-, rfl⟩ := Prod.mk.inj heq
      rw [hunnamed] at hnamed
      cases hnamed
    | cons c inner =>
      obtain ⟨-, rfl⟩ := List.cons.inj (hopened.symm.trans hbefore)
      refine .inr ⟨_ :: inner, outer, e, hopened', hnamed, ?_⟩
      rw [htally]
      refine Tally.ext rfl ?_ rfl
      show b.tally.unclosed - 1 + 1 = b.tally.unclosed + 1 - 1
      ring
  | @closes e' outer' hk _ _ hbefore hopened' hcore =>
    rw [hk] at htally ⊢
    cases inner with
    | nil =>
      obtain ⟨heq, -⟩ := List.cons.inj (hopened.symm.trans hbefore)
      obtain ⟨rfl, -⟩ := Prod.mk.inj heq
      cases hopen _ hcore
    | cons c inner =>
      obtain ⟨-, rfl⟩ := List.cons.inj (hopened.symm.trans hbefore)
      have htags : b.tally.tags.head? = some c.2.tag := by rw [tally, hopened]; rfl
      refine .inr ⟨inner, outer, e, hopened', hnamed, ?_⟩
      rw [htally]
      refine Tally.ext rfl ?_ rfl
      simp only [Tally.after, htags, List.cons_append, List.map_cons, List.head?_cons]
      ring
  | @ends _ _ _ a _ hk _ _ hbefore _ hothers htag hopened' hcore =>
    have hne : id ≠ a := by
      rintro rfl
      cases hopen _ hcore
    rw [hk] at htally ⊢
    exact .ends hopened hnamed hbefore hne hothers htag hopened' htally
  | stray _ hk _ _ hothers hopened' =>
    rw [hk] at htally ⊢
    exact .stray hopened hnamed (not_mem_tags hothers) hopened' htally

/-- Along a reading behind which the element still lacks its end. -/
theorem Without.behind (h : Without id b n) (hf : Follows s x b) (hl : Leads s x l y)
    (hopen : ∀ e, (Builder.behind s l b).core id = some e → e.closed = false) :
    Without id (Builder.behind s l b) (n.reads s l) := by
  induction hl generalizing b n with
  | here => exact h
  | @next x y l hlt hrest ih =>
    obtain ⟨hacts, hnext⟩ := hf.next hlt
    refine ih (h.step hacts hf.started fun e he => ?_) hnext hopen
    obtain ⟨e', he', hbecomes⟩ := hnext.behind_becomes hrest he
    by_contra hclosed
    obtain rfl := hbecomes.closed (Bool.not_eq_false _ ▸ hclosed)
    exact hclosed (hopen e' he')

theorem Without.counts (h : Without id b n) :
    n.unclosed = b.tally.unclosed - 1 ∧ n.unmatched = b.tally.unmatched := by
  rcases h with rfl | ⟨inner, outer, e, -, -, rfl⟩ <;> exact ⟨rfl, rfl⟩

end Builder

end XmlAssist

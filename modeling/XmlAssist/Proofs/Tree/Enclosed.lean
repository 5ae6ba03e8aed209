import XmlAssist.Proofs.Lexer.TagOpen
import XmlAssist.Proofs.Tree.Keeping
import XmlAssist.Proofs.Tree.Sections

/-!
# Comments and CDATA sections as they are written

The node of a comment or a CDATA section starts with the literal that opens it and ends with the first
literal behind it that closes one; it is open if there is none (`Document.parse_enclosed`). Behind each
token this holds of the sections that were left, and the one that is open looks for its end from where
the lexer is (`Builder.Enclosures`).
-/

namespace XmlAssist

open Node
open Text (size isBoundary startsAt bytesOf)
open Lexer (Leads Reads Falls)

/-- The comment or CDATA section that the node is. -/
def Node.Kind.enclosed? : Kind → Option (Section × Enclosed)
  | .comment c => some (.comment, c)
  | .cdata c => some (.cdata, c)
  | _ => none

variable {s : String} {x y : Lexer} {b b' : Builder} {t : Token} {n m : Node} {k : Section} {c : Enclosed}
variable {id : Nat} {kind : Kind}

namespace Node.Kind

theorem section?_of_enclosed (h : kind.enclosed? = some (k, c)) :
    kind.section? = some k ∧ k ≠ .instruction ∧ ∀ a, kind ≠ .attribute a := by
  cases kind <;> cases h <;> exact ⟨rfl, by rintro ⟨⟩, by rintro _ ⟨⟩⟩

theorem enclosed_of_section? (h : kind.section? = some k) (hk : k ≠ .instruction) :
    ∃ c, kind.enclosed? = some (k, c) := by
  cases kind with
  | comment c | cdata c => exact ⟨c, by rw [← Option.some.inj h]; rfl⟩
  | instruction => exact absurd (Option.some.inj h).symm hk
  | _ => cases h

theorem openSection?_of_enclosed (h : kind.enclosed? = some (k, c)) :
    kind.openSection? = if c.closed then none else some k := by
  cases kind <;> cases h <;> rfl

end Node.Kind

/-! ## Where the end of a section is -/

namespace Section

theorem find?_of_stands {i : Nat} (h : startsAt s i (bytesOf k.closing) = true) :
    Text.find? (bytesOf k.closing) s i = some i := by rw [Text.find?, if_pos h]

theorem find?_at_end (k : Section) : Text.find? (bytesOf k.closing) s (size s) = none := by
  have hnot : startsAt s (size s) (bytesOf k.closing) ≠ true := fun h =>
    Nat.lt_irrefl _ (k.lt_size_of_closing h)
  rw [Text.find?, if_neg hnot, if_neg (Nat.lt_irrefl _)]

/-- The end of the section is looked for from behind its opening literal. -/
def stop? (k : Section) (s : String) (start : Nat) : Option Nat :=
  Text.find? (bytesOf k.closing) s (start + size k.opening)

end Section

namespace Lexer

theorem stands_of_first (hc : x.Consistent) (h : (lex s x).kind = k.first) :
    startsAt s x.pos (bytesOf k.opening) = true ∧ (lex s x).lexer.pos = x.pos + size k.opening := by
  obtain ⟨o, ho, hopens⟩ := opens_lex hc (by rw [h]; cases k <;> rfl)
  have hlit : ∀ o ∈ contentOpeners ++ dtdOpeners, ∀ k : Section, o.2.1 = k.first → o.1 = k.opening := by
    intro o ho k
    revert o
    cases k <;> decide
  have hsame := hlit o ho k (hopens.kind.symm.trans h)
  exact ⟨hsame ▸ hopens.stands, hsame ▸ hopens.stop⟩

end Lexer

namespace Builder

/-! ## The tokens of a section -/

section token
variable (h : (b.kindOf b.current).enclosed? = some (k, c))
variable (s : String) (i j : Nat) (fault : Option Token.Fault) (inDtd : Bool)
include h

theorem step_inside : ∃ kind, kind.enclosed? = some (k, { c with content := some ⟨i, j⟩ }) ∧
    step s b ⟨k.inside, i, j, fault⟩ inDtd = b.update b.current kind j := by
  cases hk : b.kindOf b.current <;> rw [hk] at h <;> cases h
  · exact ⟨.comment _, rfl, step_text_of_comment hk (.inl rfl)⟩
  · exact ⟨.cdata _, rfl, step_text_of_cdata hk (.inr rfl)⟩

theorem step_last : ∃ kind, kind.enclosed? = some (k, { c with closed := true }) ∧
    step s b ⟨k.last, i, j, fault⟩ inDtd = (b.update b.current kind j).leave := by
  cases hk : b.kindOf b.current <;> rw [hk] at h <;> cases h
  · exact ⟨.comment _, rfl, step_close_of_comment hk (.inl rfl)⟩
  · exact ⟨.cdata _, rfl, step_close_of_cdata hk (.inr rfl)⟩

end token

theorem enclosed?_of_plain (h : kind.Plain) : kind.enclosed? = none := by
  cases kind <;> first | rfl | exact h.elim

theorem new_enclosed {i j : Nat} {fault : Option Token.Fault} {inDtd : Bool} {kind : Token.Kind}
    (hid : b.nodes.size ≤ id) (hn : (step s b ⟨kind, i, j, fault⟩ inDtd).nodes[id]? = some n)
    (hc : n.kind.enclosed? = some (k, c)) : kind = k.first ∧ n.span = ⟨i, j⟩ ∧ c.closed = false := by
  have hkind := kindOf_eq hn
  have hplain {b'' : Builder} {kind' : Kind} (hr : Retains b b'')
      (hn : (b''.openNode kind' ⟨i, j⟩).nodes[id]? = some n) : n.kind = kind' ∧ n.span = ⟨i, j⟩ := by
    have hk := kindOf_eq hn
    rw [kindOf_openNode_eq] at hk
    split at hk
    · rename_i hlast
      have hget := getElem?_openNode b'' kind' ⟨i, j⟩
      rw [openNode_current, ← hlast, hn] at hget
      exact ⟨hk.symm, by rw [Option.some.inj hget]⟩
    · have hold := hr.new id hid
      rw [hk] at hold
      rw [enclosed?_of_plain hold] at hc
      cases hc
  have hbefore := retains_beforeMarkup b i inDtd
  by_cases hopens : kind.opensSection = true
  · cases kind with
    | commentOpen =>
      rw [step_commentOpen] at hn
      obtain ⟨hk, hspan⟩ := hplain hbefore hn
      rw [hk] at hc
      obtain ⟨rfl, rfl⟩ := Prod.mk.inj (Option.some.inj hc)
      exact ⟨rfl, hspan, rfl⟩
    | cdataOpen =>
      rw [step_cdataOpen] at hn
      obtain ⟨hk, hspan⟩ := hplain hbefore hn
      rw [hk] at hc
      obtain ⟨rfl, rfl⟩ := Prod.mk.inj (Option.some.inj hc)
      exact ⟨rfl, hspan, rfl⟩
    | instructionOpen =>
      rw [step_instructionOpen] at hn
      rw [(hplain hbefore hn).1] at hc
      cases hc
    | instructionTarget =>
      have hsize : (step s b ⟨.instructionTarget, i, j, fault⟩ inDtd).nodes.size = b.nodes.size := by
        by_cases hp : ∃ p, b.kindOf b.current = .instruction p
        · obtain ⟨p, hp⟩ := hp
          rw [step_instructionTarget hp, size_update]
        · rw [step_instruction_of_ne (not_exists.mp hp) (.inr (.inl rfl))]
      exact absurd (lt_size_of_getElem? hn) (by omega)
    | _ => cases hopens
  · have hnew := (changes_step s b ⟨kind, i, j, fault⟩ inDtd).new id hid
    have hsection := (Kind.section?_of_enclosed hc).1
    rw [hkind] at hnew
    generalize n.kind = k' at *
    cases hnew with
    | inner _ hshut => cases (hshut (Bool.eq_false_iff.mpr hopens)).symm.trans hsection
    | _ => cases hsection

/-! ## Along the tokens -/

/-- The comment or CDATA section stands in the text as it is written: it has been left behind the first
literal that ends it, or the lexer is still to find that literal. -/
structure Written (s : String) (x : Lexer) (b : Builder) (id : Nat) (n : Node) (k : Section) (c : Enclosed) :
    Prop where
  opens : startsAt s n.span.start (bytesOf k.opening) = true
  closed : c.closed = true → ¬ b.Around id ∧
    ∃ j, k.stop? s n.span.start = some j ∧ n.span.stop = j + size k.closing
  unclosed : c.closed = false → k.stop? s n.span.start = Text.find? (bytesOf k.closing) s x.pos

/-- The comments and the CDATA sections stand in the text as they are written. -/
def Enclosures (s : String) (x : Lexer) (b : Builder) : Prop := ∀ (id : Nat) (n : Node) (k : Section)
  (c : Enclosed), b.nodes[id]? = some n → n.kind.enclosed? = some (k, c) → Written s x b id n k c

theorem exists_enclosed {inDtd : Bool} (hn : b.nodes[id]? = some n)
    (hm : (step s b t inDtd).nodes[id]? = some m) (hc : m.kind.enclosed? = some (k, c)) :
    ∃ c', n.kind.enclosed? = some (k, c') := by
  obtain ⟨hsection, hk, -⟩ := Kind.section?_of_enclosed hc
  have hold := (changes_step s b t inDtd).old id (lt_size_of_getElem? hn)
  rw [kindOf_eq hn, kindOf_eq hm] at hold
  refine Kind.enclosed_of_section? ?_ hk
  generalize n.kind = k₀ at *
  generalize m.kind = k₁ at *
  cases hold with
  | inner _ _ hsame => exact hsame ▸ hsection
  | _ => cases hsection

section current
variable (hf : Follows s x b) (hx : x.mode.section? = some k)
variable (hn : b.nodes[b.current]? = some n) (hc : n.kind.enclosed? = some (k, c))
include hf hx hn hc

theorem Follows.stop_le_of_enclosed : n.span.stop ≤ x.pos ∧ b.parentOf b.current < b.current := by
  have hk := (Kind.section?_of_enclosed hc).2.1
  have hkind : n.kind ≠ .document ∧ n.isDoctype = false := by
    cases hd : n.kind <;> simp_all [Kind.enclosed?, isDoctype, Node.doctype?]
  have hbounds (hnested : Nested s x.dtdFile.toNat b.nodes b.current x.pos) :
      n.span.stop ≤ x.pos ∧ b.parentOf b.current < b.current := by
    have htop := hnested.top_lt hn hkind.1 hkind.2
    obtain ⟨-, p, hp, hlt⟩ := hnested.arena.inner hn (Nat.zero_lt_of_lt htop)
    exact ⟨(hnested.inner hn htop).2, parentOf_eq (parentAt_eq_some.mpr ⟨n, hn, hp⟩) ▸ hlt⟩
  cases hmode : x.mode <;> rw [hmode] at hx <;> cases hx
  · exact hbounds (hf.fits.inEnclosed (.inl hmode)).1.nested
  · exact hbounds (hf.fits.inEnclosed (.inr hmode)).1.nested
  · exact absurd rfl hk
  · exact absurd rfl hk

theorem Written.step_current (h : Written s x b b.current n k c) (hopen : c.closed = false) (hlt : x.pos < size s)
    (hf' : Follows s (x.step s).2 b') (hb' : b' = step s b (x.step s).1 (x.step s).2.inDtd) :
    ∃ m c', b'.nodes[b.current]? = some m ∧ m.kind.enclosed? = some (k, c') ∧
      Written s (x.step s).2 b' b.current m k c' := by
  have hfind := h.unclosed hopen
  obtain ⟨hstop, hparent⟩ := hf.stop_le_of_enclosed hx hn hc
  rw [Lexer.step_eq_lex hf.boundary hlt] at hb' hf' ⊢
  have hcurrent : (b.kindOf b.current).enclosed? = some (k, c) := by rw [kindOf_eq hn, hc]
  have hupdate {kind : Kind} {stop : Nat} : (b.update b.current kind stop).nodes[b.current]? =
      some { n with kind, span := n.span.extendTo stop } := by
    simp only [update, modify, Array.getElem?_modify, if_pos, hn, Option.map_some]
  cases Lexer.lex_section hx hlt with
  | before honly => exact absurd honly (Kind.section?_of_enclosed hc).2.1
  | last hstands hkind _ hpos =>
    rw [hkind] at hb'
    obtain ⟨kind, hclosed, hstep⟩ := step_last hcurrent s x.pos (Lexer.lex s x).lexer.pos
      (Lexer.lex s x).fault (Lexer.lex s x).lexer.inDtd
    rw [hstep] at hb'
    subst hb'
    refine ⟨_, _, hupdate, hclosed, h.opens, fun _ => ⟨fun haround => ?_, x.pos, ?_, ?_⟩,
      fun hnot => by cases hnot⟩
    · have hout := le_of_mem_chain (hf'.fits.mem_chain_of_around haround)
      have hleft : (b.update b.current kind (Lexer.lex s x).lexer.pos).leave.current = b.parentOf b.current :=
        parentOf_modify (f := fun n => { n with kind, span := n.span.extendTo (Lexer.lex s x).lexer.pos })
          (fun _ _ => rfl) b.current
      omega
    · exact hfind.trans (Section.find?_of_stands hstands)
    · exact (Nat.max_eq_right (by omega)).trans hpos
  | inside _ hkind _ hfound =>
    rw [hkind] at hb'
    obtain ⟨kind, hsame, hstep⟩ := step_inside hcurrent s x.pos (Lexer.lex s x).lexer.pos
      (Lexer.lex s x).fault (Lexer.lex s x).lexer.inDtd
    rw [hstep] at hb'
    subst hb'
    refine ⟨_, _, hupdate, hsame, h.opens, fun hclosed => ?_, fun _ => ?_⟩
    · cases hopen.symm.trans hclosed
    · exact (hfind.trans hfound).trans (Section.find?_of_stands (Text.startsAt_of_find? hfound).2).symm
  | cut _ hkind _ hmissing hpos =>
    rw [hkind] at hb'
    obtain ⟨kind, hsame, hstep⟩ := step_inside hcurrent s x.pos (Lexer.lex s x).lexer.pos
      (Lexer.lex s x).fault (Lexer.lex s x).lexer.inDtd
    rw [hstep] at hb'
    subst hb'
    refine ⟨_, _, hupdate, hsame, h.opens, fun hclosed => ?_, fun _ => ?_⟩
    · cases hopen.symm.trans hclosed
    · exact (hfind.trans hmissing).trans (hpos ▸ (Section.find?_at_end k).symm)

end current

theorem Enclosures.step (h : Enclosures s x b) (hf : Follows s x b) (hs : Sections x b) (ha : b.Attributive)
    (hlt : x.pos < size s) : Enclosures s (x.step s).2 (step s b (x.step s).1 (x.step s).2.inDtd) := by
  intro id m k c hm hc
  by_cases hid : id < b.nodes.size
  · have hn := Array.getElem?_eq_getElem hid
    obtain ⟨c', hc'⟩ := exists_enclosed hn hm hc
    have hold := h id _ k c' hn hc'
    have hopen := hs.lacks id
    rw [kindOf_eq hn, Kind.openSection?_of_enclosed hc'] at hopen
    cases hclosed : c'.closed with
    | true =>
      -- it was left before, and the token does not come back to it
      have hattr : b.openAttribute ≠ some id := fun ho => by
        obtain ⟨a, hattr⟩ := ha id ho
        exact (Kind.section?_of_enclosed hc').2.2 a ((kindOf_eq hn).symm.trans hattr)
      obtain ⟨haround, hwritten⟩ := hold.closed hclosed
      have hspares := spares_step s b (x.step s).1 (x.step s).2.inDtd
      have hsame := (hspares.node id hid haround hattr).symm.trans hm
      obtain rfl := Option.some.inj (hn.symm.trans hsame)
      obtain rfl := (Prod.mk.inj (Option.some.inj (hc'.symm.trans hc))).2
      refine ⟨hold.opens, fun _ => ⟨fun hback => ?_, hwritten⟩, fun hnot => ?_⟩
      · exact (hspares.around id hback).elim haround (Nat.not_le_of_lt hid)
      · cases hclosed.symm.trans hnot
    | false =>
      -- it is the section that the lexer is in
      rw [hclosed, if_neg (by decide)] at hopen
      split at hopen
      · rename_i hcurrent
        subst hcurrent
        obtain ⟨m', c'', hm', hc'', hwritten⟩ :=
          hold.step_current hf hopen.symm hn hc' hclosed hlt (hf.next hlt).2 rfl
        obtain rfl := Option.some.inj (hm.symm.trans hm')
        obtain rfl := (Prod.mk.inj (Option.some.inj (hc.symm.trans hc''))).2
        exact hwritten
      · cases hopen
  · rw [Lexer.step_eq_lex hf.boundary hlt] at hm ⊢
    obtain ⟨hkind, hspan, hopen⟩ := new_enclosed (Nat.le_of_not_lt hid) hm hc
    obtain ⟨hstands, hpos⟩ := Lexer.stands_of_first hf.consistent hkind
    refine ⟨by rw [hspan]; exact hstands, fun hclosed => ?_, fun _ => ?_⟩
    · cases hopen.symm.trans hclosed
    · rw [Section.stop?, hspan, ← hpos]

/-- **The sections stand as they are written**, all along the tokens of a text. -/
theorem Follows.enclosures_behind {l : List (Token × Lexer)} (h : Follows s x b) (hs : Sections x b)
    (ha : b.Attributive) (he : Enclosures s x b) (hl : Leads s x l y) : Enclosures s y (Builder.behind s l b) := by
  induction hl generalizing b with
  | here => exact he
  | next hlt _ ih =>
    exact ih (h.next hlt).2 (h.sections_behind hs (.one hlt)) (ha.step _ _) (he.step h hs ha hlt)

theorem enclosures_start (s : String) (dtdFile : Bool) :
    Enclosures s (if dtdFile then Lexer.declarations else Lexer.document) (start s dtdFile) := by
  intro id n k c hn hc
  have hkind := kindOf_eq hn
  cases dtdFile with
  | false =>
    rcases id with _ | id
    · rw [← hkind] at hc
      cases hc
    · exact absurd (lt_size_of_getElem? hn) (Nat.not_lt.mpr (Nat.succ_le_succ (Nat.zero_le id)))
  | true =>
    rcases id with _ | _ | id
    · rw [← hkind] at hc
      cases hc
    · rw [← hkind] at hc
      cases hc
    · exact absurd (lt_size_of_getElem? hn)
        (Nat.not_lt.mpr (Nat.succ_le_succ (Nat.succ_le_succ (Nat.zero_le id))))

theorem Enclosures.atEnd (h : Enclosures s x b) (ha : b.Attributive) (hend : x.pos = size s)
    (hn : (atEnd s b).nodes[id]? = some n) (hc : n.kind.enclosed? = some (k, c)) :
    startsAt s n.span.start (bytesOf k.opening) = true ∧
      if c.closed then ∃ j, k.stop? s n.span.start = some j ∧ n.span.stop = j + size k.closing
      else k.stop? s n.span.start = none := by
  have hretains := retains_atEnd s b
  have hspares := spares_atEnd s b
  have hlt : id < b.nodes.size := by
    refine Nat.lt_of_not_le fun hge => ?_
    have hplain := hretains.new id hge
    rw [kindOf_eq hn] at hplain
    rw [enclosed?_of_plain hplain] at hc
    cases hc
  have hget := Array.getElem?_eq_getElem hlt
  generalize b.nodes[id] = m at hget
  have hkind : m.kind = n.kind := by rw [← kindOf_eq hget, ← hretains.old id hlt, kindOf_eq hn]
  have hwritten := h id m k c hget (hkind ▸ hc)
  obtain ⟨n', hn', -, hstart, -⟩ := hspares.fixed id m hget
  obtain rfl := Option.some.inj (hn.symm.trans hn')
  rw [hstart]
  refine ⟨hwritten.opens, ?_⟩
  split
  · rename_i hclosed
    have hattr : b.openAttribute ≠ some id := fun ho => by
      obtain ⟨a, hattr⟩ := ha id ho
      exact (Kind.section?_of_enclosed hc).2.2 a (hkind.symm.trans ((kindOf_eq hget).symm.trans hattr))
    obtain ⟨haround, hstop⟩ := hwritten.closed hclosed
    have hsame := (hspares.node id hlt haround hattr).symm.trans hn
    obtain rfl := Option.some.inj (hget.symm.trans hsame)
    exact hstop
  · rename_i hopen
    rw [hwritten.unclosed (Bool.eq_false_iff.mpr hopen), hend, Section.find?_at_end]

end Builder

/-- **A comment or a CDATA section is written as its node says**, whatever the text. -/
theorem Document.parse_enclosed (text uri : String) (hn : (parse text uri).node? id = some n)
    (hc : n.kind.enclosed? = some (k, c)) : startsAt text n.span.start (bytesOf k.opening) = true ∧
      if c.closed then ∃ j, k.stop? text n.span.start = some j ∧ n.span.stop = j + Text.size k.closing
      else k.stop? text n.span.start = none := by
  have hf := Builder.follows_start text (isDtdUri uri)
  obtain ⟨y, hy, hend⟩ := Lexer.Leads.exists_end text _ hf.boundary
  have hwritten := hf.enclosures_behind (Builder.sections_start text (isDtdUri uri))
    (Builder.attributive_start text (isDtdUri uri)) (Builder.enclosures_start text (isDtdUri uri)) hy
  have hnodes : (parse text uri).nodes = (Builder.atEnd text (Builder.behind text
      ((if isDtdUri uri then Lexer.declarations else Lexer.document).tokens text)
      (Builder.start text (isDtdUri uri)))).nodes := by
    rw [← Builder.run_eq_behind hy hf.boundary hend]
    exact Builder.build_eq text (isDtdUri uri)
  rw [node?, hnodes] at hn
  exact hwritten.atEnd ((Builder.attributive_start text (isDtdUri uri)).behind _) hend hn hc

end XmlAssist

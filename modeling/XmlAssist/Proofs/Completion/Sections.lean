import XmlAssist.Proofs.Completion.Edits
import XmlAssist.Proofs.Lexer.Restart
import XmlAssist.Proofs.Tree.Before
import XmlAssist.Proofs.Tree.Enclosed
import XmlAssist.Proofs.Written.Scan

/-!
# Inside comments and CDATA sections

A cursor inside a comment or a CDATA section is behind that node, so that the section is read again from its
start. Nothing is completed there (`Service.complete_inside`), except where the section ends with the text
and the cursor is in the literal that ends it: behind that literal the content of the document would go on,
and what is proposed there is proposed for the cursor.
-/

namespace XmlAssist

open Node
open Text (size startsAt bytesOf isBoundary)

variable {s : String} {x y : Lexer} {k : Section} {c : Enclosed} {n : Node} {id i offset : Nat} {t : Token}

namespace Lexer

/-! ## A section is read again -/

/-- The mode behind the literal that starts the section. -/
def sectionMode : Section → Mode
  | .comment => .inComment
  | .cdata => .inCData
  | .instruction => .afterInstructionOpen

theorem section?_sectionMode (k : Section) : (sectionMode k).section? = some k := by
  cases k <;> rfl

/-- The lexer behind the literal that starts a section at `i`. -/
def insideSection (k : Section) (i : Nat) : Lexer := { pos := i + size k.opening, mode := sectionMode k }

theorem isBoundary_opening (h : startsAt s i (bytesOf k.opening) = true) : isBoundary s i = true := by
  obtain ⟨l, hl⟩ : ∃ l, bytesOf k.opening = 0x3C :: l := by cases k <;> exact ⟨_, rfl⟩
  rw [hl, startsAt, Bool.and_eq_true, beq_iff_eq] at h
  exact Text.isBoundary_of_lt h.1 (by decide)

theorem run_eq_cons (hx : isBoundary s x.pos = true) (hlt : x.pos < size s) :
    (x.step s).1.kind ≠ .eos ∧ x.run s = x.step s :: (x.step s).2.run s := by
  have hkind : (x.step s).1.kind ≠ .eos := by
    rw [step_eq_lex hx hlt]
    exact (moves_lex hx hlt).kind
  exact ⟨hkind, run_of_ne hkind⟩

theorem run_restart_section (hk : k ≠ .instruction) (h : startsAt s i (bytesOf k.opening) = true) :
    isBoundary s (insideSection k i).pos = true ∧ (restart s i .content).run s =
      (⟨k.first, i, i + size k.opening, none⟩, insideSection k i) :: (insideSection k i).run s := by
  obtain ⟨r, hr⟩ : ∃ r, Text.rest s i = bytesOf k.opening ++ r := by
    rw [Text.startsAt_eq] at h
    exact (List.isPrefixOf_iff_prefix.mp h).imp fun _ => Eq.symm
  have hlt : i < size s := lt_size_of_literal hr (by cases k <;> decide)
  have hi : isBoundary s (cursor .content i false).pos = true := isBoundary_opening h
  have hlex : lex s (cursor .content i false) = ⟨k.first, insideSection k i, none⟩ := by
    cases k with
    | comment => exact lex_commentOpen hr
    | cdata => exact lex_cdataOpen hr
    | instruction => exact absurd rfl hk
  have hrestart : restart s i .content = cursor .content i false := by
    rw [restart, Nat.min_eq_left (Nat.le_of_lt hlt)]
    rfl
  have hnext := (moves_lex hi hlt).ahead.2
  have hrun := (run_eq_cons hi hlt).2
  rw [step_eq_lex hi hlt, hlex] at hrun
  rw [hlex] at hnext
  exact ⟨hnext, hrestart ▸ hrun⟩

theorem lex_enclosed (hk : k ≠ .instruction) (hmode : x.mode = sectionMode k) (hlt : x.pos < size s) :
    lex s x = delimited k.closing k.inside k.last k.fault s x := by
  rw [lex, if_neg (Nat.not_le_of_lt hlt), hmode]
  cases k with
  | comment | cdata => rfl
  | instruction => exact absurd rfl hk

theorem lex_inside (hk : k ≠ .instruction) (hmode : x.mode = sectionMode k) (hlt : x.pos < size s)
    (h : startsAt s x.pos (bytesOf k.closing) = false) : ∃ fault, lex s x = x.emit k.inside
      ((Text.find? (bytesOf k.closing) s x.pos).getD (size s)) x.mode fault := by
  rw [lex_enclosed hk hmode hlt, delimited, literal?, h, if_neg (by decide), until?]
  cases Text.find? (bytesOf k.closing) s x.pos <;> exact ⟨_, rfl⟩

theorem run_at_end (h : size s ≤ x.pos) : x.run s = [(⟨.eos, x.pos, x.pos, none⟩, x)] := by
  rw [run_of_eq (by rw [step_at_end h]), step_at_end h]

end Lexer

namespace Completion

variable {r : Request} {cancel : Cancel} {rest : List (Token × Lexer)}

/-! ## The cursor in a section -/

theorem locateIn_run_at_end (h : size s ≤ x.pos) (hx : x.mode ≠ .content) :
    locateIn r .never (x.run s) = (none, r, .never) := by
  rw [Lexer.run_at_end h, locateIn, if_pos rfl, if_neg hx]

theorem locateIn_behind (hx : isBoundary s x.pos = true) (hlt : x.pos < size s) (hbehind : r.offset < x.pos) :
    (locateIn r .never (x.run s)).1 = none := by
  obtain ⟨hkind, hrun⟩ := Lexer.run_eq_cons hx hlt
  have hstart : (x.step s).1.start = x.pos := by rw [Lexer.step_eq_lex hx hlt]
  rw [hrun, locateIn, if_neg hkind, if_pos (hstart ▸ hbehind)]

theorem locateIn_pass (h : t.kind ≠ .eos) (hle : t.start ≤ r.offset)
    (hpass : ∀ next, examine r t x.mode next = .pass) :
    locateIn r .never ((t, x) :: rest) = locateIn r .never rest := by
  rw [locateIn, if_neg h, if_neg (Nat.not_lt.mpr hle)]
  dsimp only [Cancel.poll]
  rw [if_neg (by decide), hpass]

theorem locateIn_cancel (r : Request) (cancel : Cancel) (l : List (Token × Lexer)) :
    (locateIn r cancel l).1 = none ∨ (locateIn r cancel l).1 = (locateIn r .never l).1 := by
  induction l generalizing r cancel with
  | nil => exact .inl rfl
  | cons p rest ih =>
    obtain ⟨t, x⟩ := p
    rw [locateIn, locateIn]
    split
    · exact .inr rfl
    split
    · exact .inl rfl
    have hnever : Cancel.never.poll = (false, .never) := rfl
    rw [hnever]
    dsimp only
    split
    · exact .inl rfl
    rw [if_neg (by decide)]
    split
    · exact .inr rfl
    · exact ih _ _
    · exact ih _ _
    · exact ih _ _

theorem locate_cancel (r : Request) (cancel : Cancel) :
    (locate r cancel).1 = none ∨ (locate r cancel).1 = (locate r .never).1 := by
  unfold locate
  dsimp only
  split
  · exact .inl rfl
  · exact locateIn_cancel r cancel _

/-- The section ends with the text, and the cursor is in the literal that ends it. -/
def AtEnd (s : String) (k : Section) (c : Enclosed) (stop offset : Nat) : Prop :=
  c.closed = true ∧ stop = size s ∧ stop ≤ offset + size k.closing

instance (stop : Nat) : Decidable (AtEnd s k c stop offset) :=
  inferInstanceAs (Decidable (c.closed = true ∧ stop = size s ∧ stop ≤ offset + size k.closing))

section token
variable {fault : Option Token.Fault} {j : Nat} {m : Lexer.Mode} {next : Option Token}

theorem examine_first (hk : k ≠ .instruction) : examine r ⟨k.first, i, j, fault⟩ m next = .pass := by
  cases k with
  | comment | cdata => rfl
  | instruction => exact absurd rfl hk

theorem examine_inside : examine r ⟨k.inside, i, j, fault⟩ m next = .pass := by cases k <;> rfl

theorem examine_last : examine r ⟨k.last, i, j, fault⟩ m next = .pass := by cases k <;> rfl

end token

section inside
variable (hk : k ≠ .instruction) (hmode : x.mode = Lexer.sectionMode k) (hdtd : x.inDtd = false)
variable (hx : isBoundary s x.pos = true)
include hk hmode hdtd hx

omit hk in
theorem locateIn_last (h : startsAt s x.pos (bytesOf k.closing) = true) (hin : r.offset < x.pos + size k.closing) :
    (locateIn r .never (x.run s)).1 =
      if x.pos ≤ r.offset ∧ x.pos + size k.closing = size s then some .content else none := by
  have hlt := k.lt_size_of_closing h
  by_cases hle : x.pos ≤ r.offset
  · obtain ⟨hkind, hrun⟩ := Lexer.run_eq_cons hx hlt
    have hnext := (Lexer.moves_lex hx hlt).ahead.2
    rw [Lexer.step_eq_lex hx hlt, Lexer.lex_last (hmode ▸ Lexer.section?_sectionMode k) h] at hkind hrun
    rw [Lexer.lex_last (hmode ▸ Lexer.section?_sectionMode k) h] at hnext
    rw [hrun, locateIn_pass hkind hle fun _ => examine_last]
    have hcontent : x.contentMode = .content := by rw [Lexer.contentMode, hdtd]; rfl
    by_cases hend : x.pos + size k.closing = size s
    · rw [if_pos ⟨hle, hend⟩, Lexer.run_at_end (Nat.le_of_eq hend.symm), locateIn, if_pos rfl]
      exact if_pos hcontent
    · have hle' : x.pos + size k.closing ≤ size s := Text.le_size_of_isBoundary hnext
      rw [if_neg fun h => hend h.2]
      exact locateIn_behind hnext (Nat.lt_of_le_of_ne hle' hend) hin
  · rw [if_neg fun h => hle h.1]
    exact locateIn_behind hx hlt (Nat.lt_of_not_le hle)

/-- From inside a section the cursor is found if it is in the literal that ends the section and the text. -/
theorem locateIn_section (hin : ∀ j ∈ Text.find? (bytesOf k.closing) s x.pos, r.offset < j + size k.closing) :
    (locateIn r .never (x.run s)).1 =
      if ∃ j ∈ Text.find? (bytesOf k.closing) s x.pos, j ≤ r.offset ∧ j + size k.closing = size s then
        some .content
      else none := by
  have hcontent : x.mode ≠ .content := by
    rw [hmode]
    cases k <;> decide
  rcases Nat.lt_or_ge x.pos (size s) with hlt | hend
  · cases hstands : startsAt s x.pos (bytesOf k.closing) with
    | true =>
      have hfind := Section.find?_of_stands hstands
      rw [locateIn_last hmode hdtd hx hstands (hin _ hfind), hfind]
      simp
    | false =>
      by_cases hle : x.pos ≤ r.offset
      · obtain ⟨fault, hlex⟩ := Lexer.lex_inside hk hmode hlt hstands
        obtain ⟨hkind, hrun⟩ := Lexer.run_eq_cons hx hlt
        have hnext := (Lexer.moves_lex hx hlt).ahead.2
        rw [Lexer.step_eq_lex hx hlt, hlex] at hkind hrun
        rw [hlex] at hnext
        rw [hrun, locateIn_pass hkind hle fun _ => examine_inside]
        cases hfind : Text.find? (bytesOf k.closing) s x.pos with
        | some j =>
          rw [hfind] at hnext
          have hlast := locateIn_last (x := { x with pos := j }) (r := r) hmode hdtd hnext
            (Text.startsAt_of_find? hfind).2 (hin j hfind)
          exact hlast.trans (by simp)
        | none =>
          rw [if_neg (by simp)]
          exact congrArg Prod.fst (locateIn_run_at_end (x := { x with pos := size s }) (Nat.le_refl _) hcontent)
      · rw [if_neg, locateIn_behind hx hlt (Nat.lt_of_not_le hle)]
        rintro ⟨j, hfind, hj, -⟩
        exact hle (Nat.le_trans (Text.startsAt_of_find? hfind).1 hj)
  · have hpos : x.pos = size s := Nat.le_antisymm (Text.le_size_of_isBoundary hx) hend
    rw [locateIn_run_at_end hend hcontent, hpos, Section.find?_at_end, if_neg (by simp)]

end inside

theorem nodeBefore_eq {text uri : String} (hn : (Document.parse text uri).node? id = some n)
    (hc : n.kind.enclosed? = some (k, c)) (hstart : n.span.start < offset) (hstop : offset < n.span.stop) :
    (Document.parse text uri).nodeBefore offset = id := by
  have hcomplete := Document.complete_parse text uri
  have hleaf : n.isLeaf = true ∧ n.isOpenProlog = false ∧ n.isAttribute = false := by
    cases hk : n.kind <;> simp_all [Kind.enclosed?, isLeaf, isOpenProlog, isAttribute, Node.attribute?]
  have hspan := Document.span_eq hn
  have hmem := hcomplete.mem_chain_nodeBefore ⟨n, hn, hleaf.2.2⟩ (hspan ▸ hstart) (hspan ▸ Nat.le_of_lt hstop)
  by_contra hne
  obtain ⟨child, hchild, -⟩ := Document.exists_child_of_mem_chain hcomplete.arena
    (hcomplete.exists_nodeBefore offset) hmem (Ne.symm hne)
  have hchildren := (Document.leavesBut_parse text uri).leaf id n hn hleaf.1 hleaf.2.1
  have hmember := (hcomplete.arena.child hn).mpr hchild
  rw [hchildren] at hmember
  exact absurd hmember (Array.not_mem_empty _)

theorem locate_inside {text uri : String} (hdocument : r.document = Document.parse text uri)
    (hnode : r.node = (Document.parse text uri).nodeBefore r.offset)
    (hn : (Document.parse text uri).node? id = some n) (hc : n.kind.enclosed? = some (k, c))
    (hstart : n.span.start < r.offset) (hstop : r.offset < n.span.stop) :
    (locate r .never).1 = if AtEnd text k c n.span.stop r.offset then some .content else none := by
  have hk := (Kind.section?_of_enclosed hc).2.1
  have hkind : n.isDoctype = false ∧ n.declaration? = none := by
    cases hk : n.kind <;> simp_all [Kind.enclosed?, isDoctype, Node.doctype?, Node.declaration?]
  obtain ⟨hopens, hends⟩ := Document.parse_enclosed text uri hn hc
  obtain ⟨hinside, hrun⟩ := Lexer.run_restart_section hk hopens
  have hfind : k.stop? text n.span.start =
      Text.find? (bytesOf k.closing) text (Lexer.insideSection k n.span.start).pos := rfl
  have hsize : size k.closing = 3 := by
    cases k with
    | comment | cdata => rfl
    | instruction => exact absurd rfl hk
  have hplain : ¬ (n.isDoctype || n.declaration?.isSome) = true := by rw [hkind.1, hkind.2]; decide
  unfold locate
  rw [hdocument, hnode, nodeBefore_eq hn hc hstart hstop, Document.node_eq hn]
  dsimp only
  rw [if_neg hplain, show (Document.parse text uri).text = text from rfl, hrun,
    locateIn_pass (by cases k <;> rintro ⟨⟩) (Nat.le_of_lt hstart) fun _ => examine_first hk,
    locateIn_section (x := Lexer.insideSection k n.span.start) hk rfl rfl hinside ?_]
  · refine if_congr ?_ rfl rfl
    rw [← hfind]
    cases hclosed : c.closed with
    | true =>
      rw [hclosed, if_pos rfl] at hends
      obtain ⟨j, hj, hlast⟩ := hends
      simp only [hj, Option.mem_some_iff, exists_eq_left', AtEnd, hclosed, true_and]
      omega
    | false =>
      rw [hclosed, if_neg (by decide)] at hends
      simp [hends, AtEnd, hclosed]
  · rw [← hfind]
    intro j hj
    cases hclosed : c.closed with
    | true =>
      rw [hclosed, if_pos rfl] at hends
      obtain ⟨j', hj', hlast⟩ := hends
      obtain rfl := Option.some.inj (hj.symm.trans hj')
      exact hlast ▸ hstop
    | false =>
      rw [hclosed, if_neg (by decide)] at hends
      cases hj.symm.trans hends

end Completion

namespace Service

/-- **Nothing is completed inside comments and CDATA sections**, whatever the document, the settings and the
participants, except where the section ends with the text and the cursor is in the literal that ends it: there
what is content is completed. -/
theorem complete_inside (s : Service) (text uri : String) {position : Position}
    (hoffset : (Document.parse text uri).offsetAt position = .ok offset)
    (hn : (Document.parse text uri).node? id = some n) (hc : n.kind.enclosed? = some (k, c))
    (hstart : n.span.start < offset) (hstop : offset < n.span.stop) :
    (¬ Completion.AtEnd text k c n.span.stop offset → ∀ cancel, ∃ list,
        (s.complete (Document.parse text uri) position cancel).1 = .ok list ∧ list.items = []) ∧
      (Completion.AtEnd text k c n.span.stop offset → ∃ r,
        Completion.requestAt (Document.parse text uri) position s.settings = .ok r ∧
          (Completion.locate r .never).1 = some .content) := by
  obtain ⟨r, hrequest, hr⟩ := requestAt_eq hoffset s.settings
  have hlocate := Completion.locate_inside (r := r) (by rw [hr]) (by rw [hr]) hn hc (by rwa [hr]) (by rwa [hr])
  have hplace : r.offset = offset := by rw [hr]
  rw [hplace] at hlocate
  refine ⟨fun hnot cancel => ?_, fun hend => ⟨r, hrequest, hlocate.trans (if_pos hend)⟩⟩
  rw [if_neg hnot] at hlocate
  have hnone : (Completion.locate r cancel).1 = none := by
    rcases Completion.locate_cancel r cancel with h | h
    · exact h
    · exact h.trans hlocate
  simp only [complete, hrequest]
  generalize Completion.locate r cancel = located at hnone ⊢
  obtain ⟨spot, r', cancel'⟩ := located
  obtain rfl : spot = none := hnone
  exact ⟨_, rfl, rfl⟩

/-- In the middle of a comment. -/
theorem complete_inside_comment :
    ∃ list, (new.complete (Document.parse "<a><!-- x --></a>" "file:///t.xml") ⟨0, 8⟩ .never).1 = .ok list ∧
      list.items = [] := by
  have hoffset : (Document.parse "<a><!-- x --></a>" "file:///t.xml").offsetAt ⟨0, 8⟩ = .ok 8 := by decide +kernel
  have hnode : ((Document.parse "<a><!-- x --></a>" "file:///t.xml").node? 2).map (fun n => (n.span, n.kind)) =
      some (⟨3, 13⟩, .comment { content := some ⟨7, 10⟩, closed := true }) := by decide +kernel
  obtain ⟨n, hn, hpair⟩ := Option.map_eq_some_iff.mp hnode
  obtain ⟨hspan, hkind⟩ := Prod.mk.inj hpair
  refine (complete_inside new "<a><!-- x --></a>" "file:///t.xml" hoffset hn
    (k := .comment) (c := { content := some ⟨7, 10⟩, closed := true }) (by rw [hkind]; rfl)
    (by rw [hspan]; decide) (by rw [hspan]; decide)).1 ?_ .never
  rw [hspan]
  decide +kernel

def lastComment : String := "<!DOCTYPE a [<!ELEMENT a (b)><!ELEMENT b EMPTY>]><a><!-- x -->"

/-- In the literal that ends the comment, the children of the element around it are proposed. -/
theorem completed_in_comment : ¬ ∀ (s : Service) (text uri : String) (position : Position) (offset id : Nat)
    (n : Node) (k : Section) (c : Enclosed) (cancel : Cancel), s.HasOwnParticipants →
      (Document.parse text uri).isDtd = false → (Document.parse text uri).offsetAt position = .ok offset →
        (Document.parse text uri).node? id = some n → n.kind.enclosed? = some (k, c) →
          (∀ a ∈ (Document.parse text uri).ancestors id, ((Document.parse text uri).node a).isDoctype = false) →
            n.span.start < offset → offset < n.span.stop →
              ∃ list, (s.complete (Document.parse text uri) position cancel).1 = .ok list ∧ list.items = [] := by
  intro h
  have hnode : ((Document.parse lastComment "file:///t.xml").node? 5).map (fun n => (n.span, n.kind)) =
      some (⟨52, 62⟩, .comment { content := some ⟨56, 59⟩, closed := true }) := by decide +kernel
  obtain ⟨n, hn, hpair⟩ := Option.map_eq_some_iff.mp hnode
  obtain ⟨hspan, hkind⟩ := Prod.mk.inj hpair
  obtain ⟨list, hlist, hitems⟩ := h new lastComment "file:///t.xml" ⟨0, 60⟩ 60 5 n .comment
    { content := some ⟨56, 59⟩, closed := true } .never hasOwnParticipants_new
    (by decide +kernel) (by decide +kernel)
    hn (by rw [hkind]; rfl) (by decide +kernel) (by rw [hspan]; decide) (by rw [hspan]; decide)
  have hlabels : (new.complete (Document.parse lastComment "file:///t.xml") ⟨0, 60⟩ .never).1.toOption.map
      (·.items.map (·.label)) = some ["b"] := by decide +kernel
  rw [hlist] at hlabels
  have hone : list.items.map (·.label) = ["b"] := Option.some.inj hlabels
  rw [hitems] at hone
  cases hone

end Service

end XmlAssist

import XmlAssist.Proofs.Completion.EndTags
import XmlAssist.Proofs.Tree.Tally

/-!
# Where an element is left without an end

An element that is left without an end tag is open up to the place where it ends: there the text ends, or the end tag
of an element around it starts, which cuts it off (`Document.exists_left`). As a tally has it, its name is among the
open tags at that place, and in front of the one that the end tag is for.
-/

namespace XmlAssist

open Node
open Text (size)
open Lexer (Leads)

/-- Something of the name `tag` is open behind the tokens `l`, and nothing ends it at `x`: the text ends there, or an
end tag follows that is for something around it. -/
inductive LeftAt (s : String) (l : List (Token × Lexer)) (x : Lexer) (tag : String) : Prop where
  | atEnd (stop : x.pos = size s) (isOpen : some tag ∈ (({} : Tally).reads s l).tags)
  | cut {m : List (Token × Lexer)} {y : Lexer} {inner outer : List (Option String)} (reads : ReadsTag s l x m y)
      (name : (y.step s).1.kind = .endTagName)
      (tags : (({} : Tally).reads s l).tags = inner ++ some ((y.step s).1.written s) :: outer)
      (others : some ((y.step s).1.written s) ∉ inner) (isOpen : some tag ∈ inner)

theorem ReadsTag.not_pairs {s : String} {l m : List (Token × Lexer)} {y z : Lexer} (h : ReadsTag s l z m y)
    (hkind : (y.step s).1.kind = .endTagName) : ∀ p ∈ z.step s :: m, p.1.kind.pairs = false := by
  intro p hp
  rcases List.mem_cons.mp hp with rfl | hp
  · rw [h.endTagOpen hkind]
    rfl
  · rw [h.blank p hp]
    rfl

namespace Builder

variable {s : String} {x y z : Lexer} {l r : List (Token × Lexer)} {b b' : Builder} {t : Token} {e : Element}
variable {id a p : Nat} {tag : String}

theorem tally_behind (hl : Leads s .document l y) :
    (behind s l (start s false)).tally = ({} : Tally).reads s l := by
  rw [(follows_start s false).tally_behind hl, tally_start]

theorem mem_tags (h : (id, e) ∈ b.opened) : e.tag ∈ b.tally.tags := List.mem_map_of_mem h

/-- The name of an end tag that cuts an element off is found among the open tags behind the name of that element. -/
theorem Acts.tags_of_cut (h : Acts s b t b') (hkind : t.kind = .endTagName) (hbefore : (id, e) ∈ b.opened)
    (hafter : ¬ b'.IsOpen id) (hopen : ∀ e', b'.core id = some e' → e'.closed = false) :
    ∃ inner outer, b.tally.tags = inner ++ some (t.written s) :: outer ∧ some (t.written s) ∉ inner ∧
      e.tag ∈ inner := by
  cases h with
  | quiet hk => simp [hkind, Token.Kind.pairs] at hk
  | opens hk | closes hk | names hk => simp [hkind] at hk
  | stray _ _ _ _ _ hopened => exact absurd ⟨e, hopened ▸ hbefore⟩ hafter
  | @ends _ inner outer a ea _ _ _ hb _ hothers htag hopened hcore _ =>
    refine ⟨inner.map (·.2.tag), outer.map (·.2.tag), by simp [Builder.tally, hb, htag], fun hmem => ?_, ?_⟩
    · obtain ⟨c, hc, hname⟩ := List.mem_map.mp hmem
      exact hothers c hc hname
    rw [hb, List.mem_append, List.mem_cons] at hbefore
    rcases hbefore with hmem | heq | hmem
    · exact List.mem_map_of_mem (f := fun c : Nat × Element => c.2.tag) hmem
    · obtain ⟨rfl, -⟩ := Prod.mk.inj heq
      cases hopen _ hcore
    · exact absurd ⟨e, hopened ▸ hmem⟩ hafter

end Builder

namespace Document

open Builder

variable {text uri : String} {x z w : Lexer} {l r : List (Token × Lexer)} {e : Element} {id a p : Nat} {tag : String}

theorem stop_of_isOpen (huri : isDtdUri uri = false) (hl : Leads text .document l x) (hx : x.pos = Text.size text)
    (h : (Builder.behind text l (start text false)).IsOpen id) :
    ((parse text uri).span id).stop = Text.size text := by
  have hnodes : (Builder.atEnd text (Builder.behind text l (start text false))).nodes = (parse text uri).nodes := by
    rw [← Builder.build_eq_behind hl hx, parse, huri]
  obtain ⟨e, he⟩ := h
  rw [← stopOf_eq hnodes]
  exact ((follows_start text false).behind hl).fits.stopOf_atEnd hx he

theorem CutsAt.stop (h : CutsAt text l w id a p) (huri : isDtdUri uri = false)
    (he : (parse text uri).element? id = some e) : ((parse text uri).span id).stop = p := by
  have hnext := h.leads.append (.one h.inside)
  have hf := (follows_start text false).behind hnext
  obtain ⟨y, hrest, hy⟩ := Leads.exists_end text (w.step text).2 hf.boundary
  obtain ⟨hf', hcut⟩ := hf.behind_keeps (Q := fun b => b.CutBy id a p) hrest h.cut
    fun _ _ _ _ hf hacts hcut => hcut.acts hf hacts
  have hall := hnext.append hrest
  rw [← behind_append] at hf' hcut
  have hnodes : (Builder.atEnd text (Builder.behind text (l ++ [w.step text] ++ (w.step text).2.tokens text)
      (start text false))).nodes = (parse text uri).nodes := by
    rw [← Builder.build_eq_behind hall hy, parse, huri]
  obtain ⟨e₀, he₀⟩ :=
    (outline_parse huri hall (lt_size_of_mem_chain_of_ne hcut.around (Nat.ne_of_lt hcut.lt))).2 e he
  obtain ⟨hclosed, hopen, -, hstop⟩ := hcut.between id (mem_chain_self ..) hcut.lt e₀ he₀
  rw [← stopOf_eq hnodes, hf'.fits.quiet_atEnd.stop id e₀ he₀ hopen hclosed, hstop]

/-- **Where an element is left** without an end it is open, and the text ends, or an element around it does. -/
theorem exists_left (huri : isDtdUri uri = false) (he : (parse text uri).element? id = some e) (htag : e.tag = some tag)
    (hstart : e.startOpen.isSome = true) (hopen : e.closed = false) :
    ∃ l x, Leads text .document l x ∧ x.pos = ((parse text uri).span id).stop ∧ LeftAt text l x tag := by
  have hzero := Text.isBoundary_zero text
  obtain ⟨l₁, z₁, m₁, y₁, e₁, hread, hname, -, -, -, htag₁, hmem₁⟩ := exists_named huri he htag hstart
  have hl := hread.leads.append (.one hread.inside)
  -- behind its name the element keeps that name
  have hkeeps {r : List (Token × Lexer)} {y : Lexer} {e₂ : Element} (hr : Leads text (y₁.step text).2 r y)
      (hmem : (id, e₂) ∈ (Builder.behind text (l₁ ++ z₁.step text :: m₁ ++ [y₁.step text] ++ r)
        (start text false)).opened) : e₂.tag = some tag := by
    have hlater := (((follows_start text false).behind hl).behind_becomes hr (mem_opened.mp hmem₁).2.1)
    rw [← behind_append] at hlater
    obtain ⟨e', he', hbecomes⟩ := hlater
    obtain rfl := Option.some.inj (he'.symm.trans (mem_opened.mp hmem).2.1)
    exact (hbecomes.named (by rw [htag₁]; rfl)).1.trans htag₁
  obtain ⟨y, hrest, hy⟩ := Leads.exists_end text (y₁.step text).2 (hl.boundary hzero)
  rcases isOpen_or_cut huri hl hmem₁ hrest he (by rw [htag]; rfl) hopen with hisOpen | hcuts
  · have hall := hl.append hrest
    refine ⟨_, y, hall, hy.trans (stop_of_isOpen huri hall hy hisOpen).symm, .atEnd hy ?_⟩
    obtain ⟨e₂, hmem₂⟩ := hisOpen
    rw [← tally_behind hall, ← hkeeps hrest hmem₂]
    exact mem_tags hmem₂
  · obtain ⟨l₂, w, l₃, a, p, hcuts, hw, -, -⟩ := hcuts
    obtain ⟨l₀, z, m, outer, hreads, hlist, hz, -⟩ := hcuts.exists_bracket huri
    obtain ⟨e₂, hmem₂⟩ := hcuts.isOpen
    have hacts := (((follows_start text false).behind hcuts.leads).next hcuts.inside).1
    rw [← behind_concat] at hacts
    obtain ⟨inner, outer, htags, hothers, hinner⟩ := hacts.tags_of_cut hcuts.kind hmem₂ hcuts.closed fun e' he' =>
      (hcuts.cut.between id (mem_chain_self ..) hcuts.cut.lt e' he').2.1
    -- the bracket and white space do not count
    have hquiet : ({} : Tally).reads text (l₁ ++ z₁.step text :: m₁ ++ [y₁.step text] ++ l₂) =
        ({} : Tally).reads text l₀ := by
      rw [hlist, Tally.reads_append]
      exact Tally.reads_of_not_pairs (hreads.not_pairs hcuts.kind)
    rw [tally_behind hcuts.leads, hquiet] at htags
    rw [hkeeps hw hmem₂] at hinner
    exact ⟨l₀, z, hreads.before, hz.trans (hcuts.stop huri he).symm, .cut hreads hcuts.kind htags hothers hinner⟩

end Document

end XmlAssist

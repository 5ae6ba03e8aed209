import XmlAssist.Proofs.Tree.Along
import XmlAssist.Proofs.Tree.Faithful

/-!
# What becomes of an element

A token never takes back what an element has: its `<` and its name stay, and once it is closed it stays
as it is (`Element.Becomes`). So the tree shows what each name of a tag did on the way: the name of
a start tag went to the element that keeps its span, and the name of an end tag to the one that
it closed, or to a new one (`Follows.names_of`, `Follows.ends_of`).
-/

namespace XmlAssist

open Node
open Text (size isBoundary)
open Lexer (Leads)

/-- What an element may become. -/
structure Element.Becomes (e e' : Element) : Prop where
  startOpen : e'.startOpen = e.startOpen
  named : e.tag.isSome = true → e'.tag = e.tag ∧ e'.tagSpan = e.tagSpan
  closed : e.closed = true → e' = e

theorem Element.Becomes.refl (e : Element) : e.Becomes e := ⟨rfl, fun _ => ⟨rfl, rfl⟩, fun _ => rfl⟩

theorem Element.Becomes.trans {e e' e'' : Element} (h : e.Becomes e') (h' : e'.Becomes e'') :
    e.Becomes e'' := by
  refine ⟨h'.startOpen.trans h.startOpen, fun hnamed => ?_, fun hclosed => ?_⟩
  · obtain ⟨htag, hspan⟩ := h.named hnamed
    obtain ⟨htag', hspan'⟩ := h'.named (htag ▸ hnamed)
    exact ⟨htag'.trans htag, hspan'.trans hspan⟩
  · obtain rfl := h.closed hclosed
    exact h'.closed hclosed

namespace Builder

variable {s : String} {x y : Lexer} {l : List (Token × Lexer)} {b b' : Builder} {t : Token}
variable {e : Element} {id : Nat} {w : String}

theorem Acts.becomes (h : Acts s b t b') (he : b.core id = some e) :
    ∃ e', b'.core id = some e' ∧ e.Becomes e' := by
  have hid := lt_size_of_core he
  have hsame {changed : Option Nat} (hf : Frame changed b b') (hne : changed ≠ some id) :
      ∃ e', b'.core id = some e' ∧ e.Becomes e' := ⟨e, (hf.core id hid hne).trans he, .refl e⟩
  cases h with
  | quiet _ hq => exact hsame hq.toFrame nofun
  | opens _ hf | stray _ _ hf => exact hsame hf nofun
  | @names e₀ _ _ hf _ _ hbefore hunnamed hopened =>
    by_cases heq : b.current = id
    · subst heq
      have hmem : (b.current, e₀) ∈ b.opened := by simp [hbefore]
      obtain ⟨-, hcore, hopen⟩ := mem_opened.mp hmem
      obtain rfl := Option.some.inj (hcore.symm.trans he)
      have hafter := core_of_opened (l := []) hopened
      refine ⟨_, hafter, rfl, fun hnamed => ?_, fun hclosed => ?_⟩
      · rw [hunnamed] at hnamed
        cases hnamed
      · rw [hopen] at hclosed
        cases hclosed
    · exact hsame hf (by simpa using heq)
  | @closes e₀ _ _ hf _ hbefore _ hcore' =>
    by_cases heq : b.current = id
    · subst heq
      have hmem : (b.current, e₀) ∈ b.opened := by simp [hbefore]
      obtain ⟨-, hcore, hopen⟩ := mem_opened.mp hmem
      obtain rfl := Option.some.inj (hcore.symm.trans he)
      refine ⟨_, hcore', rfl, fun _ => ⟨rfl, rfl⟩, fun hclosed => ?_⟩
      rw [hopen] at hclosed
      cases hclosed
    · exact hsame hf (by simpa using heq)
  | @ends _ _ _ a e₀ _ hf _ hbefore _ _ _ _ hcore' =>
    by_cases heq : a = id
    · subst heq
      have hmem : (a, e₀) ∈ b.opened := by simp [hbefore]
      obtain ⟨-, hcore, hopen⟩ := mem_opened.mp hmem
      obtain rfl := Option.some.inj (hcore.symm.trans he)
      refine ⟨_, hcore', rfl, fun _ => ⟨rfl, rfl⟩, fun hclosed => ?_⟩
      rw [hopen] at hclosed
      cases hclosed
    · exact hsame hf (by simpa using heq)

theorem Follows.behind_becomes (h : Follows s x b) (hl : Leads s x l y) (he : b.core id = some e) :
    ∃ e', (Builder.behind s l b).core id = some e' ∧ e.Becomes e' := by
  refine (h.behind_keeps (Q := fun b => ∃ e', b.core id = some e' ∧ e.Becomes e') hl
    ⟨e, he, .refl e⟩ ?_).2
  rintro _ _ _ _ - hacts ⟨e', he', hbecomes⟩
  obtain ⟨e'', he'', hbecomes'⟩ := hacts.becomes he'
  exact ⟨e'', he'', hbecomes.trans hbecomes'⟩

theorem exists_element {uri : String} (huri : Document.isDtdUri uri = false)
    (hl : Leads s .document l y) (he : (behind s l (start s false)).core id = some e) :
    ∃ e', (Document.parse s uri).element? id = some e' ∧ e.Becomes e'.core := by
  have hfollows := (follows_start s false).behind hl
  obtain ⟨z, hrest, hpos⟩ := Leads.exists_end s y hfollows.boundary
  obtain ⟨e', he', hbecomes⟩ := hfollows.behind_becomes hrest he
  have hend := (hfollows.behind hrest).fits.quiet_atEnd
  have hnodes : (atEnd s (behind s (y.tokens s) (behind s l (start s false)))).nodes =
      (Document.parse s uri).nodes := by
    rw [← behind_append, Document.parse, huri, build_eq_behind (hl.append hrest) hpos]
  have hcore := (hend.core id (lt_size_of_core he') nofun).trans he'
  rw [Document.core_eq_element? hnodes] at hcore
  obtain ⟨e'', he'', rfl⟩ := Option.map_eq_some_iff.mp hcore
  exact ⟨e'', he'', hbecomes⟩

theorem not_closed_of_element? {e₀ : Element} (huri : Document.isDtdUri uri = false) (hl : Leads s .document l y)
    (he : (Document.parse s uri).element? id = some e) (hopen : e.closed = false)
    (he₀ : (behind s l (start s false)).core id = some e₀) : e₀.closed = false := by
  obtain ⟨e', he', hbecomes⟩ := exists_element huri hl he₀
  obtain rfl := Option.some.inj (he.symm.trans he')
  refine Bool.eq_false_iff.mpr fun hclosed => ?_
  have hsame : e.core.closed = e₀.closed := congrArg Element.closed (hbecomes.closed hclosed)
  rw [hclosed] at hsame
  cases hopen.symm.trans hsame

/-! ## The names of tags -/

/-- The nearest open element of a name, if there is one. -/
def nearest? (b : Builder) (w : String) : Option Nat :=
  (chain b.nodes b.current).find? (b.isOpenAs w)

theorem nearest?_eq (b : Builder) (w : String) :
    b.nearest? w = (b.opened.find? (·.2.tag = some w)).map (·.1) := by
  rw [nearest?, opened, openAmong]
  induction chain b.nodes b.current with
  | nil => rfl
  | cons id ids ih =>
    have hopen : b.isOpenAs w id = ((b.core id).filter (!·.closed)).any (·.tag = some w) := by
      unfold isOpenAs core
      cases b.kindOf id with
      | element e =>
        show (!e.closed && e.tag == some w) = ((some e.core).filter (!·.closed)).any (·.tag = some w)
        rw [Option.filter_some]
        show _ = (if !e.closed then some e.core else none).any (·.tag = some w)
        cases e.closed
        · exact (beq_eq_decide ..)
        · rfl
      | _ => rfl
    rw [List.find?_cons, hopen]
    cases hcore : (b.core id).filter (!·.closed) with
    | none =>
      rw [List.filterMap_cons_none (by rw [hcore]; rfl)]
      exact ih
    | some e =>
      rw [List.filterMap_cons_some (by rw [hcore]; rfl), List.find?_cons]
      cases htag : decide (e.tag = some w) with
      | true => simp [htag]
      | false =>
        simp only [Option.any_some, htag]
        exact ih

theorem Acts.names_current (h : Acts s b t b') (hkind : t.kind = .startTagName) :
    ∃ e, b'.core b.current = some e ∧ e.tag = some (t.written s) ∧ e.tagSpan = some t.span := by
  cases h with
  | quiet hk => simp [hkind, Token.Kind.pairs] at hk
  | names _ _ _ _ _ _ hopened => exact ⟨_, core_of_opened (l := []) hopened, rfl, rfl⟩
  | opens hk | closes hk | ends _ hk | stray _ hk => simp [hkind] at hk

theorem Acts.names_open (h : Acts s b t b') (hkind : t.kind = .startTagName) :
    ∃ e, b.core b.current = some e ∧ e.closed = false := by
  cases h with
  | quiet hk => simp [hkind, Token.Kind.pairs] at hk
  | @names e _ _ _ _ _ hbefore =>
    have hmem : (b.current, e) ∈ b.opened := by simp [hbefore]
    exact ⟨e, (mem_opened.mp hmem).2⟩
  | opens hk | closes hk | ends _ hk | stray _ hk => simp [hkind] at hk

theorem nearest?_of_opened {inner outer : List (Nat × Element)} {w : String} (h : b.opened = inner ++ (id, e) :: outer)
    (hinner : ∀ c ∈ inner, c.2.tag ≠ some w) (htag : e.tag = some w) : b.nearest? w = some id := by
  rw [nearest?_eq, h, List.find?_append, List.find?_eq_none.mpr (by simpa using hinner)]
  simp [htag]

theorem nearest?_of_not_mem {w : String}
    (h : ∀ c ∈ chain b.nodes b.current, ∀ e, b.core c = some e → e.tag ≠ some w) : b.nearest? w = none := by
  rw [nearest?_eq, List.find?_eq_none.mpr]
  · rfl
  · rintro ⟨c, e⟩ hc
    obtain ⟨hc, he, -⟩ := mem_opened.mp hc
    simpa using h c hc e he

theorem Acts.ends_nearest (h : Acts s b t b') (hkind : t.kind = .endTagName) :
    ∃ e, b'.core ((b.nearest? (t.written s)).getD b.nodes.size) = some e ∧
      e.tag = some (t.written s) ∧ e.closed = true ∧ e.endTagSpan = some t.span := by
  cases h with
  | quiet hk => simp [hkind, Token.Kind.pairs] at hk
  | opens hk | closes hk | names hk => simp [hkind] at hk
  | ends _ _ _ _ hbefore _ hothers htag _ hcore =>
    rw [nearest?_of_opened hbefore hothers htag]
    exact ⟨_, hcore, htag, rfl, rfl⟩
  | stray _ _ _ _ hothers _ _ hcore =>
    rw [nearest?_of_not_mem hothers]
    exact ⟨_, hcore, rfl, rfl, rfl⟩

section whole
variable {uri : String} (huri : Document.isDtdUri uri = false) (hl : Leads s .document l y)
variable (hlt : y.pos < size s)
include huri hl hlt

/-- The name of a start tag went to the element that keeps its span. -/
theorem names_of (hkind : (y.step s).1.kind = .startTagName) :
    ∃ e, (Document.parse s uri).element? (behind s l (start s false)).current = some e ∧
      e.tag = some ((y.step s).1.written s) ∧ e.tagSpan = some (y.step s).1.span := by
  obtain ⟨hacts, -⟩ := ((follows_start s false).behind hl).next hlt
  obtain ⟨e, he, htag, hspan⟩ := hacts.names_current hkind
  have he' : (behind s (l ++ [y.step s]) (start s false)).core (behind s l (start s false)).current =
      some e := by
    rw [behind_append]
    exact he
  obtain ⟨e', hfinal, hbecomes⟩ := exists_element huri (hl.append (.one hlt)) he'
  obtain ⟨htag', hspan'⟩ := hbecomes.named (by rw [htag]; rfl)
  exact ⟨e', hfinal, htag'.trans htag, hspan'.trans hspan⟩

/-- The name of an end tag went to the element that keeps its span. -/
theorem ends_of (hkind : (y.step s).1.kind = .endTagName) :
    ∃ e, (Document.parse s uri).element?
        (((behind s l (start s false)).nearest? ((y.step s).1.written s)).getD
          (behind s l (start s false)).nodes.size) = some e ∧
      e.tag = some ((y.step s).1.written s) ∧ e.endTagSpan = some (y.step s).1.span := by
  obtain ⟨hacts, -⟩ := ((follows_start s false).behind hl).next hlt
  obtain ⟨e, he, htag, hclosed, hspan⟩ := hacts.ends_nearest hkind
  have he' : (behind s (l ++ [y.step s]) (start s false)).core
      (((behind s l (start s false)).nearest? ((y.step s).1.written s)).getD
        (behind s l (start s false)).nodes.size) = some e := by
    rw [behind_append]
    exact he
  obtain ⟨e', hfinal, hbecomes⟩ := exists_element huri (hl.append (.one hlt)) he'
  obtain rfl := hbecomes.closed hclosed
  exact ⟨e', hfinal, htag, hspan⟩

end whole

end Builder

namespace Document

variable {text uri : String} {d : Document} {id : Nat} {e : Element} {sp : Span}

theorem mem_elementRecords (h : d.element? id = some e) : e ∈ d.elementRecords := by
  obtain ⟨n, hn, hne⟩ := exists_node_of_element? h
  exact List.mem_filterMap.mpr ⟨n, Array.mem_toList_iff.mpr (Array.mem_of_getElem? hn), hne⟩

theorem lies_tagSpan (h : (parse text uri).element? id = some e) :
    ∀ sp ∈ e.tagSpan.toList ++ e.endTagSpan.toList, Lies text (Text.size text) sp := by
  obtain ⟨n, hn, hne⟩ := exists_node_of_element? h
  intro sp hsp
  refine lies_of_mem (Array.mem_of_getElem? hn) sp (List.mem_cons_of_mem _ ?_)
  rw [kind_of_element? hne]
  exact hsp

theorem exists_passes (huri : isDtdUri uri = false) {t : Token} (ht : t ∈ (parse text uri).tokens) :
    ∃ l y, Leads text .document l y ∧ y.pos < Text.size text ∧ (y.step text).1 = t := by
  rw [tokens_parse, huri] at ht
  obtain ⟨p, hp, rfl⟩ := List.mem_map.mp ht
  obtain ⟨l, y, hl, hlt, rfl⟩ := Leads.exists_of_mem (Text.isBoundary_zero text) hp
  exact ⟨l, y, hl, hlt, rfl⟩

theorem exists_startTagName (h : (parse text uri).element? id = some e) (hsp : e.tagSpan = some sp) :
    ∃ t ∈ (parse text uri).tokens, t.kind = .startTagName ∧ t.span = sp := by
  have hmem := List.mem_filterMap.mpr ⟨e, mem_elementRecords h, hsp⟩
  rw [(keepsTokens text uri).startTagName] at hmem
  obtain ⟨t, ht, rfl⟩ := List.mem_map.mp hmem
  obtain ⟨ht, hkind⟩ := List.mem_filter.mp ht
  exact ⟨t, ht, of_decide_eq_true hkind, rfl⟩

theorem exists_endTagName (h : (parse text uri).element? id = some e) (hsp : e.endTagSpan = some sp) :
    ∃ t ∈ (parse text uri).tokens, t.kind = .endTagName ∧ t.span = sp := by
  have hmem := List.mem_filterMap.mpr ⟨e, mem_elementRecords h, hsp⟩
  rw [(keepsTokens text uri).endTagName.mem_iff] at hmem
  obtain ⟨t, ht, rfl⟩ := List.mem_map.mp hmem
  obtain ⟨ht, hkind⟩ := List.mem_filter.mp ht
  exact ⟨t, ht, of_decide_eq_true hkind, rfl⟩

theorem eq_of_start {t t' : Token} (ht : t ∈ (parse text uri).tokens) (ht' : t' ∈ (parse text uri).tokens)
    (h : t.start = t'.start) : t = t' := by
  have hdistinct := (keepsTokens text uri).distinct
  rw [List.pairwise_iff_getElem] at hdistinct
  obtain ⟨i, hi, rfl⟩ := List.mem_iff_getElem.mp ht
  obtain ⟨j, hj, rfl⟩ := List.mem_iff_getElem.mp ht'
  rcases Nat.lt_trichotomy i j with hlt | rfl | hlt
  · exact absurd h (Nat.ne_of_lt (hdistinct i j hi hj hlt))
  · rfl
  · exact absurd h.symm (Nat.ne_of_lt (hdistinct j i hj hi hlt))

theorem tagSpan_before_endTagSpan (huri : isDtdUri uri = false) (h : (parse text uri).element? id = some e)
    {sp' : Span} (hsp : e.tagSpan = some sp) (hsp' : e.endTagSpan = some sp') : sp.stop ≤ sp'.start := by
  have hzero := Text.isBoundary_zero text
  obtain ⟨t, ht, hkind, rfl⟩ := exists_startTagName h hsp
  obtain ⟨t', ht', hkind', rfl⟩ := exists_endTagName h hsp'
  obtain ⟨l, y, hl, hlt, rfl⟩ := exists_passes huri ht
  obtain ⟨l', y', hl', hlt', rfl⟩ := exists_passes huri ht'
  have hy := hl.boundary hzero
  have hy' := hl'.boundary hzero
  rcases Nat.lt_or_ge y.pos y'.pos with hbefore | hafter
  · obtain ⟨r, -, hr⟩ := hl.split hl' hzero (Nat.le_of_lt hbefore)
    cases hr with
    | here => exact absurd hbefore (Nat.lt_irrefl _)
    | next _ hrest =>
      have hle := hrest.pos_le (Leads.boundary_step hy hlt)
      rw [← Leads.stop_step hy hlt, ← Leads.start_step hy' hlt'] at hle
      exact hle
  · -- behind the end tag the element is closed, so that it can get no name
    exfalso
    obtain ⟨r, rfl, hr⟩ := hl'.split hl hzero hafter
    cases hr with
    | here => exact absurd (hkind.symm.trans hkind') (by simp)
    | next _ hrest =>
      obtain ⟨e₁, he₁, -, hspan₁⟩ := Builder.names_of huri hl hlt hkind
      obtain ⟨e₂, he₂, -, hspan₂⟩ := Builder.ends_of huri hl' hlt' hkind'
      have hcurrent := eq_of_tagSpan he₁ h hspan₁ hsp
      have hended := eq_of_endTagSpan he₂ h hspan₂ hsp'
      obtain ⟨hacts', hnext'⟩ := ((Builder.follows_start text false).behind hl').next hlt'
      obtain ⟨e₃, he₃, -, hclosed, -⟩ := hacts'.ends_nearest hkind'
      rw [hended] at he₃
      obtain ⟨e₄, he₄, hbecomes⟩ := hnext'.behind_becomes hrest he₃
      obtain rfl := hbecomes.closed hclosed
      obtain ⟨hacts, -⟩ := ((Builder.follows_start text false).behind hl).next hlt
      obtain ⟨e₅, he₅, hopen⟩ := hacts.names_open hkind
      rw [hcurrent, Builder.behind_append, Builder.behind_cons, he₄] at he₅
      obtain rfl := Option.some.inj he₅
      rw [hclosed] at hopen
      cases hopen

end Document

end XmlAssist

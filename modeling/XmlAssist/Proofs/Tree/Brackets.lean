import XmlAssist.Proofs.Tree.Recovery

/-!
# Tags as brackets

The problems that are reported about tags say whether these nest. Read as a word of brackets, the
named tags of a text have to close in the opposite order of their opening, under the same names
(`nests`); and no tag is reported just where they do (`tags_nest_iff`).

The proof goes backwards through the tokens. At each of them the names of the open elements are the
brackets that are still to be closed (`awaited`), but for the element whose start tag is being read,
which counts only if that tag does not end with `/>`. An end tag whose name is not the last of them
leaves an element that is reported (`Faulty`) and never mended.
-/

namespace XmlAssist

open Node
open Text (size isBoundary)
open Lexer (Reads Falls)

/-- A bracket: the name of a start tag or of an end tag. -/
inductive Bracket where
  | opening (name : String)
  | closing (name : String)
deriving DecidableEq, Repr

/-- The brackets close in the opposite order of their opening, after those that are open under the
names, and none stays open. -/
def nests : List String → List Bracket → Bool
  | names, [] => names.isEmpty
  | names, .opening n :: rest => nests (n :: names) rest
  | names, .closing n :: rest => names.head? == some n && nests names.tail rest

/-- Tokens of the kind stand in a start tag, behind its name. -/
def Token.Kind.staysInTag : Token.Kind → Bool
  | .blank | .attributeName | .assign | .attributeValue | .unknown => true
  | _ => false

/-- The start tag before the tokens ends with `/>`. -/
def selfCloses : List Token → Bool
  | [] => false
  | t :: rest => t.kind = .startTagSelfClose || (t.kind.staysInTag && selfCloses rest)

/-- The named tags among the tokens, without those that end with `/>`. -/
def tags (s : String) : List Token → List Bracket
  | [] => []
  | t :: rest =>
    match t.kind with
    | .startTagName =>
      if selfCloses rest then tags s rest else .opening (t.written s) :: tags s rest
    | .endTagName => .closing (t.written s) :: tags s rest
    | _ => tags s rest

/-- The element is reported: it has a name, and a start tag without its end or an end tag alone. -/
def Element.isFaulty (e : Element) : Bool :=
  e.tag.isSome && (e.isUnended || (!e.hasStartTag && e.endTagSpan.isSome))

theorem Element.isFaulty_eq {e : Element}
    (h : e.startOpen.isSome = true ∧ e.endOpen = none ∧ e.selfClosed = false) :
    e.isFaulty = e.tag.isSome := by
  simp [isFaulty, isUnended, hasStartTag, hasEndTag, h]

namespace Lexer

variable {s : String} {x y : Lexer} {pos : Nat} {spaced : Bool} {kind : Token.Kind}

/-- The lexer is in a start tag. -/
def inStartTag (x : Lexer) : Bool :=
  match x.mode with
  | .afterStartTagOpen | .inTag => true
  | .afterAttributeName | .beforeAttributeValue => !x.inProlog
  | _ => false

theorem inStartTag_tagMode (x : Lexer) (pos : Nat) (spaced : Bool) :
    (x.moved pos spaced x.tagMode).inStartTag = !x.inProlog := by
  cases h : x.inProlog <;> simp [inStartTag, tagMode, h]

theorem inStartTag_contentMode (x z : Lexer) (pos : Nat) (spaced : Bool) :
    (z.moved pos spaced x.contentMode).inStartTag = false := by
  cases h : x.inDtd <;> simp [inStartTag, contentMode, h]

theorem Falls.inStartTag_eq (h : Falls x spaced y) : y.inStartTag = x.inStartTag := by
  cases h with
  | startTag hmode | endTag hmode | instruction hmode => simp [inStartTag, hmode]
  | backInTag hmode =>
    rw [inStartTag_tagMode]
    rcases hmode with hmode | hmode <;> simp [inStartTag, hmode]

theorem Reads.inStartTag_eq (h : Reads x pos spaced kind y) (hc : x.Consistent)
    (hopen : kind ≠ .startTagOpen) (hname : kind ≠ .startTagName) :
    y.inStartTag = (x.inStartTag && kind.staysInTag) := by
  have hm := hc.mode
  cases h with
  | blank => exact (Bool.and_true _).symm
  | content _ hk =>
    rcases hk with ⟨rfl, rfl⟩ | hk
    · simp [inStartTag, Token.Kind.staysInTag]
    · simp only [contentOpeners, List.map_cons, List.map_nil, List.mem_cons, Prod.mk.injEq,
        List.not_mem_nil, or_false] at hk
      rcases hk with ⟨rfl, rfl⟩ | ⟨rfl, rfl⟩ | ⟨rfl, rfl⟩ | ⟨rfl, rfl⟩ |
        ⟨rfl, rfl⟩ | ⟨rfl, rfl⟩ <;>
        first
        | exact absurd rfl hopen
        | simp [inStartTag, Token.Kind.staysInTag]
  | declaration _ hk =>
    rcases hk with ⟨rfl, rfl⟩ | hk
    · simp [inStartTag, Token.Kind.staysInTag]
    · simp only [dtdOpeners, List.map_cons, List.map_nil, List.mem_cons, Prod.mk.injEq,
        List.not_mem_nil, or_false] at hk
      rcases hk with ⟨rfl, rfl⟩ | ⟨rfl, rfl⟩ | ⟨rfl, rfl⟩ | ⟨rfl, rfl⟩ |
        ⟨rfl, rfl⟩ | ⟨rfl, rfl⟩ <;>
        simp [inStartTag, Token.Kind.staysInTag]
  | startTagName => exact absurd rfl hname
  | unknown hmode => simp [inStartTag, Token.Kind.staysInTag]
  | attributeName hmode =>
    rcases hmode with hmode | hmode <;> rw [Agrees, hmode] at hm <;>
      simp [inStartTag, Token.Kind.staysInTag, hmode, hm.1]
  | assign hmode => simp [inStartTag, Token.Kind.staysInTag, hmode]
  | attributeValue hmode =>
    rw [inStartTag_tagMode]
    simp [inStartTag, Token.Kind.staysInTag, hmode]
  | commentClose | cdataClose | prologClose | instructionClose =>
    rw [inStartTag_contentMode]
    simp [Token.Kind.staysInTag]
  | _ => simp [inStartTag, Token.Kind.staysInTag]

theorem Reads.behind_name (h : Reads x pos spaced .startTagName y) : y.inStartTag = true := by
  cases h with
  | startTagName => rfl
  | content _ h => simp [StartsContent, contentOpeners] at h
  | declaration _ h => simp [StartsDeclaration, dtdOpeners] at h

theorem Reads.before_selfClose (h : Reads x pos spaced .startTagSelfClose y) :
    x.inStartTag = true := by
  cases h with
  | startTagSelfClose hmode => simp [inStartTag, hmode]
  | content _ h => simp [StartsContent, contentOpeners] at h
  | declaration _ h => simp [StartsDeclaration, dtdOpeners] at h

theorem Reads.before_close (h : Reads x pos spaced .startTagClose y) : x.inStartTag = true := by
  cases h with
  | startTagClose hmode => simp [inStartTag, hmode]
  | content _ h => simp [StartsContent, contentOpeners] at h
  | declaration _ h => simp [StartsDeclaration, dtdOpeners] at h

theorem exists_reads (hc : x.Consistent) (hx : isBoundary s x.pos = true) (hlt : x.pos < size s) :
    ∃ z, z.Consistent ∧ z.inStartTag = x.inStartTag ∧
      Reads z (x.step s).2.pos (x.step s).2.spaced (x.step s).1.kind (x.step s).2 := by
  obtain ⟨z, spaced, hz, hreads⟩ := lex_turns hc hlt
  rw [step_eq_lex hx hlt]
  rcases hz with rfl | hfalls
  · exact ⟨z, hc, rfl, hreads⟩
  · exact ⟨z, hc.of_falls hfalls, hfalls.inStartTag_eq, hreads⟩

end Lexer

namespace Builder

variable {s : String} {x y : Lexer} {b b' : Builder} {t : Token} {e : Element} {id : Nat}
variable {pos : Nat} {spaced : Bool}

/-- An element that is not open will be reported. -/
def Faulty (b : Builder) : Prop := ∃ id e, b.core id = some e ∧ ¬ b.IsOpen id ∧ e.isFaulty = true

/-- The names of the open elements, from the inside to the outside. -/
def names (b : Builder) : List String := b.opened.filterMap (·.2.tag)

/-- The names that are still to be closed, before the tokens, which may start in a start tag. -/
def awaited (inTag : Bool) (b : Builder) (ts : List Token) : List String :=
  if inTag && selfCloses ts then b.opened.tail.filterMap (·.2.tag) else b.names

theorem Faulty.acts (h : Faulty b) (hacts : Acts s b t b') : Faulty b' := by
  obtain ⟨changed, hframe, hchanged, hopen⟩ := hacts.kept
  obtain ⟨id, e, he, hid, hfaulty⟩ := h
  have hlt := lt_size_of_core he
  refine ⟨id, e, ?_, mt (hopen id hlt) hid, hfaulty⟩
  rwa [hframe.core id hlt fun heq => hid (hchanged id heq)]

theorem Acts.faulty_or (hacts : Acts s b t b') (he : b'.core id = some e)
    (hfaulty : e.isFaulty = true) : Faulty b ∨ b.IsOpen id ∨ b.nodes.size ≤ id := by
  obtain ⟨changed, hframe, hchanged, -⟩ := hacts.kept
  rcases Nat.lt_or_ge id b.nodes.size with hlt | hge
  · by_cases hb : b.IsOpen id
    · exact .inr (.inl hb)
    · rw [hframe.core id hlt fun heq => hb (hchanged id heq)] at he
      exact .inl ⟨id, e, he, hb, hfaulty⟩
  · exact .inr (.inr hge)

section ends
variable {n : String} {inner outer : List (Nat × Element)}

theorem head?_names_ne
    (h : ∀ c ∈ chain b.nodes b.current, ∀ e, b.core c = some e → e.tag ≠ some n) :
    b.names.head? ≠ some n := by
  intro hhead
  obtain ⟨⟨c, e⟩, hc, htag⟩ := List.mem_filterMap.mp (List.mem_of_head? hhead)
  obtain ⟨hchain, hcore, -⟩ := mem_opened.mp hc
  exact h c hchain e hcore htag

theorem names_eq (hb : b.opened = inner ++ (id, e) :: outer) (htag : e.tag = some n) :
    b.names = inner.filterMap (·.2.tag) ++ n :: outer.filterMap (·.2.tag) := by
  simp [names, hb, htag]

/-- The nearest open element with a name is the last one that has any name just where nothing inside
it has one. -/
theorem head?_names (hb : b.opened = inner ++ (id, e) :: outer) (htag : e.tag = some n)
    (hothers : ∀ c ∈ inner, c.2.tag ≠ some n) :
    b.names.head? = some n ↔ ∀ c ∈ inner, c.2.tag = none := by
  rw [names_eq hb htag, ← List.filterMap_eq_nil_iff]
  cases hinner : inner.filterMap (·.2.tag) with
  | nil => simp
  | cons m ms =>
    obtain ⟨c, hc, hm⟩ := List.mem_filterMap.mp (hinner ▸ List.mem_cons_self)
    have hne : m ≠ n := fun heq => hothers c hc (heq ▸ hm)
    simp [hne]

theorem left_open {c : Nat} {e' : Element} (hframe : Frame (some id) b b')
    (hb : b.opened = inner ++ (id, e) :: outer) (hopened : b'.opened = outer)
    (hc : (c, e') ∈ inner) : b'.core c = some e' ∧ ¬ b'.IsOpen c := by
  obtain ⟨hinner, houter⟩ := opened_sorted hb
  have hmem : (c, e') ∈ b.opened := by simp [hb, hc]
  have hcore := (mem_opened.mp hmem).2.1
  have hlt : id < c := hinner _ hc
  refine ⟨?_, fun ⟨e'', hopen⟩ => ?_⟩
  · rwa [hframe.core c (lt_size_of_core hcore) (by simpa using Nat.ne_of_lt hlt)]
  · exact Nat.lt_asymm hlt (houter _ (hopened ▸ hopen))

end ends

/-- An element is reported anew only when an end tag has another name than the last element that is
open and has one. -/
theorem Acts.mismatch_of_faulty (hacts : Acts s b t b') (hf : Follows s x b) (h : Faulty b') :
    Faulty b ∨ (t.kind = .endTagName ∧ b.names.head? ≠ some (t.written s)) := by
  obtain ⟨id, e, he, hid, hfaulty⟩ := h
  have hlt := lt_size_of_core he
  refine (hacts.faulty_or he hfaulty).imp_right fun hnew => ?_
  cases hacts with
  | quiet _ hq =>
    rcases hnew with hopen | hnew
    · exact absurd (hq.isOpen_iff.mpr hopen) hid
    · simp [Element.isFaulty, (hq.fresh id e hnew he).1] at hfaulty
  | opens _ _ hopened _ hfresh =>
    rcases hnew with ⟨e', hopen⟩ | hnew
    · exact absurd ⟨e', hopened ▸ List.mem_cons_of_mem _ hopen⟩ hid
    · have hne : id ≠ b'.current := fun heq =>
        hid ⟨_, by rw [hopened, heq]; exact List.mem_cons_self⟩
      simp [Element.isFaulty, (hfresh id e hnew hne he).1] at hfaulty
  | names _ _ hsize _ hbefore _ hopened =>
    obtain ⟨e', hopen⟩ := hnew.resolve_right (by omega)
    rw [hbefore, List.mem_cons] at hopen
    rcases hopen with hopen | hopen
    · obtain ⟨rfl, -⟩ := Prod.mk.inj hopen
      exact absurd ⟨_, hopened ▸ List.mem_cons_self⟩ hid
    · exact absurd ⟨e', hopened ▸ List.mem_cons_of_mem _ hopen⟩ hid
  | closes _ _ hsize hbefore hopened hcore =>
    obtain ⟨e', hopen⟩ := hnew.resolve_right (by omega)
    have hstarted := hf.started id e' hopen
    rw [hbefore, List.mem_cons] at hopen
    rcases hopen with hopen | hopen
    · obtain ⟨rfl, rfl⟩ := Prod.mk.inj hopen
      obtain rfl := Option.some.inj (hcore.symm.trans he)
      simp [Element.isFaulty, Element.isUnended, Element.hasStartTag, hstarted.1] at hfaulty
    · exact absurd ⟨e', hopened ▸ hopen⟩ hid
  | ends _ hkind hframe hsize hbefore _ hothers htag hopened hcore =>
    refine ⟨hkind, mt (head?_names hbefore htag hothers).mp fun hunnamed => ?_⟩
    obtain ⟨e', hopen⟩ := hnew.resolve_right (by omega)
    have hstarted := hf.started id e' hopen
    rw [hbefore, List.mem_append, List.mem_cons] at hopen
    -- inside the element that gets its end tag, that element itself, or around it
    rcases hopen with hopen | hopen | hopen
    · have htag' : e'.tag = none := hunnamed _ hopen
      obtain rfl := Option.some.inj ((left_open hframe hbefore hopened hopen).1.symm.trans he)
      simp [Element.isFaulty, htag'] at hfaulty
    · obtain ⟨rfl, rfl⟩ := Prod.mk.inj hopen
      obtain rfl := Option.some.inj (hcore.symm.trans he)
      simp [Element.isFaulty, Element.isUnended, Element.hasStartTag, Element.hasEndTag,
        hstarted.1] at hfaulty
    · exact hid ⟨e', hopened ▸ hopen⟩
  | stray _ hkind _ _ hothers => exact ⟨hkind, head?_names_ne hothers⟩

theorem Acts.faulty_of_mismatch (hacts : Acts s b t b') (hf : Follows s x b)
    (ht : t.kind = .endTagName) (hne : b.names.head? ≠ some (t.written s)) : Faulty b' := by
  cases hacts with
  | quiet hk => simp [ht, Token.Kind.pairs] at hk
  | opens hk | names hk | closes hk =>
    rw [ht] at hk
    cases hk
  | ends _ _ hframe _ hbefore _ hothers htag hopened =>
    rw [ne_eq, head?_names hbefore htag hothers] at hne
    simp only [not_forall] at hne
    obtain ⟨⟨c, e⟩, hc, htag'⟩ := hne
    obtain ⟨hcore, hopen⟩ := left_open hframe hbefore hopened hc
    refine ⟨c, e, hcore, hopen, ?_⟩
    rw [Element.isFaulty_eq (hf.started c e (by simp [hbefore, hc]))]
    exact Option.isSome_iff_ne_none.mpr htag'
  | stray _ _ _ hsize _ hopened _ hcore =>
    refine ⟨_, _, hcore, ?_, rfl⟩
    rintro ⟨e, he⟩
    rw [hopened] at he
    exact Nat.lt_irrefl _ (lt_size_of_core (mem_opened.mp he).2.1)

theorem Acts.faulty_iff (hacts : Acts s b t b') (hf : Follows s x b) :
    Faulty b' ↔ Faulty b ∨ (t.kind = .endTagName ∧ b.names.head? ≠ some (t.written s)) := by
  constructor
  · exact hacts.mismatch_of_faulty hf
  · rintro (h | ⟨ht, hne⟩)
    · exact h.acts hacts
    · exact hacts.faulty_of_mismatch hf ht hne

/-- A token that is not the name of an end tag leaves what is to be closed and the brackets behind it
in balance. -/
theorem Acts.nests_eq (hacts : Acts s b t b') (hc : x.Consistent)
    (hreads : Reads x pos spaced t.kind y) (ht : t.kind ≠ .endTagName) (rest : List Token) :
    nests (awaited y.inStartTag b' rest) (tags s rest) =
      nests (awaited x.inStartTag b (t :: rest)) (tags s (t :: rest)) := by
  cases hacts with
  | quiet hk hq =>
    have hstays : y.inStartTag = (x.inStartTag && t.kind.staysInTag) :=
      hreads.inStartTag_eq hc (fun h => by simp [h, Token.Kind.pairs] at hk)
        fun h => by simp [h, Token.Kind.pairs] at hk
    have htags : tags s (t :: rest) = tags s rest := by
      cases hkind : t.kind <;> simp_all [tags, Token.Kind.pairs]
    have hself : t.kind ≠ .startTagSelfClose := fun h => by simp [h, Token.Kind.pairs] at hk
    simp [awaited, Builder.names, htags, hq.opened, hstays, selfCloses, hself, Bool.and_assoc]
  | opens hk _ hopened =>
    simp [awaited, Builder.names, tags, hk, hopened, selfCloses, Token.Kind.staysInTag]
  | names hk _ _ _ hbefore hunnamed hopened =>
    have hy := (hk ▸ hreads).behind_name
    cases hrest : selfCloses rest <;>
      simp [awaited, Builder.names, tags, hk, hbefore, hopened, hunnamed, hy, hrest, selfCloses,
        Token.Kind.staysInTag, nests]
  | closes hk _ _ hbefore hopened =>
    rw [hk] at hreads
    have hx := hreads.before_selfClose
    have hy := hreads.inStartTag_eq hc (by simp) (by simp)
    simp [awaited, Builder.names, tags, hk, hbefore, hopened, hx, hy, selfCloses,
      Token.Kind.staysInTag]
  | ends _ hk | stray _ hk => exact absurd hk ht

theorem Acts.tail_names (hacts : Acts s b t b') (ht : t.kind = .endTagName)
    (hhead : b.names.head? = some (t.written s)) : b.names.tail = b'.names := by
  cases hacts with
  | quiet hk => simp [ht, Token.Kind.pairs] at hk
  | opens hk | names hk | closes hk =>
    rw [ht] at hk
    cases hk
  | ends _ _ _ _ hbefore _ hothers htag hopened =>
    have hunnamed := (head?_names hbefore htag hothers).mp hhead
    rw [names_eq hbefore htag, List.filterMap_eq_nil_iff.mpr hunnamed, Builder.names, hopened]
    rfl
  | stray _ _ _ _ hothers => exact absurd hhead (head?_names_ne hothers)

/-- The brackets are in balance before a token just where they are so behind it, unless the token makes
something be reported. -/
theorem Follows.nests_step (h : Follows s x b) (hlt : x.pos < size s) (rest : List Token) :
    (¬ Faulty (Builder.step s b (x.step s).1 (x.step s).2.inDtd) ∧
      nests (awaited (x.step s).2.inStartTag (Builder.step s b (x.step s).1 (x.step s).2.inDtd) rest)
        (tags s rest)) ↔
    (¬ Faulty b ∧
      nests (awaited x.inStartTag b ((x.step s).1 :: rest)) (tags s ((x.step s).1 :: rest))) := by
  obtain ⟨hacts, -⟩ := h.next hlt
  obtain ⟨z, hc, hz, hreads⟩ := Lexer.exists_reads h.consistent h.boundary hlt
  generalize Builder.step s b (x.step s).1 (x.step s).2.inDtd = b' at hacts ⊢
  generalize (x.step s).1 = t at hacts hreads ⊢
  generalize (x.step s).2 = y at hreads ⊢
  rw [hacts.faulty_iff h, ← hz]
  by_cases ht : t.kind = .endTagName
  · rw [ht] at hreads
    have hy := hreads.inStartTag_eq hc (by simp) (by simp)
    by_cases hhead : b.names.head? = some (t.written s)
    · simp [awaited, tags, ht, hhead, hy, selfCloses, Token.Kind.staysInTag, nests,
        hacts.tail_names ht hhead]
    · simp [awaited, tags, ht, hhead, selfCloses, Token.Kind.staysInTag, nests]
  · rw [hacts.nests_eq hc hreads ht]
    simp [ht]

/-- Nothing is reported about the elements that the text from here on leads to just where nothing is
so far and the brackets behind balance those that are open. -/
theorem Follows.clean_iff (x : Lexer) (b : Builder) (h : Follows s x b) :
    (∀ id e, (atEnd s (Builder.run s x b)).core id = some e → e.isFaulty = false) ↔
      ¬ Faulty b ∧ nests (awaited x.inStartTag b (scanned s x)) (tags s (scanned s x)) := by
  rcases Nat.lt_or_ge x.pos (size s) with hlt | hge
  · obtain ⟨-, hnext⟩ := h.next hlt
    have hahead := h.pos_lt hlt
    rw [run_of_lt h.boundary hlt, scanned_of_lt h.boundary hlt, ← h.nests_step hlt]
    exact Follows.clean_iff _ _ hnext
  · have hquiet := h.fits.quiet_atEnd
    have hcore {id : Nat} {e : Element} (he : b.core id = some e) :
        (atEnd s b).core id = some e := (hquiet.core id (lt_size_of_core he) (by simp)).trans he
    have hnames : nests (awaited x.inStartTag b []) (tags s []) = true ↔
        ∀ c ∈ b.opened, c.2.tag = none := by
      simp [awaited, selfCloses, tags, nests, names, List.filterMap_eq_nil_iff]
    rw [run_of_ge hge, scanned, Lexer.tokens_at_end hge, List.map_nil, hnames]
    constructor
    · refine fun hclean => ⟨?_, ?_⟩
      · rintro ⟨id, e, he, _, hfaulty⟩
        simp [hclean id e (hcore he)] at hfaulty
      · rintro ⟨id, e⟩ hc
        have hfaulty := hclean id e (hcore (mem_opened.mp hc).2.1)
        simpa [Element.isFaulty_eq (h.started id e hc)] using hfaulty
    · rintro ⟨hsettled, hunnamed⟩ id e he
      rw [Bool.eq_false_iff]
      intro hfaulty
      rcases Nat.lt_or_ge id b.nodes.size with hid | hid
      · rw [hquiet.core id hid (by simp)] at he
        by_cases hopen : b.IsOpen id
        · obtain ⟨e', hc⟩ := hopen
          obtain rfl := Option.some.inj (he.symm.trans (mem_opened.mp hc).2.1)
          simp [Element.isFaulty, show e.tag = none from hunnamed _ hc] at hfaulty
        · exact hsettled ⟨id, e, he, hopen, hfaulty⟩
      · simp [Element.isFaulty, (hquiet.fresh id e hid he).1] at hfaulty
termination_by size s - x.pos
decreasing_by omega

/-- The elements of a whole text: those with a start tag and a name know where the name is written,
and none is faulty just where the named tags nest. -/
theorem clean_build (s : String) (dtdFile : Bool) :
    ∃ b : Builder, b.nodes = build s dtdFile ∧
      (∀ id e, b.core id = some e → e.startOpen.isSome = true → e.tag.isSome = true →
        e.tagSpan.isSome = true) ∧
      ((∀ id e, b.core id = some e → e.isFaulty = false) ↔ nests [] (tags s (scanned s
        (if dtdFile then Lexer.declarations else Lexer.document)))) := by
  have hstart := follows_start s dtdFile
  obtain ⟨y, -, hf, -⟩ := Follows.run (Q := fun _ => True) _ _ hstart trivial fun _ _ _ _ _ _ _ => trivial
  -- the end of the text acts like one more token, which opens and closes nothing
  have hacts : Acts s _ ⟨.eos, size s, size s, none⟩ _ := .quiet rfl hf.fits.quiet_atEnd
  refine ⟨_, (build_eq s dtdFile).symm, hacts.tagged hf.tagged, ?_⟩
  have hsettled : ¬ Faulty (start s dtdFile) := fun ⟨id, e, he, _⟩ => by simp [core_start] at he
  have hopened : (start s dtdFile).opened = [] :=
    List.eq_nil_iff_forall_not_mem.mpr fun ⟨id, e⟩ he => by
      simpa [core_start] using (mem_opened.mp he).2.1
  rw [Follows.clean_iff _ _ hstart, and_iff_right hsettled]
  simp [awaited, names, hopened]

end Builder

namespace Diagnostics

open Document

variable {d : Document} {id : Nat} {e : Element} {x : Diagnostic}

/-- The diagnostic is about a tag without a counterpart. -/
def IsAboutTag (x : Diagnostic) : Prop := x.code = some unclosedCode ∨ x.code = some unmatchedCode

theorem code_of_mem_errorAt {rangeOf : Span → Except BadLocation Range} {span : Span}
    {code message : String} (h : x ∈ Diagnostic.errorAt rangeOf span code message) :
    x.code = some code := by
  unfold Diagnostic.errorAt at h
  split at h
  · rw [List.mem_singleton.mp h]
  · cases h

theorem exists_mem_errorAt {rangeOf : Span → Except BadLocation Range} {span : Span}
    (code message : String) (h : ∃ r, rangeOf span = .ok r) :
    (∃ x ∈ Diagnostic.errorAt rangeOf span code message, IsAboutTag x) ↔
      code = unclosedCode ∨ code = unmatchedCode := by
  obtain ⟨r, hr⟩ := h
  simp [Diagnostic.errorAt, hr, IsAboutTag]

theorem not_isAboutTag_of_mem_ofTokens (h : x ∈ ofTokens d) : ¬ IsAboutTag x := by
  obtain ⟨⟨t, _⟩, -, hx⟩ := List.mem_flatMap.mp h
  cases hfault : t.fault with
  | none => simp [hfault] at hx
  | some fault =>
    simp only [hfault] at hx
    rw [IsAboutTag, code_of_mem_errorAt hx]
    cases fault <;> simp [Token.Fault.code, unclosedCode, unmatchedCode]

theorem not_isAboutTag_of_mem_ofDoctype {settings : Settings} (h : x ∈ ofDoctype d settings) :
    ¬ IsAboutTag x := by
  unfold ofDoctype at h
  split at h
  · split at h
    · simp [IsAboutTag, code_of_mem_errorAt h, doctypeCode, unclosedCode, unmatchedCode]
    · cases h
  · cases h

theorem not_isAboutTag_of_mem_incomplete {tag : String} {a : Attribute}
    (h : x ∈ incomplete d tag id a) : ¬ IsAboutTag x := by
  unfold incomplete at h
  split at h
  · simp [IsAboutTag, code_of_mem_errorAt h, missingEqualsCode, unclosedCode, unmatchedCode]
  · split at h
    · simp [IsAboutTag, code_of_mem_errorAt h, missingQuoteCode, unclosedCode, unmatchedCode]
    · cases h

theorem not_isAboutTag_of_mem_duplicate {tag : String} {a first : Attribute}
    (h : x ∈ duplicate d tag a first) : ¬ IsAboutTag x := by
  unfold duplicate at h
  split at h
  · cases h
  · rw [List.mem_singleton.mp h]
    simp [IsAboutTag, duplicateCode, unclosedCode, unmatchedCode]

theorem not_isAboutTag_of_mem_ofAttributes {tag : String} {seen : List Attribute}
    {attributes : List (Nat × Attribute)} (h : x ∈ ofAttributes d tag seen attributes) :
    ¬ IsAboutTag x := by
  induction attributes generalizing seen with
  | nil => cases h
  | cons a attributes ih =>
    rw [ofAttributes, List.mem_append, List.mem_append] at h
    rcases h with (h | h) | h
    · split at h
      · exact not_isAboutTag_of_mem_duplicate h
      · cases h
    · exact not_isAboutTag_of_mem_incomplete h
    · exact ih h

theorem exists_mem_ofElement (hstart : e.hasStartTag = true → e.tag.isSome = true →
      ∃ r, d.rangeOf (d.startTagSpan id e) = .ok r)
    (hend : ∀ span, e.endTagSpan = some span → ∃ r, d.rangeOf span = .ok r) :
    (∃ x ∈ ofElement d id e, IsAboutTag x) ↔ e.isFaulty = true := by
  unfold ofElement
  cases htag : e.tag with
  | none => simp [Element.isFaulty, htag]
  | some tag =>
    by_cases hs : e.hasStartTag = true
    · have hfaulty : e.isFaulty = (!e.selfClosed && !e.hasEndTag) := by
        simp [Element.isFaulty, Element.isUnended, htag, hs]
      have hattributes : ¬ ∃ x ∈ ofAttributes d tag [] (d.attributes id), IsAboutTag x := by
        rintro ⟨_, hx, h⟩
        exact not_isAboutTag_of_mem_ofAttributes hx h
      simp only [if_pos hs, List.mem_append, or_and_right, exists_or, or_iff_left hattributes]
      rw [hfaulty]
      split
      · rename_i hun
        rw [exists_mem_errorAt _ _ (hstart hs (by simp [htag])), hun]
        simp
      · simp_all
    · have hfaulty : e.isFaulty = e.endTagSpan.isSome := by
        simp [Element.isFaulty, Element.isUnended, htag, hs]
      simp only [if_neg hs]
      rw [hfaulty]
      split
      · rename_i span hspan
        rw [exists_mem_errorAt _ _ (hend span hspan)]
        simp [hspan]
      · rename_i hnone
        simp [hnone]

theorem mem_elements {text uri : String} :
    id ∈ (parse text uri).elements ↔ ∃ e, (parse text uri).element? id = some e := by
  obtain ⟨⟨_, h⟩, -⟩ := Builder.build_spec text (isDtdUri uri)
  have harena : Arena (parse text uri).nodes := h.arena
  rw [elements, List.mem_filter, (tree_of_arena harena).visited, Node.isElement, Option.isSome_iff_exists]
  refine ⟨And.right, fun ⟨e, he⟩ => ⟨?_, e, he⟩⟩
  obtain ⟨n, hn, hne⟩ := exists_node_of_element? he
  refine ⟨n, hn, ?_⟩
  simp [Node.isAttribute, Node.attribute?, kind_of_element? hne]

theorem exists_element_of_isAboutTag {settings : Settings} (h : x ∈ ofSyntax d settings) (habout : IsAboutTag x) :
    ∃ id e, d.element? id = some e ∧ x ∈ ofElement d id e := by
  rw [ofSyntax, List.mem_append, List.mem_append] at h
  rcases h with (h | h) | h
  · exact absurd habout (not_isAboutTag_of_mem_ofTokens h)
  · exact absurd habout (not_isAboutTag_of_mem_ofDoctype h)
  · obtain ⟨id, -, hx⟩ := List.mem_flatMap.mp h
    split at hx
    · rename_i e he
      exact ⟨id, e, he, hx⟩
    · cases hx

theorem exists_mem_ofSyntax (text uri : String) (settings : Settings)
    (htagged : ∀ id e, (parse text uri).element? id = some e → e.hasStartTag = true →
      e.tag.isSome = true → e.tagSpan.isSome = true) :
    (∃ x ∈ ofSyntax (parse text uri) settings, IsAboutTag x) ↔
      ∃ id e, (parse text uri).element? id = some e ∧ e.isFaulty = true := by
  have hranges {id : Nat} {e : Element} (he : (parse text uri).element? id = some e) :
      ∀ sp ∈ e.tagSpan.toList ++ e.endTagSpan.toList, ∃ r, (parse text uri).rangeOf sp = .ok r := by
    obtain ⟨n, hn, hne⟩ := exists_node_of_element? he
    intro sp hsp
    have hlies := lies_of_mem (Array.mem_of_getElem? hn) sp (List.mem_cons_of_mem _ ?_)
    · exact exists_rangeOf hlies.start hlies.stop
    · rwa [kind_of_element? hne]
  have hofElement {id : Nat} {e : Element} (he : (parse text uri).element? id = some e) :
      (∃ x ∈ ofElement (parse text uri) id e, IsAboutTag x) ↔ e.isFaulty = true := by
    refine exists_mem_ofElement (fun hs htag => ?_) fun span hspan => hranges he span (by simp [hspan])
    obtain ⟨span, hspan⟩ := Option.isSome_iff_exists.mp (htagged id e he hs htag)
    rw [startTagSpan, hspan]
    exact hranges he span (by simp [hspan])
  constructor
  · rintro ⟨x, hx, habout⟩
    obtain ⟨id, e, he, hx⟩ := exists_element_of_isAboutTag hx habout
    exact ⟨id, e, he, (hofElement he).mp ⟨x, hx, habout⟩⟩
  · rintro ⟨id, e, he, hfaulty⟩
    obtain ⟨x, hx, habout⟩ := (hofElement he).mpr hfaulty
    refine ⟨x, List.mem_append_right _ (List.mem_flatMap.mpr ⟨id, mem_elements.mpr ⟨e, he⟩, ?_⟩), habout⟩
    simpa only [he] using hx

end Diagnostics

namespace Document

/-- **Tags as brackets**: nothing is reported about the tags of a text just where the named tags
nest. -/
theorem tags_nest_iff (text uri : String) (settings : Settings) :
    (∀ x ∈ Diagnostics.ofSyntax (parse text uri) settings,
      x.code ≠ some Diagnostics.unclosedCode ∧ x.code ≠ some Diagnostics.unmatchedCode) ↔
      nests [] (tags text (parse text uri).tokens) = true := by
  obtain ⟨b, hnodes, htagged, hclean⟩ := Builder.clean_build text (isDtdUri uri)
  have hb : b.nodes = (parse text uri).nodes := hnodes
  have hcore (id : Nat) : b.core id = ((parse text uri).element? id).map Element.core :=
    core_eq_element? hb id
  have hreported := Diagnostics.exists_mem_ofSyntax text uri settings fun id e he =>
    htagged id e.core (by rw [hcore, he]; rfl)
  calc (∀ x ∈ Diagnostics.ofSyntax (parse text uri) settings,
        x.code ≠ some Diagnostics.unclosedCode ∧ x.code ≠ some Diagnostics.unmatchedCode)
      ↔ ¬ ∃ x ∈ Diagnostics.ofSyntax (parse text uri) settings, Diagnostics.IsAboutTag x := by
        simp [Diagnostics.IsAboutTag]
    _ ↔ ¬ ∃ id e, (parse text uri).element? id = some e ∧ e.isFaulty = true := not_congr hreported
    _ ↔ ∀ id e, b.core id = some e → e.isFaulty = false := by
        simp only [hcore, Option.map_eq_some_iff, forall_exists_index, and_imp, not_exists, not_and,
          Bool.not_eq_true]
        exact ⟨fun h id _ e he heq => heq ▸ h id e he, fun h id e he => h id e.core e he rfl⟩
    _ ↔ nests [] (tags text (parse text uri).tokens) = true := by
        rw [hclean, tokens_parse]

end Document

end XmlAssist

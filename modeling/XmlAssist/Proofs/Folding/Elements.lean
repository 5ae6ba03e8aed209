import XmlAssist.Folding
import XmlAssist.Proofs.Tree.Inside
import XmlAssist.Proofs.Tree.Tagged

/-!
# Folds of elements

Folds are found with a stack of their own. Where all tags are complete, the stack holds the names of the open
elements of the tree: an end tag that has its name but not yet its `>` has closed its element in the tree, and
the stack still holds it (`Agrees`). Each token keeps the two together (`Agrees.step`). Main statement: where a
document has nothing but elements, attributes and text, every end tag with a `>` has a name, every named end tag of
an element has its `>`, and every element closed by `/>` has a name, each fold is that of an element
(`ranges_of_elements`).
-/

namespace XmlAssist

open Node
open Text (size isBoundary)
open Lexer (Leads Falls)

namespace Builder

variable {s : String} {x y : Lexer} {b b' : Builder} {t : Token} {e : Element} {id i j : Nat}
variable {fault : Option Token.Fault} {inDtd : Bool}

theorem Follows.not_mem_chain_of_closed (hf : Follows s y b) (hy : y.InTags) (hmode : y.mode ≠ .inEndTag)
    (hkind : b.kindOf id = .element e) (hclosed : e.closed = true) : id ∉ chain b.nodes b.current := by
  have hphase := hf.fits.phase
  have hin := hy.mode
  have hunclosed : Unclosed b.nodes b.current := by
    cases hm : y.mode <;> simp only [hm] at hin
    all_goals simp only [Phase, hm] at hphase
    case content => exact hphase.unclosed
    case afterEndTagOpen => exact hphase.choose_spec.2.unclosed
    case inEndTag => exact absurd hm hmode
    all_goals exact hphase.1.unclosed
  intro hmem
  obtain ⟨n, hn, hk⟩ := exists_node hkind (by rintro ⟨⟩)
  have hopen := hunclosed id hmem n hn
  rw [hk] at hopen
  exact Bool.false_ne_true (hopen.symm.trans hclosed)

theorem kindOf_step_of_starts {kind : Token.Kind}
    (hkind : kind = .text ∨ kind = .startTagOpen ∨ kind = .endTagOpen) (hid : id < b.nodes.size) :
    (step s b ⟨kind, i, j, fault⟩ inDtd).kindOf id = b.kindOf id := by
  have hbefore := retains_beforeMarkup b i inDtd
  rcases hkind with rfl | rfl | rfl
  · rw [step_text]
    exact (hbefore.trans (retains_append (k := .text) trivial _)).old id hid
  · rw [step_startTagOpen]
    exact (hbefore.trans (retains_openNode (k := .element { startOpen := some i }) ⟨rfl, rfl⟩ _)).old id hid
  · rw [step_endTagOpen]
    exact (hbefore.trans (.of_nodes rfl)).old id hid

theorem Follows.endClose_of_open (hf : Follows s x b) (hkind : b.kindOf id = .element e) (hopen : e.closed = false) :
    e.endClose = none := by
  obtain ⟨_, _, hrecords⟩ := hf.records
  obtain ⟨n, hn, hk⟩ := exists_node hkind (by rintro ⟨⟩)
  have hcloses := (hrecords.sound id n hn).kind.closes
  rw [hk] at hcloses
  cases hclose : e.endClose with
  | none => rfl
  | some o =>
    have hclosed := hcloses.2.2 (by rw [hclose]; rfl)
    exact absurd (hopen.symm.trans hclosed) (by simp)

theorem kindOf_closeNearest {o : Nat} (h : (chain b.nodes b.current).find? (b.isOpenAs (t.written s)) = some id)
    (hkind : b.kindOf id = .element e) : (closeNearest s b o t).kindOf id =
      .element { e with closed := true, endOpen := some o, endTagSpan := some t.span } := by
  simp only [closeNearest, h, closeAt_eq hkind]
  refine (kindOf_update (k := .element e) ?_ (by rintro ⟨⟩) :)
  exact (kindOf_reach ..).trans hkind

theorem kindOf_startTagSelfClose (hkind : b.kindOf b.current = .element e) :
    (step s b ⟨.startTagSelfClose, i, j, fault⟩ inDtd).kindOf b.current =
      .element { e with startClose := some i, selfClosed := true, closed := true } := by
  rw [step_startTagSelfClose hkind]
  exact (kindOf_update (b := { b with openAttribute := none }) hkind (by rintro ⟨⟩) :)

theorem kindOf_endTagClose (hkind : b.kindOf b.current = .element e) (hpending : b.endTagOpen = none)
    (hclosed : e.closed = true) (hend : e.endOpen.isSome = true) :
    (step s b ⟨.endTagClose, i, j, fault⟩ inDtd).kindOf b.current = .element { e with endClose := some i } := by
  rw [step_endTagClose hkind hpending hclosed hend]
  exact (kindOf_update hkind (by rintro ⟨⟩) :)

theorem kindOf_endTagClose_of_pending {o : Nat} (hpending : b.endTagOpen = some o) :
    (step s b ⟨.endTagClose, i, j, fault⟩ inDtd).kindOf b.nodes.size =
      .element { endOpen := some o, endClose := some i, closed := true } := by
  rw [step_endTagClose_of_some hpending, flushEndTag, hpending]
  exact (kindOf_openNode_eq { b with endTagOpen := none } _ ⟨o, j⟩ b.nodes.size).trans (if_pos rfl)

theorem endTagOpen_unknown : (step s b ⟨.unknown, i, j, fault⟩ inDtd).endTagOpen = b.endTagOpen := by
  cases hkind : b.kindOf b.current with
  | element e =>
    simp only [step, tagToken, hkind]
    split <;> rfl
  | _ => simp only [step, tagToken, hkind]

end Builder

namespace Folding

open Builder (Acts Follows step behind start)

variable {d : Document} {settings : Settings.Foldings} {x y z : Lexer} {b b' : Builder} {st st' : State} {e : Element}
variable {t : Token} {l : List (Token × Lexer)} {r : FoldingRange} {id : Nat}

/-- The fold is that of the element: from the line of the name in its start tag to that of its `/>`, or to that of the
`>` of its end tag, which is left out if end tags are to stay visible. -/
def Folds (d : Document) (settings : Settings.Foldings) (e : Element) (r : FoldingRange) : Prop :=
  r.kind = none ∧ ∃ sp offset p q, e.tagSpan = some sp ∧
    d.positionAt sp.start = .ok p ∧ r.startLine = p.line ∧
    d.positionAt offset = .ok q ∧
    ((e.selfClosed = true ∧ e.startClose = some offset ∧ r.endLine = q.line) ∨
      (e.endClose = some offset ∧ r.endLine = if settings.includeClosingTag then q.line else q.line - 1))

/-- What is closed has its names and brackets: an end tag with `>` has a name, a named end tag of an element with a
start tag has its `>`, and what `/>` closes has a name. -/
structure Complete (e : Element) : Prop where
  named : e.endClose.isSome = true → e.endTagSpan.isSome = true
  closed : e.startOpen.isSome = true → e.endTagSpan.isSome = true → e.endClose.isSome = true
  selfClosed : e.selfClosed = true → e.tag.isSome = true

instance : DecidablePred Complete := fun e =>
  decidable_of_iff ((e.endClose.isSome = true → e.endTagSpan.isSome = true) ∧
    (e.startOpen.isSome = true → e.endTagSpan.isSome = true → e.endClose.isSome = true) ∧
    (e.selfClosed = true → e.tag.isSome = true))
    ⟨fun ⟨h, h', h''⟩ => ⟨h, h', h''⟩, fun ⟨h, h', h''⟩ => ⟨h, h', h''⟩⟩

/-! ## The stack -/

def entryOf (d : Document) (e : Element) : Option Opened :=
  match e.tag, e.tagSpan with
  | some w, some sp => some ⟨lineAt d sp.start, some w⟩
  | _, _ => none

def entries (d : Document) (opened : List (Nat × Element)) : List Opened := opened.filterMap fun p => entryOf d p.2

theorem tag_of_mem_entries {opened : List (Nat × Element)} {o : Opened} (h : o ∈ entries d opened) :
    ∃ p ∈ opened, p.2.tag = o.tag := by
  obtain ⟨p, hp, hentry⟩ := List.mem_filterMap.mp h
  rw [entryOf] at hentry
  split at hentry
  · rename_i htag _
    obtain rfl := Option.some.inj hentry
    exact ⟨p, hp, htag⟩
  · cases hentry

theorem opened_closeElement {inner outer : List Opened} {w : String} {o : Opened}
    (hlast : st.lastTag = some w) (hinner : ∀ o ∈ inner, o.tag ≠ some w) (ho : o.tag = some w)
    (hstack : st.opened = inner ++ o :: outer) (endLine : Nat) :
    (st.closeElement endLine).opened = outer ∧
      ∀ r ∈ (st.closeElement endLine).ranges, r ∈ st.ranges ∨ r = { startLine := o.startLine, endLine } := by
  have hdrop : st.opened.dropWhile (·.tag != some w) = o :: outer := by
    rw [hstack, List.dropWhile_append_of_pos fun o ho => by simpa using hinner o ho]
    simp [ho]
  simp only [State.closeElement, hlast, hdrop]
  split
  · exact ⟨rfl, fun r hr => (List.mem_cons.mp hr).symm⟩
  · exact ⟨rfl, fun r hr => .inl hr⟩

theorem closeElement_of_none {w : String} (hlast : st.lastTag = some w) (hnone : ∀ o ∈ st.opened, o.tag ≠ some w)
    (endLine : Nat) : st.closeElement endLine = st := by
  have hdrop : st.opened.dropWhile (·.tag != some w) = [] :=
    List.dropWhile_eq_nil_iff.mpr fun o ho => by simpa using hnone o ho
  simp only [State.closeElement, hlast, hdrop]

/-- The stack holds the open elements; behind the name of an end tag it still holds what that closes. -/
inductive Agrees (d : Document) (y : Lexer) (b : Builder) (st : State) : Prop
  | outside (pending : y.mode = .inEndTag → b.endTagOpen.isSome = true) (stack : st.opened = entries d b.opened)
      (last : y.inStartTag = true → ∀ p ∈ b.opened.head?, p.2.tag.isSome = true → st.lastTag = p.2.tag)
  | ending {e : Element} {w : String} (mode : y.mode = .inEndTag) (named : b.endTagOpen = none)
      (current : b.kindOf b.current = .element e) (closed : e.closed = true) (ended : e.endTagSpan.isSome = true)
      (opened : e.endOpen.isSome = true) (unclosed : e.endClose = none) (last : st.lastTag = some w)
      (stack : (e.startOpen.isSome = true ∧ ∃ inner sp, e.tagSpan = some sp ∧
      (∀ o ∈ inner, o.tag ≠ some w) ∧
          st.opened = inner ++ ⟨lineAt d sp.start, some w⟩ :: entries d b.opened) ∨
        (st.opened = entries d b.opened ∧ ∀ o ∈ st.opened, o.tag ≠ some w))

theorem Agrees.of_falls {spaced : Bool} {s : String} (h : Agrees d x b st) (hx : x.InTags) (hfits : Builder.Fits s x b)
    (hfall : Falls x spaced z) : Agrees d z b st := by
  have hphase := hfits.phase
  cases h with
  | outside _ stack last =>
    refine .outside (fun hm => ?_) stack (hfall.inStartTag_eq ▸ last)
    cases hfall with
    | startTag => cases hm
    | endTag hmode =>
      simp only [Builder.Phase, hmode] at hphase
      obtain ⟨_, -, hpending⟩ := hphase
      simp [hpending.endTagOpen]
    | backInTag =>
      rw [Lexer.moved_mode, Lexer.tagMode, hx.inProlog] at hm
      cases hm
    | instruction => cases hm
  | ending mode => rcases hfall with hm | hm | (hm | hm) | hm <;> simp [hm] at mode

theorem Agrees.of_mode (h : Agrees d z b st) (hmode : y.mode = z.mode) (hin : y.inStartTag = z.inStartTag) :
    Agrees d y b st := by
  cases h with
  | outside pending stack last => exact .outside (hmode ▸ pending) stack (hin ▸ last)
  | ending mode named current closed ended opened unclosed last stack =>
    exact .ending (hmode.trans mode) named current closed ended opened unclosed last stack

/-- The fold that the token closes is that of the element. -/
def IsFold (d : Document) (settings : Settings.Foldings) (t : Token) (e : Element) (r : FoldingRange) : Prop :=
  ∃ sp, e.tagSpan = some sp ∧
    ((e.selfClosed = true ∧ e.startClose = some t.start ∧
        r = { startLine := lineAt d sp.start, endLine := lineAt d t.start }) ∨
      (e.endClose = some t.start ∧ r = { startLine := lineAt d sp.start, endLine := closingLine d settings t.start }))

/-- Behind the token the stack still holds the open elements, and each new fold is that of an element which the token
closes. -/
structure Advances (d : Document) (settings : Settings.Foldings) (t : Token) (y : Lexer) (b : Builder)
    (st st' : State) : Prop where
  agrees : Agrees d y b st'
  ranges : ∀ r ∈ st'.ranges, r ∈ st.ranges ∨
    ∃ id e, b.kindOf id = .element e ∧ e.closed = true ∧ y.mode ≠ .inEndTag ∧ IsFold d settings t e r

theorem Agrees.advances (h : Agrees d y b' st') (hranges : st'.ranges = st.ranges) :
    Advances d settings t y b' st st' := ⟨h, fun _ hr => .inl (hranges ▸ hr)⟩

section step

variable {inDtd : Bool} (h : Agrees d z b st) (hz : Follows d.text z b)
variable (hb' : step d.text b t inDtd = b') (hacts : Acts d.text b t b')
variable (hcomplete : ∀ id e, y.mode ≠ .inEndTag → b'.kindOf id = .element e → e.closed = true → Complete e)

section outside

variable (stack : st.opened = entries d b.opened)
include stack

include hacts in
theorem agrees_of_quiet (hkind : t.kind.pairs = false) (hmode : y.mode ≠ .inEndTag)
    (last : y.inStartTag = true → ∀ p ∈ b.opened.head?, p.2.tag.isSome = true → st.lastTag = p.2.tag) :
    Agrees d y b' st := by
  cases hacts with
  | quiet _ hq => exact .outside (fun hm => absurd hm hmode) (by rw [stack, hq.opened]) (by rwa [hq.opened])
  | opens kind | closes kind | names kind | ends _ kind | stray _ kind => simp [kind, Token.Kind.pairs] at hkind

include hacts in
theorem agrees_of_opens (hkind : t.kind = .startTagOpen) (hmode : y.mode ≠ .inEndTag) : Agrees d y b' st := by
  cases hacts with
  | opens _ _ opened =>
    refine .outside (fun hm => absurd hm hmode) ?_ fun _ p hp hnamed => ?_
    · rw [stack, opened]
      rfl
    · obtain rfl : p = _ := by simpa [opened, eq_comm] using hp
      cases hnamed
  | quiet kind => simp [hkind, Token.Kind.pairs] at kind
  | closes kind | names kind | ends _ kind | stray _ kind => simp [hkind] at kind

include hacts in
theorem agrees_of_names (hkind : t.kind = .startTagName) (hmode : y.mode ≠ .inEndTag) :
    Agrees d y b' (st.step d settings t) := by
  have hstep : st.step d settings t = { st with
      opened := ⟨lineAt d t.start, some (t.written d.text)⟩ :: st.opened, lastTag := some (t.written d.text) } := by
    simp only [State.step, hkind]
    rfl
  cases hacts with
  | names _ _ _ _ before unnamed opened =>
    refine .outside (fun hm => absurd hm hmode) ?_ fun _ p hp _ => ?_
    · rw [hstep, stack, before, opened]
      simp [entries, entryOf, unnamed, Token.span]
    · obtain rfl : p = _ := by simpa [opened, eq_comm] using hp
      rw [hstep]
  | quiet kind => simp [hkind, Token.Kind.pairs] at kind
  | opens kind | closes kind | ends _ kind | stray _ kind => simp [hkind] at kind

include hz hb' hacts hcomplete in
theorem advances_of_closes (hkind : t.kind = .startTagSelfClose) (hmode : y.mode ≠ .inEndTag)
    (hin : y.inStartTag = false)
    (last : ∀ p ∈ b.opened.head?, p.2.tag.isSome = true → st.lastTag = p.2.tag) :
    Advances d settings t y b' st (st.step d settings t) := by
  cases hacts with
  | @closes e outer _ _ _ before opened core =>
    obtain ⟨-, hcore, -⟩ := Builder.mem_opened.mp (show (b.current, e) ∈ b.opened by simp [before])
    obtain ⟨hstarted, -⟩ := hz.started b.current e (by simp [before])
    obtain ⟨e₀, he₀, rfl⟩ := Builder.core_eq_some.mp hcore
    obtain ⟨kind, i, j, fault⟩ := t
    obtain rfl : kind = .startTagSelfClose := hkind
    have hclosed : b'.kindOf b.current =
        .element { e₀ with startClose := some i, selfClosed := true, closed := true } :=
      hb' ▸ Builder.kindOf_startTagSelfClose he₀
    obtain ⟨w, hw⟩ := Option.isSome_iff_exists.mp ((hcomplete _ _ hmode hclosed rfl).selfClosed rfl)
    obtain ⟨sp, hsp⟩ := Option.isSome_iff_exists.mp (hz.tagged _ _ hcore hstarted (Option.isSome_of_eq_some hw))
    have hlast : st.lastTag = some w :=
      (last (b.current, e₀.core) (by simp [before]) (Option.isSome_of_eq_some hw)).trans hw
    have hstack : st.opened = [] ++ ⟨lineAt d sp.start, some w⟩ :: entries d outer := by
      rw [stack, before]
      exact List.filterMap_cons_some (by simp only [entryOf, hsp, show e₀.core.tag = some w from hw])
    obtain ⟨hopened, hranges⟩ := opened_closeElement hlast (by simp) rfl hstack (lineAt d i)
    refine ⟨.outside (fun hm => absurd hm hmode) (hopened.trans (by rw [opened])) (by simp [hin]), fun r hr => ?_⟩
    refine (hranges r hr).imp_right fun hr => ?_
    exact ⟨_, _, hclosed, rfl, hmode, sp, hsp, .inl ⟨rfl, rfl, hr⟩⟩
  | quiet kind => simp [hkind, Token.Kind.pairs] at kind
  | opens kind | names kind | ends _ kind | stray _ kind => simp [hkind] at kind

include hz hb' hacts in
theorem agrees_of_ends {start : Nat} (hkind : t.kind = .endTagName) (hmode : y.mode = .inEndTag)
    (hpending : b.endTagOpen = some start) : Agrees d y b' (st.step d settings t) := by
  have hstep : st.step d settings t = { st with lastTag := some (t.written d.text) } := by
    simp only [State.step, hkind]
    rfl
  obtain ⟨kind, i, j, fault⟩ := t
  obtain rfl : kind = .endTagName := hkind
  rw [Builder.step_endTagName] at hb'
  replace hb' := (Builder.endTag_eq hpending).symm.trans hb'
  change Builder.closeNearest d.text { b with endTagOpen := none } start _ = b' at hb'
  have hnamed : b'.endTagOpen = none := by rw [← hb', Builder.endTagOpen_closeNearest]
  have hcurrent : b'.current = (b.nearest? _).getD b.nodes.size := hb' ▸ Builder.current_closeNearest
  rw [hstep]
  cases hacts with
  | @ends _ inner outer id e _ _ _ before _ others tag opened core =>
    have hmem : (id, e) ∈ b.opened := by simp [before]
    obtain ⟨-, hcore, hopen⟩ := Builder.mem_opened.mp hmem
    obtain ⟨hstarted, -⟩ := hz.started id e hmem
    obtain ⟨sp, hsp⟩ := Option.isSome_iff_exists.mp (hz.tagged _ _ hcore hstarted (Option.isSome_of_eq_some tag))
    obtain ⟨e₀, he₀, rfl⟩ := Builder.core_eq_some.mp hcore
    have hunclosed : e₀.endClose = none := hz.endClose_of_open he₀ hopen
    have hnearest := Builder.nearest?_of_opened before others tag
    rw [hnearest, Option.getD_some] at hcurrent
    have hkindOf := hb' ▸ Builder.kindOf_closeNearest (b := { b with endTagOpen := none }) (o := start) hnearest he₀
    refine .ending hmode hnamed ((congrArg b'.kindOf hcurrent).trans hkindOf) rfl rfl rfl hunclosed rfl
      (.inl ⟨hstarted, entries d inner, sp, hsp, fun o ho htag => ?_, ?_⟩)
    · obtain ⟨p, hp, hptag⟩ := tag_of_mem_entries ho
      exact others p hp (hptag.trans htag)
    · rw [opened]
      refine stack.trans ?_
      rw [before, entries, List.filterMap_append]
      congr 1
      exact List.filterMap_cons_some (by simp only [entryOf, hsp, tag])
  | stray _ _ _ _ others opened =>
    have hnearest := Builder.nearest?_of_not_mem others
    rw [hnearest, Option.getD_none] at hcurrent
    have hkindOf := (Builder.kindOf_openNode_eq { b with endTagOpen := none } (.element (Builder.strayElement
      (Token.written d.text ⟨.endTagName, i, j, fault⟩) start ⟨.endTagName, i, j, fault⟩)) ⟨start, j⟩
      b.nodes.size).trans (if_pos rfl)
    rw [← Builder.closeNearest_of_none (b := { b with endTagOpen := none }) hnearest, hb'] at hkindOf
    refine .ending hmode hnamed ((congrArg b'.kindOf hcurrent).trans hkindOf) rfl rfl rfl rfl rfl
      (.inr ⟨?_, fun o ho htag => ?_⟩)
    · rw [opened]
      exact stack
    · obtain ⟨p, hp, hptag⟩ := tag_of_mem_entries (stack ▸ ho : o ∈ entries d b.opened)
      obtain ⟨hc, hcore, -⟩ := Builder.mem_opened.mp hp
      exact others p.1 hc p.2 hcore (hptag.trans htag)
  | quiet kind => simp [Token.Kind.pairs] at kind
  | opens kind | names kind | closes kind => cases kind

end outside

include hb' hcomplete in
theorem endTagOpen_eq_none (hkind : t.kind = .endTagClose) (hmode : y.mode ≠ .inEndTag) : b.endTagOpen = none := by
  cases hpending : b.endTagOpen with
  | none => rfl
  | some o =>
    obtain ⟨kind, i, j, fault⟩ := t
    obtain rfl : kind = .endTagClose := hkind
    have hnameless : b'.kindOf b.nodes.size =
        .element { endOpen := some o, endClose := some i, closed := true } :=
      hb' ▸ Builder.kindOf_endTagClose_of_pending hpending
    cases (hcomplete _ _ hmode hnameless rfl).named rfl

include h hb' hacts hcomplete in
theorem advances_of_endTagClose (hkind : t.kind = .endTagClose) (hz : z.mode = .inEndTag) (hmode : y.mode ≠ .inEndTag)
    (hin : y.inStartTag = false) : Advances d settings t y b' st (st.step d settings t) := by
  have hpending := endTagOpen_eq_none hb' hcomplete hkind hmode
  obtain ⟨kind, i, j, fault⟩ := t
  obtain rfl : kind = .endTagClose := hkind
  have hopened : b'.opened = b.opened := by
    cases hacts with
    | quiet _ hq => exact hq.opened
    | opens kind | names kind | closes kind | ends _ kind | stray _ kind => cases kind
  cases h with
  | outside pending => simp [hpending] at pending; exact absurd hz pending
  | @ending e w _ _ current closed _ opened _ last stack =>
    have hclosed : b'.kindOf b.current = .element { e with endClose := some i } :=
      hb' ▸ Builder.kindOf_endTagClose current hpending closed opened
    rcases stack with ⟨-, inner, sp, hsp, hinner, hstack⟩ | ⟨hstack, hnone⟩
    · obtain ⟨hrest, hranges⟩ := opened_closeElement last hinner rfl hstack (closingLine d settings i)
      refine ⟨.outside (fun hm => absurd hm hmode) (hrest.trans (by rw [hopened])) (by simp [hin]), fun r hr => ?_⟩
      exact (hranges r hr).imp_right fun hr => ⟨_, _, hclosed, closed, hmode, sp, hsp, .inr ⟨rfl, hr⟩⟩
    · have hstep : st.step d settings ⟨.endTagClose, i, j, fault⟩ = st := closeElement_of_none last hnone _
      rw [hstep]
      refine Agrees.advances (.outside (fun hm => absurd hm hmode) ?_ (by simp [hin])) rfl
      rw [hopened, hstack]

include h hb' hacts in
theorem agrees_of_unknown (hkind : t.kind = .unknown) (hmode : y.mode = z.mode) (hin : y.inStartTag = z.inStartTag) :
    Agrees d y b' st := by
  obtain ⟨kind, i, j, fault⟩ := t
  obtain rfl : kind = .unknown := hkind
  cases h with
  | outside pending stack last =>
    have hopened : b'.opened = b.opened := by
      cases hacts with
      | quiet _ hq => exact hq.opened
      | opens kind | names kind | closes kind | ends _ kind | stray _ kind => cases kind
    refine .outside (fun hm => ?_) (by rw [stack, hopened]) (by rwa [hopened, hin])
    rw [← hb', Builder.endTagOpen_unknown]
    exact pending (hmode ▸ hm)
  | ending mode named current closed ended opened unclosed last stack =>
    have hsame : b' = b := by
      rw [← hb']
      simp [step, Builder.tagToken, current, Option.isSome_iff_ne_none.mp opened]
    rw [hsame]
    exact .ending (hmode.trans mode) named current closed ended opened unclosed last stack

include h hb' hcomplete in
/-- Where new markup or text starts, no end tag has closed an element with a start tag and lacks its `>`. -/
theorem stack_of_starts (hkind : t.kind = .text ∨ t.kind = .startTagOpen ∨ t.kind = .endTagOpen)
    (hmode : y.mode ≠ .inEndTag) : st.opened = entries d b.opened := by
  cases h with
  | outside _ stack => exact stack
  | @ending e w _ _ current closed ended _ unclosed _ stack =>
    refine stack.elim (fun ⟨hstarted, _⟩ => ?_) And.left
    obtain ⟨n, hn, -⟩ := Builder.exists_node current (by rintro ⟨⟩)
    have hsame : b'.kindOf b.current = .element e := by
      rw [← hb', ← current]
      exact Builder.kindOf_step_of_starts hkind (lt_size_of_getElem? hn)
    have hclose := (hcomplete _ e hmode hsame closed).closed hstarted ended
    rw [unclosed] at hclose
    cases hclose

include h in
theorem Agrees.of_ne (hmode : z.mode ≠ .inEndTag) : st.opened = entries d b.opened ∧
    (z.inStartTag = true → ∀ p ∈ b.opened.head?, p.2.tag.isSome = true → st.lastTag = p.2.tag) := by
  cases h with
  | outside _ stack last => exact ⟨stack, last⟩
  | ending mode => exact absurd mode hmode

include h hz hb' hacts hcomplete in
/-- **A token of tags or text** keeps the stack as it should be, and closes at most the fold of an element. -/
theorem Agrees.step (hin : z.InTags) (hy : y.InTags) (hread : z.ReadsInTags t.kind y.mode) :
    Advances d settings t y b' st (st.step d settings t) := by
  have hstart {m : Lexer.Mode} (hm : y.mode = m) (hmem : m = .content ∨ m = .afterEndTagOpen ∨ m = .inEndTag) :
      y.inStartTag = false := by
    rcases hmem with rfl | rfl | rfl <;> simp [Lexer.inStartTag, hm]
  have hsame (hm : y.mode = z.mode) : y.inStartTag = z.inStartTag := by
    simp [Lexer.inStartTag, hm, hin.inProlog, hy.inProlog]
  generalize hk : t.kind = kind at hread
  generalize hm : y.mode = mode at hread
  cases hread with
  | blank =>
    have hst : st.step d settings t = st := by simp only [State.step, hk]
    have hb : b' = b := by
      obtain ⟨kind, i, j, fault⟩ := t
      obtain rfl : kind = .blank := hk
      exact hb'.symm
    rw [hst, hb]
    exact (h.of_mode hm (hsame hm)).advances rfl
  | unknown =>
    have hst : st.step d settings t = st := by simp only [State.step, hk]
    rw [hst]
    exact (agrees_of_unknown h hb' hacts hk hm (hsame hm)).advances rfl
  | text | endTagOpen =>
    have hst : st.step d settings t = st := by simp only [State.step, hk]
    have stack := stack_of_starts h hb' hcomplete (by simp [hk]) (by simp [hm])
    rw [hst]
    exact (agrees_of_quiet hacts stack (by rw [hk]; rfl) (by simp [hm]) (by simp [hstart hm])).advances rfl
  | startTagOpen =>
    have hst : st.step d settings t = st := by simp only [State.step, hk]
    have stack := stack_of_starts h hb' hcomplete (by simp [hk]) (by simp [hm])
    rw [hst]
    exact (agrees_of_opens hacts stack hk (by simp [hm])).advances rfl
  | startTagName hz' =>
    obtain ⟨stack, -⟩ := h.of_ne (by simp [hz'])
    exact (agrees_of_names hacts stack hk (by simp [hm])).advances (by simp only [State.step, hk])
  | startTagClose hz' | attributeName hz' | assign hz' | attributeValue hz' =>
    have hst : st.step d settings t = st := by simp only [State.step, hk]
    obtain ⟨stack, last⟩ := h.of_ne (by simp [hz'])
    rw [hst]
    exact (agrees_of_quiet hacts stack (by rw [hk]; rfl) (by simp [hm]) fun _ => last
      (by simp [Lexer.inStartTag, hz', hin.inProlog])).advances rfl
  | startTagSelfClose hz' =>
    obtain ⟨stack, last⟩ := h.of_ne (by simp [hz'])
    exact advances_of_closes hz hb' hacts hcomplete stack hk (by simp [hm]) (hstart hm (.inl rfl))
      (last (by simp [Lexer.inStartTag, hz']))
  | endTagName hz' =>
    obtain ⟨stack, -⟩ := h.of_ne (by simp [hz'])
    have hphase := hz.fits.phase
    simp only [Builder.Phase, hz'] at hphase
    obtain ⟨start, -, hpending⟩ := hphase
    exact (agrees_of_ends hz hb' hacts stack hk hm hpending.endTagOpen).advances (by simp only [State.step, hk])
  | endTagClose hz' =>
    exact advances_of_endTagClose h hb' hacts hcomplete hk hz' (by simp [hm]) (hstart hm (.inl rfl))

end step

/-! ## The whole text -/

variable {text uri : String} {l₀ : List (Token × Lexer)}

theorem element?_of_closed (htags : (Document.parse text uri).HasOnlyTags) (hl : Leads text .document l y)
    (hmode : y.mode ≠ .inEndTag) (hkind : (behind text l (start text false)).kindOf id = .element e)
    (hclosed : e.closed = true) : (Document.parse text uri).element? id = some e := by
  have hf := (Builder.follows_start text false).behind hl
  have hout := hf.not_mem_chain_of_closed (htags.behind hl).2 hmode hkind hclosed
  obtain ⟨n, hn, hk⟩ := Builder.exists_node hkind (by rintro ⟨⟩)
  have hsame := Builder.parse_spared htags.isDtdUri_eq hl (lt_size_of_getElem? hn) hout (by simp [hkind])
  rw [Document.element?, Document.node_eq (hsame.trans hn), Node.element?, hk]

theorem exists_lineAt (uri : String) {o : Nat} (h : isBoundary text o = true) : ∃ p,
    (Document.parse text uri).positionAt o = .ok p ∧ lineAt (Document.parse text uri) o = p.line := by
  obtain ⟨p, hp⟩ := LineIndex.exists_positionAt_iff.mpr h
  have hp' : (Document.parse text uri).positionAt o = .ok p := hp
  exact ⟨p, hp', by rw [lineAt, hp']⟩

theorem folds_of_isFold (ht : isBoundary text t.start = true) (he : (Document.parse text uri).element? id = some e)
    (h : IsFold (Document.parse text uri) settings t e r) : Folds (Document.parse text uri) settings e r := by
  obtain ⟨sp, hsp, hr⟩ := h
  obtain ⟨p, hp, hline⟩ := exists_lineAt uri (Document.lies_tagSpan he sp (by simp [hsp])).start
  obtain ⟨q, hq, hend⟩ := exists_lineAt uri ht
  rw [closingLine, hline, hend] at hr
  rcases hr with ⟨hself, hclose, rfl⟩ | ⟨hclose, rfl⟩
  · exact ⟨rfl, sp, t.start, p, q, hsp, hp, rfl, hq, .inl ⟨hself, hclose, rfl⟩⟩
  · exact ⟨rfl, sp, t.start, p, q, hsp, hp, rfl, hq, .inr ⟨hclose, rfl⟩⟩

section document

variable (htags : (Document.parse text uri).HasOnlyTags)
variable (hcomplete : ∀ e ∈ (Document.parse text uri).elementRecords, Complete e)
include htags hcomplete

theorem advances_next (settings : Settings.Foldings) (hl : Leads text .document l x) (hlt : x.pos < size text)
    (h : Agrees (Document.parse text uri) x (behind text l (start text false)) st) :
    Advances (Document.parse text uri) settings (x.step text).1 (x.step text).2
      (behind text (l ++ [x.step text]) (start text false)) st
      (st.step (Document.parse text uri) settings (x.step text).1) := by
  have hf := (Builder.follows_start text false).behind hl
  have hl' := hl.append (.one hlt)
  obtain ⟨hopen, hy⟩ := htags.behind hl'
  obtain ⟨hx, hopen₀⟩ := (htags.behind hl).symm
  have hstep : behind text (l ++ [x.step text]) (start text false) =
      step text (behind text l (start text false)) (x.step text).1 (x.step text).2.inDtd := by
    rw [Builder.behind_append]
    rfl
  obtain ⟨-, z, hz, hread⟩ := Builder.exists_readsInTags hx hf hlt (hstep ▸ hopen)
  have hclosed (id : Nat) (e : Element) (hm : (x.step text).2.mode ≠ .inEndTag)
      (hkind : (behind text (l ++ [x.step text]) (start text false)).kindOf id = .element e)
      (hc : e.closed = true) : Complete e :=
    hcomplete e (Document.mem_elementRecords (element?_of_closed htags hl' hm hkind hc))
  have hacts := hstep ▸ (hf.next hlt).1
  rcases hz with rfl | ⟨spaced, hfall⟩
  · exact h.step hf hstep.symm hacts hclosed hx hy hread
  · exact (h.of_falls hx hf.fits hfall).step (hf.of_falls hfall) hstep.symm hacts hclosed
      (Builder.inTags_of_falls hx hfall) hy hread

theorem folds_along (hl : Leads text x l y) (hl₀ : Leads text .document l₀ x)
    (h : Agrees (Document.parse text uri) x (behind text l₀ (start text false)) st)
    (hfolds : ∀ r ∈ st.ranges, ∃ e ∈ (Document.parse text uri).elementRecords,
      Folds (Document.parse text uri) settings e r) :
    ∀ r ∈ (run (Document.parse text uri) settings st .never l).ranges,
      ∃ e ∈ (Document.parse text uri).elementRecords, Folds (Document.parse text uri) settings e r := by
  induction hl generalizing l₀ st with
  | here => exact hfolds
  | @next x y l hlt _ ih =>
    have hadvance := advances_next htags hcomplete settings hl₀ hlt h
    refine ih (hl₀.append (.one hlt)) hadvance.agrees fun r hr => ?_
    rcases hadvance.ranges r hr with hr | ⟨id, e, hkind, hclosed, hmode, hfold⟩
    · exact hfolds r hr
    · have he := element?_of_closed htags (hl₀.append (.one hlt)) hmode hkind hclosed
      have hstart : isBoundary text (x.step text).1.start = true := by
        have hbound := ((Builder.follows_start text false).behind hl₀).boundary
        rwa [Lexer.step_eq_lex hbound hlt]
      exact ⟨e, Document.mem_elementRecords he, folds_of_isFold hstart he hfold⟩

/-- **Every fold is that of an element** where all tags are complete. -/
theorem ranges_of_elements (settings : Settings) : ∀ r ∈ ranges (Document.parse text uri) settings .never,
    ∃ e ∈ (Document.parse text uri).elementRecords, Folds (Document.parse text uri) settings.foldings e r := by
  intro r hr
  have huri := htags.isDtdUri_eq
  obtain ⟨y, hl, -⟩ := Leads.exists_end text .document (Text.isBoundary_zero text)
  have hlexer : (Document.parse text uri).lexer = .document := if_neg (Bool.eq_false_iff.mp huri)
  have hopened : (start text false).opened = [] := List.eq_nil_iff_forall_not_mem.mpr fun p hp => by
    have hcore := (Builder.mem_opened.mp hp).2.1
    rw [Builder.core_start] at hcore
    cases hcore
  rw [ranges, List.mem_mergeSort, List.mem_reverse, hlexer] at hr
  refine folds_along htags hcomplete hl (.here _) (.outside (by rintro ⟨⟩) ?_ (by rintro ⟨⟩)) (by simp) r hr
  rw [Builder.behind_nil, hopened]
  rfl

end document

/-- An element closed by `/>` inside of one closed by its end tag. -/
theorem ranges_of_elements_nested : ∃ e ∈ (Document.parse "<a>\n<b x=\"1\"\n/></a>" "file:///a.xml").elementRecords,
    Folds (Document.parse "<a>\n<b x=\"1\"\n/></a>" "file:///a.xml") {} e { startLine := 1, endLine := 2 } :=
  ranges_of_elements (by decide +kernel) (by decide +kernel) {} { startLine := 1, endLine := 2 }
    (List.mem_mergeSort.mpr (by decide +kernel))

/-- An end tag without a name closes no element. Yet it ends the fold of the tag read last. -/
theorem range_of_nameless_end : (Document.parse "<a>\n</>" "file:///a.xml").HasOnlyTags ∧
    ∃ r ∈ ranges (Document.parse "<a>\n</>" "file:///a.xml") { foldings := { includeClosingTag := true } } .never,
      ∀ e ∈ (Document.parse "<a>\n</>" "file:///a.xml").elementRecords,
        ¬ Folds (Document.parse "<a>\n</>" "file:///a.xml") { includeClosingTag := true } e r := by
  refine ⟨by decide +kernel, { startLine := 0, endLine := 1 }, by decide +kernel, fun e he hfold => ?_⟩
  have hnone : ∀ e ∈ (Document.parse "<a>\n</>" "file:///a.xml").elementRecords,
      e.tagSpan = none ∨ (e.selfClosed = false ∧ e.endClose = none) := by decide +kernel
  obtain ⟨-, sp, offset, p, q, hsp, -, -, -, hclose⟩ := hfold
  rcases hnone e he with hspan | ⟨hself, hopen⟩
  · cases hspan.symm.trans hsp
  · rcases hclose with ⟨hclosed, -⟩ | ⟨hclosed, -⟩
    · cases hself.symm.trans hclosed
    · cases hopen.symm.trans hclosed

end Folding

end XmlAssist

import XmlAssist.Outline
import XmlAssist.Proofs.Text.Ranges
import XmlAssist.Proofs.Tree.Covering
import XmlAssist.Proofs.Tree.Lookup

/-!
# The ranges of an outline

The range of an entry is that of its node, so entries lie in each other as nodes do, and entries of different
nodes stand behind each other. Main statement: this is so in the whole outline of every document, wherever the
request is given up (`symbols_nest`).
-/

namespace XmlAssist

open Node

/-- The second range lies in the first. -/
def Range.Encloses (a b : Range) : Prop := a.start.le b.start = true ∧ b.stop.le a.stop = true

theorem Range.encloses_refl (a : Range) : a.Encloses a := ⟨Position.le_refl _, Position.le_refl _⟩

def Symbol.range : Symbol → Range
  | .mk _ _ _ range _ _ => range

namespace Outline

variable {d : Document} {id parent : Nat} {span : Span} {whole range range' : Range} {entries : List Symbol}
variable {cancel : Cancel} {y : Symbol} {text uri : String} {n : Node}

/-- The node has no entry of its own: it stands for a whole file, and those inside take its place. -/
def isFlat (d : Document) (id : Nat) : Bool :=
  match (d.node id).kind with
  | .doctype t => t.synthetic
  | _ => false

/-- The groups hold the entries of nodes that stand behind each other, and so do the entries of different
nodes. -/
def Ordered (d : Document) (groups : List (Nat × List Symbol)) : Prop :=
  (∀ g ∈ groups, isFlat d g.1 = false ∧ ∃ cancel, (symbolsOf d g.1 cancel).1 = g.2) ∧
    groups.Pairwise fun g g' => (d.span g.1).stop ≤ (d.span g'.1).start ∧
      ∀ y ∈ g.2, ∀ z ∈ g'.2, y.range.stop.le z.range.start = true

/-- The entries are those of nodes that stand behind each other, node by node. -/
def Siblings (d : Document) (entries : List Symbol) : Prop :=
  ∃ groups : List (Nat × List Symbol), entries = groups.flatMap (·.2) ∧ Ordered d groups

/-- What is selected and the entries inside lie in the range of the entry, and the entries inside are in order;
so it is in all of them. -/
inductive Nests (d : Document) : Symbol → Prop where
  | mk {name : String} {detail : Option String} {kind : Symbol.Kind} {range selection : Range}
      {children : List Symbol} (selected : range.Encloses selection)
      (enclosed : ∀ y ∈ children, range.Encloses y.range) (siblings : Siblings d children)
      (inside : ∀ y ∈ children, Nests d y) : Nests d (.mk name detail kind range selection children)

/-! ## One node -/

theorem encloses_of_rangeOf {sp : Span} (hlines : d.lines = LineIndex.ofText d.text)
    (h : d.rangeOf span = .ok range) (h' : d.rangeOf sp = .ok range')
    (hinside : span.start ≤ sp.start ∧ sp.stop ≤ span.stop) : range.Encloses range' := by
  obtain ⟨hstart, hstop⟩ := Document.positions_of_rangeOf h
  obtain ⟨hstart', hstop'⟩ := Document.positions_of_rangeOf h'
  exact ⟨Document.le_of_positionAt hlines hstart hstart' hinside.1,
    Document.le_of_positionAt hlines hstop' hstop hinside.2⟩

theorem encloses_selection {part : Option Span} (hlines : d.lines = LineIndex.ofText d.text)
    (h : d.rangeOf span = .ok whole)
    (hpart : ∀ sp ∈ part.toList, span.start ≤ sp.start ∧ sp.stop ≤ span.stop) :
    whole.Encloses (selection d whole part) := by
  cases part with
  | none => exact whole.encloses_refl
  | some sp =>
    rw [selection]
    cases hrange : d.rangeOf sp with
    | error _ => exact whole.encloses_refl
    | ok range => exact encloses_of_rangeOf hlines h hrange (hpart sp (by simp))

/-- An entry of a declaration has the range of the whole and nothing inside; a parameter is selected. -/
theorem exists_of_mem_declarationSymbols {declaration : Declaration}
    (hy : y ∈ declarationSymbols d whole declaration) : ∃ name detail kind, ∃ p ∈ declaration.stored,
      y = .mk name detail kind whole (selection d whole (some p.span)) [] := by
  simp only [declarationSymbols] at hy
  split at hy <;> rename_i body hbody
  case h_2 =>
    obtain ⟨definition, hdefinition, hy⟩ := List.mem_flatMap.mp hy
    obtain ⟨p, hp, rfl⟩ := List.mem_map.mp hy
    refine ⟨_, _, _, p, ?_, rfl⟩
    simp only [Declaration.stored, Declaration.Body.stored, hbody, List.mem_append, List.mem_flatMap]
    exact .inl (.inl (.inr ⟨definition, hdefinition, by simp [AttributeDef.stored, Option.mem_toList.mp hp]⟩))
  all_goals
    obtain ⟨p, hp, rfl⟩ := List.mem_map.mp hy
    refine ⟨_, _, _, p, ?_, rfl⟩
    simp [Declaration.stored, Declaration.Body.stored, hbody, Option.mem_toList.mp hp]

theorem exists_of_mem_nodeSymbols {children : List Symbol} (hflat : isFlat d id = false)
    (hy : y ∈ nodeSymbols d id whole children) :
    ∃ name detail kind part inner, y = .mk name detail kind whole (selection d whole part) inner ∧
      (∀ sp ∈ part.toList, sp ∈ (d.node id).kind.spans) ∧ (inner = [] ∨ inner = children) := by
  rw [nodeSymbols] at hy
  split at hy <;> rename_i hkind
  case h_1 e =>
    obtain rfl := List.mem_singleton.mp hy
    exact ⟨_, _, _, _, _, rfl, by simp +contextual [hkind, Kind.spans], .inr rfl⟩
  case h_2 i =>
    obtain rfl := List.mem_singleton.mp hy
    exact ⟨_, _, _, _, _, rfl, by simp +contextual [hkind, Kind.spans], .inl rfl⟩
  case h_3 t =>
    rw [isFlat, hkind] at hflat
    rw [if_neg (by simp [hflat])] at hy
    obtain rfl := List.mem_singleton.mp hy
    refine ⟨_, _, _, _, _, rfl, ?_, .inr rfl⟩
    simp +contextual [hkind, Kind.spans, Doctype.stored]
  case h_4 declaration =>
    obtain ⟨name, detail, kind, p, hp, rfl⟩ := exists_of_mem_declarationSymbols hy
    refine ⟨_, _, _, _, _, rfl, ?_, .inl rfl⟩
    simpa [hkind, Kind.spans] using ⟨p, hp, rfl⟩
  case h_5 => exact absurd hy List.not_mem_nil

theorem rangeOf_of_mem_symbolsOf (hflat : isFlat d id = false) (hy : y ∈ (symbolsOf d id cancel).1) :
    d.rangeOf (d.span id) = .ok y.range := by
  rw [symbolsOf] at hy
  cases hrange : d.rangeOf (d.span id) with
  | error _ => simp [hrange] at hy
  | ok whole =>
    obtain ⟨children, hy⟩ : ∃ children, y ∈ nodeSymbols d id whole children := by
      simp only [hrange] at hy
      split at hy <;> exact ⟨_, hy⟩
    obtain ⟨_, _, _, _, _, rfl, -⟩ := exists_of_mem_nodeSymbols hflat hy
    rfl

/-! ## Nodes in order -/

/-- The entries nest, and they are those of nodes between the two offsets, which stand behind each other. -/
structure Listed (d : Document) (start stop : Nat) (entries : List Symbol) : Prop where
  nests : ∀ y ∈ entries, Nests d y
  grouped : ∃ groups : List (Nat × List Symbol), entries = groups.flatMap (·.2) ∧ Ordered d groups ∧
    ∀ g ∈ groups, start ≤ (d.span g.1).start ∧ (d.span g.1).stop ≤ stop

namespace Listed

variable {start mid stop : Nat} {others : List Symbol}

theorem nil (start stop : Nat) : Listed d start stop [] :=
  ⟨by simp, [], rfl, ⟨by simp, .nil⟩, by simp⟩

theorem siblings (h : Listed d start stop entries) : Siblings d entries :=
  let ⟨groups, heq, hordered, _⟩ := h.grouped
  ⟨groups, heq, hordered⟩

theorem single (hflat : isFlat d id = false) (hnests : ∀ y ∈ (symbolsOf d id cancel).1, Nests d y) :
    Listed d (d.span id).start (d.span id).stop (symbolsOf d id cancel).1 := by
  refine ⟨hnests, [(id, (symbolsOf d id cancel).1)], by simp,
    ⟨fun g hg => ?_, List.pairwise_singleton _ _⟩, by simp⟩
  obtain rfl := List.mem_singleton.mp hg
  exact ⟨hflat, cancel, rfl⟩

theorem mono (h : Listed d mid stop entries) {stop' : Nat} (hstart : start ≤ mid) (hstop : stop ≤ stop') :
    Listed d start stop' entries := by
  obtain ⟨groups, heq, hordered, hin⟩ := h.grouped
  exact ⟨h.nests, groups, heq, hordered, fun g hg =>
    ⟨Nat.le_trans hstart (hin g hg).1, Nat.le_trans (hin g hg).2 hstop⟩⟩

/-- Entries up to an offset, and entries behind it. -/
theorem append (hlines : d.lines = LineIndex.ofText d.text) (h : Listed d start mid entries)
    (hothers : Listed d mid stop others) (hle : start ≤ mid) (hle' : mid ≤ stop) :
    Listed d start stop (entries ++ others) := by
  obtain ⟨groups, rfl, ⟨hnodes, hpairs⟩, hin⟩ := h.grouped
  obtain ⟨groups', rfl, ⟨hnodes', hpairs'⟩, hin'⟩ := hothers.grouped
  refine ⟨?_, groups ++ groups', by simp, ⟨?_, List.pairwise_append.mpr ⟨hpairs, hpairs', ?_⟩⟩, ?_⟩
  · exact fun y hy => (List.mem_append.mp hy).elim (h.nests y) (hothers.nests y)
  · exact fun g hg => (List.mem_append.mp hg).elim (hnodes g) (hnodes' g)
  · intro g hg g' hg'
    have hbehind := Nat.le_trans (hin g hg).2 (hin' g' hg').1
    refine ⟨hbehind, fun y hy z hz => ?_⟩
    obtain ⟨hflat, _, heq⟩ := hnodes g hg
    obtain ⟨hflat', _, heq'⟩ := hnodes' g' hg'
    have hy := (Document.positions_of_rangeOf (rangeOf_of_mem_symbolsOf hflat (heq ▸ hy))).2
    have hz := (Document.positions_of_rangeOf (rangeOf_of_mem_symbolsOf hflat' (heq' ▸ hz))).1
    exact Document.le_of_positionAt hlines hy hz hbehind
  · intro g hg
    rcases List.mem_append.mp hg with hg | hg
    · exact ⟨(hin g hg).1, Nat.le_trans (hin g hg).2 hle'⟩
    · exact ⟨Nat.le_trans hle (hin' g hg).1, (hin' g hg).2⟩

theorem encloses (hlines : d.lines = LineIndex.ofText d.text) (h : Listed d span.start span.stop entries)
    (hwhole : d.rangeOf span = .ok whole) : ∀ y ∈ entries, whole.Encloses y.range := by
  obtain ⟨groups, rfl, ⟨hnodes, -⟩, hin⟩ := h.grouped
  intro y hy
  obtain ⟨g, hg, hy⟩ := List.mem_flatMap.mp hy
  obtain ⟨hflat, _, heq⟩ := hnodes g hg
  exact encloses_of_rangeOf hlines hwhole (rangeOf_of_mem_symbolsOf hflat (heq ▸ hy)) (hin g hg)

end Listed

/-! ## The whole outline -/

theorem listed_symbolsOf (hlines : d.lines = LineIndex.ofText d.text) (hn : d.nodes[id]? = some n)
    (hcovers : n.Covers) (cancel : Cancel)
    (hchildren : (∃ whole, d.rangeOf (d.span id) = .ok whole) → hasEntries (d.node id).kind = true →
      Listed d (d.span id).start (d.span id).stop (listSymbols d id cancel (d.children id)).1) :
    Listed d (d.span id).start (d.span id).stop (symbolsOf d id cancel).1 := by
  cases hwhole : d.rangeOf (d.span id) with
  | error _ =>
    rw [symbolsOf, hwhole]
    exact .nil ..
  | ok whole =>
    obtain ⟨children, heq, hlisted⟩ : ∃ children, (symbolsOf d id cancel).1 = nodeSymbols d id whole children ∧
        Listed d (d.span id).start (d.span id).stop children := by
      rw [symbolsOf, hwhole]
      dsimp only
      split <;> rename_i hentries
      · exact ⟨_, rfl, hchildren ⟨whole, hwhole⟩ hentries⟩
      · exact ⟨_, rfl, .nil ..⟩
    cases hflat : isFlat d id with
    | true =>
      have hsame : nodeSymbols d id whole children = children := by
        rw [isFlat] at hflat
        rw [nodeSymbols]
        split at hflat <;> simp_all
      rw [heq, hsame]
      exact hlisted
    | false =>
      refine .single hflat fun y hy => ?_
      obtain ⟨name, detail, kind, part, inner, rfl, hpart, hinner⟩ := exists_of_mem_nodeSymbols hflat (heq ▸ hy)
      have hlisted : Listed d (d.span id).start (d.span id).stop inner := by
        rcases hinner with rfl | rfl
        · exact .nil ..
        · exact hlisted
      refine .mk (encloses_selection hlines hwhole fun sp hsp => ?_) (hlisted.encloses hlines hwhole)
        hlisted.siblings hlisted.nests
      rw [Document.span_eq hn]
      refine hcovers.inside sp ?_
      rw [← Document.node_eq hn]
      exact hpart sp hsp

theorem listed_listSymbols (hd : d.Complete) (hlines : d.lines = LineIndex.ofText d.text)
    (hcovers : ∀ n ∈ d.nodes, n.Covers) (parent : Nat) (cancel : Cancel) (ids : List Nat) :
    parent < d.nodes.size → ids.Sublist (d.children parent) → ∀ start, start ≤ (d.span parent).stop →
      (∀ id ∈ ids, start ≤ (d.span id).start) →
      Listed d start (d.span parent).stop (listSymbols d parent cancel ids).1 := by
  have hnode {id : Nat} (hid : id < d.nodes.size) :=
    listed_symbolsOf hlines (Array.getElem?_eq_getElem hid) (hcovers _ (Array.getElem_mem hid))
  refine listSymbols.induct d
    (fun parent cancel ids => parent < d.nodes.size → ids.Sublist (d.children parent) →
      ∀ start, start ≤ (d.span parent).stop → (∀ id ∈ ids, start ≤ (d.span id).start) →
      Listed d start (d.span parent).stop (listSymbols d parent cancel ids).1)
    (fun id cancel => id < d.nodes.size →
      Listed d (d.span id).start (d.span id).stop (symbolsOf d id cancel).1)
    ?nil ?given ?cons ?skip ?error ?inside ?alone parent cancel ids
  case nil =>
    intro parent cancel _ _ start _ _
    rw [listSymbols]
    exact .nil ..
  case given =>
    intro parent cancel id rest cancel' hpoll _ _ start _ _
    rw [listSymbols, hpoll]
    exact .nil ..
  case cons =>
    intro parent cancel id rest stop cancel' hpoll hstop hid mine c hmine others c' hothers ihmine ihrest
      hparent hids start hle hstart
    rw [listSymbols, hpoll]
    simp only [hstop, Bool.false_eq_true, if_false, dif_pos hid, hmine, hothers]
    have hin := hd.child_inside hparent (hids.subset List.mem_cons_self)
    have hid' := hstart id List.mem_cons_self
    have hfirst := ihmine hid.2
    have hbehind := ihrest hparent (List.sublist_of_cons_sublist hids) (d.span id).stop
    rw [hmine] at hfirst
    rw [hothers] at hbehind
    have horder := (List.pairwise_cons.mp ((hd.children_disjoint hparent).sublist hids)).1
    exact (hfirst.mono hid' (Nat.le_refl _)).append hlines (hbehind hin.2 horder)
      (Nat.le_trans hid' (hd.start_le_stop hid.2)) hin.2
  case skip =>
    intro parent cancel id rest stop cancel' hpoll hstop hid ih hparent hids start hle hstart
    rw [listSymbols, hpoll]
    simp only [hstop, Bool.false_eq_true, if_false, dif_neg hid]
    exact ih hparent (List.sublist_of_cons_sublist hids) start hle fun c hc => hstart c (List.mem_cons_of_mem _ hc)
  case error =>
    intro id cancel e herror hid
    exact hnode hid cancel fun ⟨_, hwhole⟩ => by simp [herror] at hwhole
  case inside =>
    intro id cancel whole _ _ others c hothers ih hid
    exact hnode hid cancel fun _ _ => ih hid (List.Sublist.refl _) _ (hd.start_le_stop hid) fun _ hc =>
      (hd.child_inside hid hc).1
  case alone =>
    intro id cancel whole _ hentries hid
    exact hnode hid cancel fun _ hyes => absurd hyes hentries

/-- However the listing goes, ranges in the outline of a document nest. -/
theorem symbols_nest [Library] (text uri : String) (settings : Settings) (cancel : Cancel) :
    (∀ y ∈ symbols (Document.parse text uri) settings cancel, Nests (Document.parse text uri) y) ∧
      Siblings (Document.parse text uri) (symbols (Document.parse text uri) settings cancel) := by
  rw [symbols]
  split
  · exact ⟨by simp, [], rfl, by simp, .nil⟩
  · have hd := Document.complete_parse text uri
    obtain ⟨_, hroot, -⟩ := hd.arena.root
    have hlisted := listed_listSymbols hd rfl (Document.parse_covers text uri) 0 cancel _
      (Array.getElem?_eq_some_iff.mp hroot).1 (List.Sublist.refl _) 0 (Nat.zero_le _) fun _ _ => Nat.zero_le _
    exact ⟨hlisted.nests, hlisted.siblings⟩

end Outline

end XmlAssist

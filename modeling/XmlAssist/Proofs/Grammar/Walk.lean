import Mathlib.Data.List.Nodup
import XmlAssist.Grammar.DocumentType
import XmlAssist.Library.Own
import XmlAssist.Proofs.Text.Split

/-!
# Where the walk leads

Every element that a document type declares may be outermost. So if no two declared elements share a
local name, the walk has nothing to choose: a step from a declaration leads to the declared element
with the next local name or nowhere (`localName_of_child?`), and where it leads nowhere the declared
elements are searched anyway. The walk comes to the declared element with the innermost local name,
whatever the elements around it are and whatever is allowed inside them
(`DocumentType.declaration?_eq_some_iff`).
-/

namespace XmlAssist.Grammar

/-- Any declared element may be outermost, and its local name tells it from the others. -/
structure Flat (g : Grammar) : Prop where
  globals : g.globals = g.elements
  nodup : (g.elements.map (·.localName)).Nodup

section walk
variable {g : Grammar} {e c : Element} {name : String}

theorem mem_of_mem_childrenOf (h : c ∈ g.childrenOf e) : c ∈ g.elements := by
  obtain ⟨n, -, hn⟩ := List.mem_filterMap.mp h
  exact List.mem_of_find?_eq_some hn

/-- A name without a colon is that of a child with this local name. -/
theorem localName_of_child? (hcolon : ':' ∉ name.toList) (h : g.child? e name = some c) :
    c ∈ g.elements ∧ c.localName = name := by
  refine ⟨mem_of_mem_childrenOf (List.mem_of_find?_eq_some h), ?_⟩
  have hnamed := List.find?_some h
  simp only [Bool.or_eq_true, beq_iff_eq] at hnamed
  rcases hnamed with rfl | hlocal
  · rw [Element.localName, Text.splitOnce?_eq_none hcolon]
    rfl
  · exact hlocal

def step? (g : Grammar) (name : String) : Option Element → Option Element
  | none => g.global? name
  | some e => g.child? e name

theorem walk_cons (innermost : Option String) (current : Option Element) (inner : List (Option String)) :
    g.walk innermost current (some name :: inner) = match g.step? name current with
      | some e => g.walk innermost (some e) inner
      | none => innermost.bind g.global? := by
  rw [walk.eq_def]
  rfl

namespace Flat

variable (hg : g.Flat)
include hg

theorem global?_eq_some_iff : g.global? name = some c ↔ c ∈ g.elements ∧ c.localName = name := by
  rw [global?, hg.globals]
  constructor
  · intro h
    exact ⟨List.mem_of_find?_eq_some h, by simpa using List.find?_some h⟩
  · rintro ⟨hc, rfl⟩
    -- there is one with this local name, and there is no other
    obtain ⟨c', hc'⟩ : ∃ c', g.elements.find? (·.localName == c.localName) = some c' :=
      Option.isSome_iff_exists.mp (List.find?_isSome.mpr ⟨c, hc, beq_self_eq_true _⟩)
    have hlocal : c'.localName = c.localName := by simpa using List.find?_some hc'
    rw [hc', List.inj_on_of_nodup_map hg.nodup (List.mem_of_find?_eq_some hc') hc hlocal]

theorem global?_of_step? {current : Option Element} (hcolon : ':' ∉ name.toList)
    (h : g.step? name current = some c) : g.global? name = some c := by
  cases current with
  | none => exact h
  | some e => exact hg.global?_eq_some_iff.mpr (localName_of_child? hcolon h)

/-- The walk along names without colons comes to the last of them: by induction on the names before
it, wherever it starts. -/
theorem walk_eq_global? (outer : List (Option String)) (current : Option Element)
    (hnames : ∀ n ∈ outer ++ [some name], ∃ m, n = some m ∧ ':' ∉ m.toList) :
    g.walk (some name) current (outer ++ [some name]) = g.global? name := by
  induction outer generalizing current with
  | nil =>
    obtain ⟨_, ⟨rfl⟩, hcolon⟩ := hnames _ List.mem_cons_self
    rw [List.nil_append, walk_cons]
    split
    · rename_i c hstep
      exact (hg.global?_of_step? hcolon hstep).symm
    · rfl
  | cons n outer ih =>
    obtain ⟨m, rfl, -⟩ := hnames n List.mem_cons_self
    rw [List.cons_append, walk_cons]
    split
    · exact ih _ fun n hn => hnames n (List.mem_cons_of_mem _ hn)
    · rfl

end Flat

end walk

section elements
variable {d : Document} {id : Nat}

theorem pathIn_eq_cons (d : Document) (ns : Option String) (id : Nat) :
    ∃ outer, pathIn d ns id = id :: outer ∧ ∀ a ∈ id :: outer, a ∈ d.elementChain id := by
  refine ⟨_, rfl, ?_⟩
  intro a ha
  rcases List.mem_cons.mp ha with rfl | ha
  · exact List.mem_cons_self
  · exact List.mem_cons_of_mem _ ((List.takeWhile_sublist _).subset ha)

theorem exists_localName? {e : XmlAssist.Element} {tag : String} (he : d.element? id = some e)
    (htag : e.tag = some tag) (hcolon : tag.toList.count ':' ≤ 1) :
    ∃ name, localName? d id = some name ∧ ':' ∉ name.toList :=
  ⟨_, by rw [localName?, he, Option.bind_some, XmlAssist.Element.localName, htag]; rfl,
    Text.not_mem_behind_splitOnce? hcolon⟩

/-- Where all elements around one have names with one colon at most, the walk comes to the declared
element with its local name. -/
theorem Flat.declaration?_eq_global? {g : Grammar} (hg : g.Flat) (ns : Option String)
    (hchain : ∀ a ∈ d.elementChain id, ∃ e tag, d.element? a = some e ∧ e.tag = some tag ∧
      tag.toList.count ':' ≤ 1) :
    ∃ name, localName? d id = some name ∧ g.declaration? d ns id = g.global? name := by
  have hnames : ∀ a ∈ d.elementChain id, ∃ name, localName? d a = some name ∧ ':' ∉ name.toList := by
    intro a ha
    obtain ⟨e, tag, he, htag, hcolon⟩ := hchain a ha
    exact exists_localName? he htag hcolon
  obtain ⟨outer, hpath, houter⟩ := pathIn_eq_cons d ns id
  obtain ⟨name, hname, -⟩ := hnames id List.mem_cons_self
  refine ⟨name, hname, ?_⟩
  rw [declaration?, hpath, List.reverse_cons, List.map_append, List.map_singleton, hname]
  refine hg.walk_eq_global? _ none ?_
  rw [← hname, ← List.map_singleton, ← List.map_append, ← List.reverse_cons]
  intro n hn
  obtain ⟨a, ha, rfl⟩ := List.mem_map.mp hn
  exact hnames a (houter a (List.mem_reverse.mp ha))

end elements

namespace DocumentType

theorem ofSystemId_eq_ok {lookup : Lookup} {systemId : String} {g : Grammar}
    (h : ofSystemId lookup systemId = .ok (some g)) : ∃ uri elements, g = ofElements uri elements := by
  unfold ofSystemId at h
  split at h
  · cases h
  · cases hload : load lookup systemId with
    | error e =>
      rw [hload] at h
      cases h
    | ok dtd =>
      rw [hload] at h
      cases h
      exact ⟨_, _, rfl⟩

section

variable [Library]

/-- The grammar comes from a document or from a file of declarations. -/
def Yields (lookup : Lookup) (g : Grammar) : Prop :=
  (∃ d, provider.ofDocument lookup d = .ok (some g)) ∨
    ∃ systemId, provider.ofSystemId lookup systemId = .ok (some g)

theorem ofDocument_eq_ok {lookup : Lookup} {d : Document} {g : Grammar}
    (h : ofDocument lookup d = .ok (some g)) : ∃ uri elements, g = ofElements uri elements := by
  unfold ofDocument at h
  dsimp only at h
  split at h
  · cases h
    exact ⟨_, _, rfl⟩
  · split at h
    · cases h
      exact ⟨_, _, rfl⟩
    · split at h
      · cases h
      · cases h
        exact ⟨_, _, rfl⟩

theorem Yields.globals_eq {lookup : Lookup} {g : Grammar} (h : Yields lookup g) :
    g.globals = g.elements := by
  obtain ⟨_, _, rfl⟩ : ∃ uri elements, g = ofElements uri elements := by
    rcases h with ⟨d, h⟩ | ⟨systemId, h⟩
    · exact ofDocument_eq_ok h
    · exact ofSystemId_eq_ok h
  rfl

/-- **The elements around one do not matter to its declaration**: in the grammar of a document type
whose elements have different local names, an element of a document has the declaration with its own
local name, whatever namespace is asked for; without such a declaration it has none. -/
theorem declaration?_eq_some_iff {lookup : Lookup} {g : Grammar} (hg : Yields lookup g)
    (hnodup : (g.elements.map (·.localName)).Nodup) {text uri : String} {id : Nat}
    (hchain : ∀ a ∈ (Document.parse text uri).elementChain id, ∃ e tag,
      (Document.parse text uri).element? a = some e ∧ e.tag = some tag ∧ tag.toList.count ':' ≤ 1)
    (ns : Option String) (c : Element) :
    g.declaration? (Document.parse text uri) ns id = some c ↔
      c ∈ g.elements ∧ some c.localName = localName? (Document.parse text uri) id := by
  have hflat : g.Flat := ⟨hg.globals_eq, hnodup⟩
  obtain ⟨name, hname, hdeclaration⟩ := hflat.declaration?_eq_global? ns hchain
  rw [hdeclaration, hflat.global?_eq_some_iff, hname, Option.some_inj]

end

/-- A document that declares two elements, neither of which is allowed in the other. -/
def strangers : Document :=
  Document.parse "<!DOCTYPE a [<!ELEMENT a (c)><!ELEMENT p:b EMPTY>]>" "file:///w/a.xml"

theorem declaration?_eq_some_iff_strangers :
    let g := ofElements strangers.uri (collect [] strangers none)
    ∃ c, c.name = "p:b" ∧
      g.declaration? (Document.parse "<a><c><q:b/></c></a>" "file:///w/b.xml") none 3 = some c := by
  intro g
  have hg : Yields (fun _ => none) g := by
    have hown : externalUri? strangers = none := by decide +kernel
    refine .inl ⟨strangers, ?_⟩
    simp only [provider, ofDocument, hown]
    rfl
  have hchain : ∀ a ∈ (Document.parse "<a><c><q:b/></c></a>" "file:///w/b.xml").elementChain 3,
      ∃ e tag, (Document.parse "<a><c><q:b/></c></a>" "file:///w/b.xml").element? a = some e ∧
        e.tag = some tag ∧ tag.toList.count ':' ≤ 1 := by
    have htags : ∀ a ∈ (Document.parse "<a><c><q:b/></c></a>" "file:///w/b.xml").elementChain 3,
        (((Document.parse "<a><c><q:b/></c></a>" "file:///w/b.xml").element? a).bind (·.tag)).any
          (fun t => t.toList.count ':' ≤ 1) = true := by decide +kernel
    intro a ha
    obtain ⟨tag, htag, hcolon⟩ := (Option.any_eq_true _ _).mp (htags a ha)
    obtain ⟨e, he, htag⟩ := Option.bind_eq_some_iff.mp htag
    exact ⟨e, tag, he, htag, of_decide_eq_true hcolon⟩
  obtain ⟨c, hc, hname, hlocal⟩ :
      ∃ c ∈ g.elements, c.name = "p:b" ∧ some c.localName =
        localName? (Document.parse "<a><c><q:b/></c></a>" "file:///w/b.xml") 3 := by decide +kernel
  exact ⟨c, hname, (declaration?_eq_some_iff hg (by decide +kernel) hchain none c).mpr ⟨hc, hlocal⟩⟩

end DocumentType

end XmlAssist.Grammar

import XmlAssist.Tree.Element

/-!
# Prefixes and namespaces

The way from a namespace to a prefix and the way from a prefix to its namespace both go outwards from an
element, and each takes the first declaration that fits it. A prefix that is found for a namespace stands for
it unless the declaration that was found is hidden: by an element farther inside that declares the same prefix
for something else, or by an attribute of the same name before it in its own tag (`prefixFor?_denotes`).
Every namespace that some prefix stands for has a prefix that is found for it.
-/

namespace XmlAssist

theorem Text.after?_eq_some_iff {lead s rest : String} : Text.after? lead s = some rest ↔ s = lead ++ rest := by
  rw [after?, ← String.toList_inj, String.toList_append]
  constructor
  · intro h
    split at h
    · rename_i hlead
      obtain ⟨more, hmore⟩ := List.isPrefixOf_iff_prefix.mp hlead
      rw [← Option.some.inj h, String.toList_ofList, ← hmore, List.drop_left]
    · cases h
  · intro h
    rw [if_pos (by rw [h, List.isPrefixOf_iff_prefix]; exact List.prefix_append ..), h, List.drop_left,
      String.ofList_toList]

theorem Attribute.prefixFor_eq_some_iff {a : Attribute} {uri p : String} :
    a.prefixFor uri = some p ↔ a.value = some uri ∧ a.name = "xmlns:" ++ p := by
  rw [prefixFor, ← Text.after?_eq_some_iff]
  by_cases h : a.value = some uri <;> simp [h, xmlnsPrefix]

namespace Document

variable {d : Document} {id i : Nat} {uri p : String} {a : Attribute}

/-- One of the attributes of a node declares the prefix `p` for the namespace `uri`. -/
def Declares (d : Document) (id : Nat) (p uri : String) : Prop :=
  ∃ a ∈ d.attributes id, a.2.value = some uri ∧ a.2.name = "xmlns:" ++ p

theorem declares_of_attributeValue? (h : d.attributeValue? id ("xmlns:" ++ p) = some uri) :
    d.Declares id p uri := by
  obtain ⟨a, hfind, hvalue⟩ := Option.bind_eq_some_iff.mp h
  exact ⟨a, List.mem_of_find?_eq_some hfind, hvalue, by simpa using List.find?_some hfind⟩

theorem findSome?_prefixFor_isSome :
    ((d.attributes id).findSome? fun (_, a) => a.prefixFor uri).isSome = true ↔ ∃ p, d.Declares id p uri := by
  rw [List.findSome?_isSome_iff]
  constructor
  · rintro ⟨a, ha, hsome⟩
    obtain ⟨p, hp⟩ := Option.isSome_iff_exists.mp hsome
    exact ⟨p, a, ha, Attribute.prefixFor_eq_some_iff.mp hp⟩
  · rintro ⟨p, a, ha, hdeclares⟩
    exact ⟨a, ha, Option.isSome_iff_exists.mpr ⟨p, Attribute.prefixFor_eq_some_iff.mpr hdeclares⟩⟩

theorem exists_of_prefixFor? (h : d.prefixFor? id uri = some p) :
    ∃ near owner far, d.elementChain id = near ++ owner :: far ∧ d.Declares owner p uri ∧
      ∀ e ∈ near, ∀ q, ¬ d.Declares e q uri := by
  obtain ⟨near, owner, far, hchain, hfound, hnone⟩ := List.findSome?_eq_some_iff.mp h
  obtain ⟨before, a, behind, hattributes, hprefix, -⟩ := List.findSome?_eq_some_iff.mp hfound
  refine ⟨near, owner, far, hchain,
    ⟨a, by rw [hattributes]; simp, Attribute.prefixFor_eq_some_iff.mp hprefix⟩, ?_⟩
  intro e he q hq
  have hsome := findSome?_prefixFor_isSome.mpr ⟨q, hq⟩
  rw [hnone e he] at hsome
  cases hsome

/-- **What a prefix that is found stands for.** A prefix found for a namespace is declared for it by the first
element on the way outwards that declares one for it, and stands for the namespace unless an element farther
inside declares the prefix for another one, or the first attribute of that name in the same tag does not declare
it for this one. A namespace that a prefix stands for has a prefix that is found. -/
theorem prefixFor?_denotes (d : Document) (id : Nat) (uri : String) :
    (∀ p, d.prefixFor? id uri = some p →
      ∃ near owner far, d.elementChain id = near ++ owner :: far ∧ d.Declares owner p uri ∧
        (∀ e ∈ near, ∀ q, ¬ d.Declares e q uri) ∧
        ((∃ e ∈ near, ∃ other, other ≠ uri ∧ d.attributeValue? e ("xmlns:" ++ p) = some other) ∨
          d.attributeValue? owner ("xmlns:" ++ p) ≠ some uri ∨ d.namespaceFor? id (some p) = some uri)) ∧
      ((∃ p, d.namespaceFor? id (some p) = some uri) → ∃ p, d.prefixFor? id uri = some p) := by
  constructor
  · intro p hp
    obtain ⟨near, owner, far, hchain, hdeclares, hnear⟩ := exists_of_prefixFor? hp
    refine ⟨near, owner, far, hchain, hdeclares, hnear, ?_⟩
    by_cases hhidden : ∃ e ∈ near, (d.attributeValue? e ("xmlns:" ++ p)).isSome = true
    · obtain ⟨e, he, hsome⟩ := hhidden
      obtain ⟨other, hother⟩ := Option.isSome_iff_exists.mp hsome
      refine .inl ⟨e, he, other, fun heq => ?_, hother⟩
      exact hnear e he p (declares_of_attributeValue? (heq ▸ hother))
    by_cases howner : d.attributeValue? owner ("xmlns:" ++ p) = some uri
    · refine .inr (.inr ?_)
      have hnone (e : Nat) (he : e ∈ near) : d.attributeValue? e ("xmlns:" ++ p) = none :=
        Option.not_isSome_iff_eq_none.mp fun hsome => hhidden ⟨e, he, hsome⟩
      exact List.findSome?_eq_some_iff.mpr ⟨near, owner, far, hchain, howner, hnone⟩
    · exact .inr (.inl howner)
  · rintro ⟨p, hp⟩
    obtain ⟨near, owner, far, hchain, hvalue, -⟩ := List.findSome?_eq_some_iff.mp hp
    refine Option.isSome_iff_exists.mp (List.findSome?_isSome_iff.mpr ⟨owner, by rw [hchain]; simp, ?_⟩)
    exact findSome?_prefixFor_isSome.mpr ⟨p, declares_of_attributeValue? hvalue⟩

/-- Two elements that declare the same prefix for two namespaces. -/
def redeclared : Document := parse "<a xmlns:p=\"u\"><b xmlns:p=\"v\"/></a>" "file:///a.xml"

theorem prefixFor?_denotes_redeclared :
    (redeclared.prefixFor? 3 "v" = some "p" ∧ redeclared.namespaceFor? 3 (some "p") = some "v") ∧
      (∃ near owner far, redeclared.elementChain 3 = near ++ owner :: far ∧ redeclared.Declares owner "p" "v" ∧
        (∀ e ∈ near, ∀ q, ¬ redeclared.Declares e q "v") ∧
        ((∃ e ∈ near, ∃ other, other ≠ "v" ∧ redeclared.attributeValue? e ("xmlns:" ++ "p") = some other) ∨
          redeclared.attributeValue? owner ("xmlns:" ++ "p") ≠ some "v" ∨
          redeclared.namespaceFor? 3 (some "p") = some "v")) ∧
      ∃ p, redeclared.prefixFor? 3 "v" = some p := by
  have hfound : redeclared.prefixFor? 3 "v" = some "p" := by decide +kernel
  have hnamespace : redeclared.namespaceFor? 3 (some "p") = some "v" := by decide +kernel
  have h := prefixFor?_denotes redeclared 3 "v"
  exact ⟨⟨hfound, hnamespace⟩, h.1 "p" hfound, h.2 ⟨"p", hnamespace⟩⟩

/-- Inside the second element the prefix is still found for the first namespace. -/
theorem prefix_hidden : ¬ ∀ (d : Document) (id : Nat) (e : Element) (uri p : String), d.element? id = some e →
    d.prefixFor? id uri = some p → d.namespaceFor? id (some p) = some uri := by
  intro h
  have hsome : (redeclared.element? 3).isSome = true := by decide +kernel
  obtain ⟨e, he⟩ := Option.isSome_iff_exists.mp hsome
  have hnamespace := h redeclared 3 e "u" "p" he (by decide +kernel)
  exact absurd hnamespace (by decide +kernel)

end Document

end XmlAssist

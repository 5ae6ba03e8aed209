import XmlAssist.Tree.Builder

/-!
# The way from a node to the document

`Node.chain` lists a node and those around it. It depends on nothing but the parents of the nodes
up to the one it starts from, and the chain of each of its members is what follows that member.
-/

namespace XmlAssist.Node

def parentAt (nodes : Array Node) (id : Nat) : Option Nat := nodes[id]?.bind (·.parent)

variable {nodes nodes' : Array Node} {id p c d : Nat}

theorem parentAt_eq_some :
    parentAt nodes id = some p ↔ ∃ n, nodes[id]? = some n ∧ n.parent = some p := by
  simp [parentAt, Option.bind_eq_some_iff]

theorem lt_size_of_getElem? {n : Node} (h : nodes[id]? = some n) : id < nodes.size := by
  obtain ⟨hlt, -⟩ := Array.getElem?_eq_some_iff.mp h
  exact hlt

theorem chain_of_parentAt (h : parentAt nodes id = some p) (hlt : p < id) :
    chain nodes id = id :: chain nodes p := by
  rw [chain, show nodes[id]?.bind (·.parent) = some p from h]
  exact if_pos hlt

theorem chain_of_parentAt_eq_none (h : parentAt nodes id = none) : chain nodes id = [id] := by
  rw [chain, show nodes[id]?.bind (·.parent) = none from h]

theorem chain_cases (nodes : Array Node) (id : Nat) :
    chain nodes id = [id] ∨
      ∃ p, parentAt nodes id = some p ∧ p < id ∧ chain nodes id = id :: chain nodes p := by
  rw [chain]
  split
  · rename_i p hp
    split
    · exact .inr ⟨p, hp, ‹_›, rfl⟩
    · exact .inl rfl
  · exact .inl rfl

theorem mem_chain_self (nodes : Array Node) (id : Nat) : id ∈ chain nodes id := by
  rcases chain_cases nodes id with h | ⟨p, -, -, h⟩ <;> simp [h]

theorem le_of_mem_chain (h : c ∈ chain nodes id) : c ≤ id := by
  induction id using Nat.strongRecOn with
  | ind id ih =>
    rcases chain_cases nodes id with hc | ⟨p, -, hlt, hc⟩
    · rw [hc, List.mem_singleton] at h
      exact Nat.le_of_eq h
    · rw [hc, List.mem_cons] at h
      rcases h with rfl | h
      · exact Nat.le_refl _
      · exact Nat.le_of_lt (Nat.lt_of_le_of_lt (ih p hlt h) hlt)

theorem mem_chain_trans (hc : c ∈ chain nodes id) (hd : d ∈ chain nodes c) : d ∈ chain nodes id := by
  induction id using Nat.strongRecOn with
  | ind id ih =>
    rcases chain_cases nodes id with h | ⟨p, -, hlt, h⟩
    · rw [h, List.mem_singleton] at hc
      rwa [hc] at hd
    · rw [h, List.mem_cons] at hc
      rcases hc with rfl | hc
      · exact hd
      · rw [h]
        exact List.mem_cons_of_mem _ (ih p hlt hc)

theorem parentAt_mem_chain (h : parentAt nodes id = some p) (hlt : p < id) :
    p ∈ chain nodes id := by
  rw [chain_of_parentAt h hlt]
  exact List.mem_cons_of_mem _ (mem_chain_self nodes p)

theorem mem_chain_of_ne (h : parentAt nodes id = some p) (hlt : p < id) (hc : c ∈ chain nodes id)
    (hne : c ≠ id) : c ∈ chain nodes p := by
  rw [chain_of_parentAt h hlt, List.mem_cons] at hc
  exact hc.resolve_left hne

theorem chain_pairwise (nodes : Array Node) (id : Nat) : (chain nodes id).Pairwise (· > ·) := by
  induction id using Nat.strongRecOn with
  | ind id ih =>
    rcases chain_cases nodes id with h | ⟨p, -, hlt, h⟩
    · simp [h]
    · rw [h]
      exact List.Pairwise.cons (fun c hc => Nat.lt_of_le_of_lt (le_of_mem_chain hc) hlt) (ih p hlt)

theorem mem_chain_of_le (hc : c ∈ chain nodes id) (hd : d ∈ chain nodes id) (h : c ≤ d) :
    c ∈ chain nodes d := by
  induction id using Nat.strongRecOn with
  | ind id ih =>
    by_cases hdid : d = id
    · rwa [hdid]
    · have hlt : d < id := Nat.lt_of_le_of_ne (le_of_mem_chain hd) hdid
      rcases chain_cases nodes id with hid | ⟨p, hp, hplt, -⟩
      · rw [hid, List.mem_singleton] at hd
        exact absurd hd hdid
      · exact ih p hplt (mem_chain_of_ne hp hplt hc (by omega)) (mem_chain_of_ne hp hplt hd hdid)

theorem exists_chain_eq_cons (nodes : Array Node) (id : Nat) :
    ∃ outer, chain nodes id = id :: outer ∧ ∀ c ∈ outer, c < id := by
  have hsorted := chain_pairwise nodes id
  rcases chain_cases nodes id with h | ⟨p, -, -, h⟩
  · exact ⟨[], h, nofun⟩
  · rw [h] at hsorted
    exact ⟨_, h, fun c hc => (List.pairwise_cons.mp hsorted).1 c hc⟩

theorem chain_of_append {inner outer : List Nat} (h : chain nodes id = inner ++ c :: outer) :
    chain nodes c = c :: outer := by
  induction inner generalizing id with
  | nil =>
    obtain ⟨_, hcons, -⟩ := exists_chain_eq_cons nodes id
    obtain ⟨rfl, -⟩ := List.cons.inj (hcons.symm.trans h)
    exact h
  | cons d inner ih =>
    rcases chain_cases nodes id with hone | ⟨p, -, -, hcons⟩
    · simp [hone] at h
    · exact ih (List.cons.inj (hcons.symm.trans h)).2

theorem chain_congr (h : ∀ j ≤ id, parentAt nodes' j = parentAt nodes j) :
    chain nodes' id = chain nodes id := by
  induction id using Nat.strongRecOn with
  | ind id ih =>
    have hid := h id (Nat.le_refl id)
    rcases chain_cases nodes id with hc | ⟨p, hp, hlt, hc⟩
    · rcases chain_cases nodes' id with hc' | ⟨p, hp, hlt, hc'⟩
      · rw [hc, hc']
      · rw [hid] at hp
        rw [chain_of_parentAt hp hlt] at hc
        have hnil : chain nodes p = [] := (List.cons.inj hc).2
        have := mem_chain_self nodes p
        rw [hnil] at this
        cases this
    · rw [hc, chain_of_parentAt (hid.trans hp) hlt, ih p hlt fun j hj => h j (by omega)]

theorem lt_size_of_mem_chain (h : id < nodes.size) (hc : c ∈ chain nodes id) : c < nodes.size :=
  Nat.lt_of_le_of_lt (le_of_mem_chain hc) h

theorem lt_size_of_mem_chain_of_ne (hc : c ∈ chain nodes id) (hne : c ≠ id) : id < nodes.size := by
  rcases chain_cases nodes id with h | ⟨p, hp, -, -⟩
  · rw [h, List.mem_singleton] at hc
    exact absurd hc hne
  · obtain ⟨n, hn, -⟩ := parentAt_eq_some.mp hp
    exact lt_size_of_getElem? hn

end XmlAssist.Node

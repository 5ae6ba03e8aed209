import XmlAssist.Editor.Edit
import XmlAssist.Proofs.Text.Piece
import XmlAssist.Proofs.Text.Ranges

/-!
# Texts after edits

The client applies the edits of an answer to its text: each of them replaces what stands in its range,
and all ranges are places of the text as it was (`Document.edited`). Edits at spans whose ranges the
document itself gave out replace just these spans (`edited_parse`).
-/

namespace XmlAssist

namespace Text

/-- The text from `i` on, where other text stands in the place of the spans. -/
def splice (s : String) (i : Nat) : List (Span × String) → String
  | [] => slice s i (size s)
  | (sp, t) :: edits => slice s i sp.start ++ (t ++ splice s sp.stop edits)

variable {u v v' w z t t' : String} {i : Nat}

theorem stands_append (u v w : String) : Stands (u ++ (v ++ w)) (size u) v :=
  ⟨u, w, (String.append_assoc ..).symm, rfl⟩

theorem slice_behind (u w : String) : slice (u ++ w) (size u) (size (u ++ w)) = w := by
  have h := stands_append u w ""
  rw [String.append_empty] at h
  rw [size_append]
  exact h.slice

theorem slice_before (u w : String) : slice (u ++ w) 0 (size u) = u := by
  have h := stands_append "" u w
  rw [String.empty_append] at h
  simpa using h.slice

theorem splice_one (u v w t : String) :
    splice (u ++ (v ++ w)) 0 [(⟨size u, size u + size v⟩, t)] = u ++ (t ++ w) := by
  have hbehind := slice_behind (u ++ v) w
  rw [String.append_assoc, size_append] at hbehind
  rw [splice, splice, slice_before, hbehind]

theorem splice_two (u v w v' z t t' : String) :
    splice (u ++ (v ++ (w ++ (v' ++ z)))) 0
      [(⟨size u, size u + size v⟩, t),
        (⟨size u + size v + size w, size u + size v + size w + size v'⟩, t')] =
      u ++ (t ++ (w ++ (t' ++ z))) := by
  have hbetween := (stands_append (u ++ v) w (v' ++ z)).slice
  rw [size_append, String.append_assoc] at hbetween
  have hbehind := slice_behind (u ++ (v ++ (w ++ v'))) z
  simp only [String.append_assoc] at hbehind
  rw [size_append, size_append, size_append, ← Nat.add_assoc, ← Nat.add_assoc] at hbehind
  rw [splice, splice, splice, slice_before, hbetween, hbehind]

/-! ## Cutting a text -/

section cut
variable {s : String} {a b c d : Nat}

theorem exists_split (ha : isBoundary s a = true) (hb : isBoundary s b = true) (hab : a ≤ b) :
    ∃ u v w, s = u ++ (v ++ w) ∧ a = size u ∧ b = size u + size v := by
  obtain ⟨⟨u, w, hs, hu⟩, hv⟩ := stands_slice ha hb hab
  exact ⟨u, slice s a b, w, hs.trans (String.append_assoc ..), hu.symm, by rw [hu, hv]⟩

theorem exists_split₂ (ha : isBoundary s a = true) (hb : isBoundary s b = true)
    (hc : isBoundary s c = true) (hd : isBoundary s d = true) (hab : a ≤ b) (hbc : b ≤ c) (hcd : c ≤ d) :
    ∃ u v w v' z, s = u ++ (v ++ (w ++ (v' ++ z))) ∧ a = size u ∧ b = size u + size v ∧
      c = size u + size v + size w ∧ d = size u + size v + size w + size v' := by
  obtain ⟨u, v, r, rfl, rfl, rfl⟩ := exists_split ha hb hab
  obtain ⟨u', v', z, hs, rfl, rfl⟩ := exists_split hc hd hcd
  -- what stands before the second piece goes on behind the first one
  obtain ⟨u₁, w, z₁, hs₁, hu₁, hw⟩ := exists_split hb hc hbc
  have hcut {p q p' q' : String} (h : p ++ q = p' ++ q') (hsize : size p = size p') : p = p' ∧ q = q' := by
    have hbytes := congrArg bytesOf h
    rw [bytesOf_append, bytesOf_append] at hbytes
    have hlength : (bytesOf p).length = (bytesOf p').length := by rwa [length_bytesOf, length_bytesOf]
    obtain ⟨hp, hq⟩ := List.append_inj hbytes hlength
    exact ⟨eq_of_bytesOf_eq hp, eq_of_bytesOf_eq hq⟩
  rw [← size_append] at hu₁
  obtain ⟨rfl, rfl⟩ := hcut ((String.append_assoc ..).trans hs₁) hu₁
  rw [size_append] at hw
  have hsplit : (u ++ v ++ w) ++ z₁ = u' ++ (v' ++ z) := by
    rw [← hs]
    simp only [String.append_assoc]
  obtain ⟨rfl, rfl⟩ := hcut hsplit (by rw [size_append, size_append, ← hw])
  exact ⟨u, v, w, v', z, rfl, rfl, rfl, hw, by rw [hw]⟩

end cut

end Text

namespace Document

def edited (d : Document) (edits : List TextEdit) : Except BadLocation String := do
  let changes ← edits.mapM fun e => return (← d.spanOf e.range, e.newText)
  return Text.splice d.text 0 (changes.mergeSort fun a b => a.1.start ≤ b.1.start)

variable {text uri : String}

/-- Edits of spans, in the order of the text, replace these spans. -/
theorem edited_parse {l : List (Span × String)} {edits : List TextEdit}
    (h : List.Forall₂ (fun c e => (parse text uri).rangeOf c.1 = .ok e.range ∧ e.newText = c.2) l
      edits) (hsorted : l.Pairwise (·.1.start ≤ ·.1.start)) :
    (parse text uri).edited edits = .ok (Text.splice text 0 l) := by
  have hchanges : edits.mapM (fun e => return (← (parse text uri).spanOf e.range, e.newText)) =
      (Except.ok l : Except BadLocation _) := by
    induction h with
    | nil => rfl
    | @cons c e _ _ hc _ ih =>
      rw [List.mapM_cons, ih (List.pairwise_cons.mp hsorted).2, spanOf_of_rangeOf hc.1, hc.2]
      rfl
  rw [edited, hchanges]
  show Except.ok _ = _
  rw [List.mergeSort_of_pairwise (by simpa using hsorted)]
  rfl

end Document

end XmlAssist

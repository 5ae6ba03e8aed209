import XmlAssist.Text.Quoted

/-!
# The first separator

A text falls apart at the first separator that it contains, and what stands behind that one contains
one separator less.
-/

namespace XmlAssist.Text

variable {sep : Char} {s : String}

theorem splitAtFirst_append {before behind : List Char} (h : sep ∉ before) :
    splitAtFirst sep (before ++ sep :: behind) = some (before, behind) := by
  induction before with
  | nil => exact if_pos rfl
  | cons c cs ih =>
    rw [List.mem_cons, not_or] at h
    rw [List.cons_append, splitAtFirst, if_neg (Ne.symm h.1), ih h.2]
    rfl

theorem splitAtFirst_eq_none {cs : List Char} (h : sep ∉ cs) :
    splitAtFirst sep cs = none := by
  induction cs with
  | nil => rfl
  | cons c cs ih =>
    rw [List.mem_cons, not_or] at h
    rw [splitAtFirst, if_neg (Ne.symm h.1), ih h.2]
    rfl

theorem splitOnce?_eq_none (h : sep ∉ s.toList) : splitOnce? sep s = none := by
  rw [splitOnce?, splitAtFirst_eq_none h]
  rfl

theorem not_mem_behind_splitOnce? (h : s.toList.count sep ≤ 1) :
    sep ∉ (((splitOnce? sep s).map (·.2)).getD s).toList := by
  by_cases hmem : sep ∈ s.toList
  · obtain ⟨before, behind, hs, hbefore⟩ := List.eq_append_cons_of_mem hmem
    rw [hs, List.count_append, List.count_cons_self] at h
    rw [splitOnce?, hs, splitAtFirst_append hbefore]
    show sep ∉ (String.ofList behind).toList
    rw [String.toList_ofList]
    exact List.count_eq_zero.mp (by omega)
  · rwa [splitOnce?_eq_none hmem]

end XmlAssist.Text

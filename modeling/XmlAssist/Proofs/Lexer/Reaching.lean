import XmlAssist.Proofs.Lexer.Passage
import XmlAssist.Tree.TagName

/-!
# The token that a cursor touches

Markup is read again from its start up to a token that the cursor touches. Tokens do not overlap, so what is
found is the first token of the kind that is asked for and that the cursor touches, if there is one; where a
name is known to be the only one, it is that name (`filter_spanReaching?`).
-/

namespace XmlAssist.Lexer

open Text (isBoundary size)

variable {s : String} {x y z : Lexer} {l : List (Token × Lexer)} {ts : List Token} {k : Token.Kind} {i o : Nat}

/-- The reading stops at the token: it is the last one, or it ends behind the cursor, or is of the kind that is
asked for and ends at the cursor. -/
def reaches (k : Token.Kind) (o : Nat) (t : Token) : Bool :=
  t.kind == .eos || !(decide (t.stop < o) || (t.stop == o && t.kind != k))

theorem spanReaching?_eq : spanReaching? s k i o =
    ((((restart s i .content).run s).map (·.1)).find? (reaches k o)).bind fun t =>
      if t.kind = k ∧ o ≤ t.stop then some t.span else none := by
  rw [spanReaching?, List.find?_map]
  split
  · rename_i h
    rw [show List.find? (reaches k o ∘ (·.1)) ((restart s i .content).run s) = some _ from h]
    rfl
  · rename_i h
    rw [show List.find? (reaches k o ∘ (·.1)) ((restart s i .content).run s) = none from h]
    rfl

theorem Leads.pairwise (h : Leads s x l y) (hx : isBoundary s x.pos = true) :
    l.Pairwise fun p q => p.1.stop ≤ q.1.start := by
  induction h with
  | here => exact List.Pairwise.nil
  | next hlt hrest ih =>
    have hnext := boundary_step hx hlt
    refine List.pairwise_cons.mpr ⟨fun q hq => ?_, ih hnext⟩
    rw [stop_step hx hlt]
    exact (hrest.bounds hnext hq).1

theorem Leads.run_eq (h : Leads s x l y) (hx : isBoundary s x.pos = true) (hy : y.pos = size s) :
    x.run s = l ++ [y.step s] := by
  induction h with
  | here => exact run_of_eq (by rw [step_at_end (Nat.le_of_eq hy.symm)])
  | next hlt _ ih =>
    rw [run_of_ne (by rw [step_eq_lex hx hlt]; exact (moves_lex hx hlt).kind), ih (boundary_step hx hlt) hy]
    rfl

theorem touches_iff {sp : Span} : sp.touches o = true ↔ sp.start ≤ o ∧ o ≤ sp.stop := by
  rw [Span.touches, Bool.and_eq_true, decide_eq_true_iff, decide_eq_true_iff]

theorem reaches_eq_false {t : Token} : reaches k o t = false ↔
    t.kind ≠ .eos ∧ (t.stop < o ∨ (t.stop = o ∧ t.kind ≠ k)) := by
  simp only [reaches, Bool.or_eq_false_iff, Bool.not_eq_false', Bool.or_eq_true, Bool.and_eq_true,
    decide_eq_true_iff, beq_eq_false_iff_ne, beq_iff_eq, bne_iff_ne]

section found
variable {e : Token} (hts : ts.Pairwise fun t u => t.stop ≤ u.start) (hk : k ≠ .eos)
variable (hinner : ∀ t ∈ ts, t.kind ≠ .eos ∧ t.start < t.stop) (he : e.kind = .eos)
include hts hinner

theorem touches_of_find? {t u : Token} (hfind : ts.find? (reaches k o) = some t) (hu : u ∈ ts) (hkind : u.kind = k)
    (htouch : u.span.touches o = true) : t.kind = k ∧ t.span.touches o = true := by
  obtain ⟨hreach, l₁, l₂, rfl, hbefore⟩ := List.find?_eq_some_iff_append.mp hfind
  obtain ⟨hstart, hstop⟩ : u.start ≤ o ∧ o ≤ u.stop := touches_iff.mp htouch
  rcases List.mem_append.mp hu with hu | hu
  · have hpass : reaches k o u = false := by simpa using hbefore u hu
    obtain ⟨-, hlt | ⟨-, hne⟩⟩ := reaches_eq_false.mp hpass
    · omega
    · exact absurd hkind hne
  rcases List.mem_cons.mp hu with rfl | hu
  · exact ⟨hkind, htouch⟩
  -- the cursor is between two tokens of the kind
  obtain ⟨hne, hlt⟩ := hinner t (List.mem_append_right _ List.mem_cons_self)
  have hle := (List.pairwise_cons.mp (List.pairwise_append.mp hts).2.1).1 u hu
  have hnot : ¬ (t.stop < o ∨ (t.stop = o ∧ t.kind ≠ k)) := fun hpass => by
    rw [reaches_eq_false.mpr ⟨hne, hpass⟩] at hreach
    cases hreach
  have heq : t.stop = o := by omega
  exact ⟨Decidable.byContradiction fun hother => hnot (.inr ⟨heq, hother⟩), touches_iff.mpr ⟨by
    show t.start ≤ o
    omega, Nat.le_of_eq heq.symm⟩⟩

include hk he

/-- What is found among tokens that stand one behind the other is the span that is known to be the only one of
its kind under the cursor. -/
theorem find?_reaches {own : Option Span}
    (hown : ∀ sp, own = some sp → sp.touches o = true → ∃ t ∈ ts, t.kind = k ∧ t.span = sp)
    (honly : ∀ t ∈ ts, t.kind = k → t.span.touches o = true → own = some t.span) :
    ((((ts ++ [e]).find? (reaches k o)).bind fun t =>
      if t.kind = k ∧ o ≤ t.stop then some t.span else none).filter (·.touches o)) =
        own.filter (·.touches o) := by
  have hnone (hno : ∀ t ∈ ts, t.kind = k → ¬ t.span.touches o = true) : own.filter (·.touches o) = none := by
    rw [Option.filter_eq_none_iff]
    intro sp hsp htouch
    obtain ⟨t, ht, hkind, rfl⟩ := hown sp hsp htouch
    exact hno t ht hkind htouch
  rw [List.find?_append]
  cases hfind : ts.find? (reaches k o) with
  | none =>
    have hlast : reaches k o e = true := by rw [reaches, he]; rfl
    rw [Option.none_or, List.find?_cons_of_pos hlast, Option.bind_some, if_neg, hnone, Option.filter_none]
    · intro t ht hkind htouch
      have hpass := List.find?_eq_none.mp hfind t ht
      obtain ⟨-, hlt | ⟨-, hne⟩⟩ := reaches_eq_false.mp (Bool.eq_false_iff.mpr hpass)
      · exact absurd (touches_iff.mp htouch).2 (Nat.not_le_of_lt hlt)
      · exact hne hkind
    · rw [he]
      exact fun h => hk h.1.symm
  | some t =>
    rw [Option.some_or, Option.bind_some]
    by_cases htouch : t.kind = k ∧ t.span.touches o = true
    · have hown := honly t (List.mem_of_find?_eq_some hfind) htouch.1 htouch.2
      have hstop : o ≤ t.stop := (touches_iff.mp htouch.2).2
      rw [if_pos ⟨htouch.1, hstop⟩, hown]
    · rw [hnone fun u hu hkind hutouch => htouch (touches_of_find? hts hinner hfind hu hkind hutouch)]
      split
      · rename_i hcond
        rw [Option.filter_some, if_neg fun h => htouch ⟨hcond.1, h⟩]
      · rfl

end found

/-- **What is read again from a bracket**: let `z` be a lexer in a document, in front of a token with which
content starts. If `own` is the only span of the kind that the cursor can touch behind `z`, then that is what is
found there. -/
theorem filter_spanReaching? (hz : isBoundary s z.pos = true) (hc : z.Consistent)
    (hstarts : (z.step s).1.kind ∈ contentStarts) (hd : (z.step s).2.inDtd = false) (hk : k ≠ .eos)
    {own : Option Span}
    (hown : ∀ sp, own = some sp → sp.touches o = true → ∃ p ∈ z.tokens s, p.1.kind = k ∧ p.1.span = sp)
    (honly : ∀ p ∈ z.tokens s, p.1.kind = k → p.1.span.touches o = true → own = some p.1.span) :
    (spanReaching? s k z.pos o).filter (·.touches o) = own.filter (·.touches o) := by
  obtain ⟨y, hy, hend⟩ := Leads.exists_end s z hz
  have hlt : z.pos < size s := step_of_kind (by
    intro heos
    rw [heos] at hstarts
    simp [contentStarts] at hstarts)
  have hfile : z.dtdFile = false := by
    rw [inDtd, Bool.or_eq_false_iff] at hd
    exact (dtdFile_step hz hlt hc).2.symm.trans hd.1
  have hrun := run_restart hz hc hfile hstarts (.inr hd)
  rw [Leads.start_step hz hlt] at hrun
  have htokens : ((restart s z.pos .content).run s).map (·.1) = (z.run s).map (·.1) := by
    have htokens := congrArg (List.map (·.1)) hrun
    rw [List.map_map, List.map_map] at htokens
    exact htokens
  rw [spanReaching?_eq, htokens, hy.run_eq hz hend, List.map_append]
  refine find?_reaches ((List.pairwise_map).mpr (hy.pairwise hz)) hk (fun t ht => ?_)
    (by rw [step_at_end (Nat.le_of_eq hend.symm)]) (fun sp hsp htouch => ?_) (fun t ht hkind htouch => ?_)
  · obtain ⟨p, hp, rfl⟩ := List.mem_map.mp ht
    refine ⟨?_, (hy.bounds hz hp).2.1⟩
    simpa using (List.mem_filter.mp hp).2
  · obtain ⟨p, hp, hkind, hspan⟩ := hown sp hsp htouch
    exact ⟨p.1, List.mem_map_of_mem hp, hkind, hspan⟩
  · obtain ⟨p, hp, rfl⟩ := List.mem_map.mp ht
    exact honly p hp hkind htouch

end XmlAssist.Lexer

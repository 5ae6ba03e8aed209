import Mathlib.Data.List.Nodup
import Mathlib.Data.List.Perm.Basic
import XmlAssist.Store

/-!
# Versions of open documents

Changes may reach the store out of order. A change either replaces the entry of its document or is
refused, by the version alone, so two changes with different versions may come in either order
(`accept_comm`), and of any number of them the newest is left. A refused change leaves the whole
store, and a document keeps its version or gets a newer one until it is opened again or closed.
-/

namespace XmlAssist.Store

/-! ## Entries -/

def replace (s : Store) (uri : String) (entry : Entry) : Store :=
  { entries := s.entries.map fun (key, old) => if key == uri then (key, entry) else (key, old) }

def others (s : Store) (uri : String) : List (String × Entry) := s.entries.filter (·.1 != uri)

section entries
variable {s : Store} {uri : String} {entry old : Entry}

theorem entry?_replace (uri' : String) :
    Store.entry? (s.replace uri entry) uri' =
      if uri' = uri then (s.entry? uri').map fun _ => entry else s.entry? uri' := by
  obtain ⟨entries⟩ := s
  simp only [Store.entry?, replace]
  induction entries with
  | nil => simp
  | cons first rest ih =>
    obtain ⟨key, old⟩ := first
    by_cases huri : uri' = key
    · subst huri
      by_cases hkey : uri' = uri
      · simp [hkey]
      · simp [hkey]
    · have hne : (uri' == key) = false := beq_eq_false_iff_ne.mpr huri
      by_cases hkey : key = uri
      · subst hkey
        simpa [List.lookup_cons, hne] using ih
      · simpa [List.lookup_cons, hne, hkey] using ih

theorem replace_replace : (s.replace uri old).replace uri entry = s.replace uri entry := by
  simp only [replace, List.map_map]
  congr 1
  apply List.map_congr_left
  intro first _
  by_cases hkey : first.1 = uri
  · simp [hkey]
  · simp [hkey]

@[simp] theorem others_replace : (s.replace uri entry).others uri = s.others uri := by
  obtain ⟨entries⟩ := s
  simp only [others, replace]
  induction entries with
  | nil => rfl
  | cons first rest ih =>
    by_cases hkey : first.1 = uri
    · simpa [hkey] using ih
    · simpa [hkey] using ih

theorem entry?_eq_of_others {t : Store} {uri' : String} (h : t.others uri = s.others uri)
    (hne : uri' ≠ uri) : t.entry? uri' = s.entry? uri' := by
  have hkept : ∀ x : Store, x.entry? uri' = (x.others uri).lookup uri' := by
    rintro ⟨entries⟩
    simp only [Store.entry?, others]
    induction entries with
    | nil => rfl
    | cons first rest ih =>
      obtain ⟨key, old⟩ := first
      by_cases huri : uri' = key
      · subst huri
        simp [hne]
      · have hkey : (uri' == key) = false := beq_eq_false_iff_ne.mpr huri
        by_cases hout : key = uri
        · subst hout
          simpa [List.lookup_cons, hkey] using ih
        · simpa [List.lookup_cons, hkey, hout] using ih
  rw [hkept, hkept, h]

end entries

/-! ## Changes of one document -/

structure Revision where
  text : String
  version : Int
deriving DecidableEq, Repr, Inhabited

def Revision.toEntry (c : Revision) (uri : String) : Entry where
  version := c.version
  document := .parse c.text uri

/-- The store behind a change, which may be refused. -/
def accept (uri : String) (s : Store) (c : Revision) : Store :=
  (s.change uri c.text c.version).getD s

section changes
variable {s : Store} {uri : String} {old : Entry} {c : Revision}

theorem change_eq (uri : String) (s : Store) (c : Revision) : s.change uri c.text c.version =
    (s.entry? uri).bind fun old =>
      if c.version < old.version then none else some (s.replace uri (c.toEntry uri)) := by
  unfold change
  cases s.entry? uri <;> rfl

theorem accept_of_closed (h : s.entry? uri = none) : s.accept uri c = s := by
  rw [accept, change_eq, h]
  rfl

theorem accept_of_lt (h : s.entry? uri = some old) (hlt : c.version < old.version) :
    s.accept uri c = s := by
  rw [accept, change_eq, h, Option.bind_some, if_pos hlt]
  rfl

theorem accept_of_le (h : s.entry? uri = some old) (hle : old.version ≤ c.version) :
    s.accept uri c = s.replace uri (c.toEntry uri) := by
  rw [accept, change_eq, h, Option.bind_some, if_neg (Int.not_lt.mpr hle)]
  rfl

theorem entry?_accept (h : s.entry? uri = some old) (c : Revision) :
    Store.entry? (s.accept uri c) uri = some (if c.version < old.version then old else c.toEntry uri) := by
  by_cases hlt : c.version < old.version
  · rw [accept_of_lt h hlt, if_pos hlt, h]
  · rw [accept_of_le h (Int.not_lt.mp hlt), entry?_replace, if_pos rfl, if_neg hlt, h]
    rfl

theorem others_accept (uri : String) (s : Store) (c : Revision) : (s.accept uri c).others uri = s.others uri := by
  cases h : s.entry? uri with
  | none => rw [accept_of_closed h]
  | some old =>
    by_cases hlt : c.version < old.version
    · rw [accept_of_lt h hlt]
    · rw [accept_of_le h (Int.not_lt.mp hlt), others_replace]

theorem accept_accept_of_lt (uri : String) (s : Store) {c d : Revision} (hlt : c.version < d.version) :
    (s.accept uri c).accept uri d = s.accept uri d ∧ (s.accept uri d).accept uri c = s.accept uri d := by
  cases h : s.entry? uri with
  | none => simp only [accept_of_closed h, and_self]
  | some old =>
    have hc := entry?_accept h c
    have hd := entry?_accept h d
    by_cases hold : d.version < old.version
    · have hlt' : c.version < old.version := by omega
      simp only [accept_of_lt h hold, accept_of_lt h hlt', and_self]
    · rw [if_neg hold] at hd
      refine ⟨?_, accept_of_lt hd hlt⟩
      by_cases hcold : c.version < old.version
      · rw [accept_of_lt h hcold]
      · rw [if_neg hcold] at hc
        rw [accept_of_le hc (by exact Int.le_of_lt hlt), accept_of_le h (Int.not_lt.mp hcold),
          accept_of_le h (Int.not_lt.mp hold), replace_replace]

/-- **Changes with different versions commute.** -/
theorem accept_comm (uri : String) (s : Store) {c d : Revision} (hne : c.version ≠ d.version) :
    (s.accept uri c).accept uri d = (s.accept uri d).accept uri c := by
  rcases Int.lt_or_gt_of_ne hne with hlt | hlt
  · obtain ⟨h, h'⟩ := accept_accept_of_lt uri s hlt
    rw [h, h']
  · obtain ⟨h, h'⟩ := accept_accept_of_lt uri s hlt
    rw [h, h']

theorem foldl_accept_perm (uri : String) (s : Store) {cs ds : List Revision}
    (hne : (cs.map (·.version)).Nodup) (h : ds.Perm cs) :
    ds.foldl (accept uri) s = cs.foldl (accept uri) s := by
  apply h.foldl_eq'
  intro c hc d hd t
  by_cases hsame : c = d
  · rw [hsame]
  · apply accept_comm
    intro hversion
    have hmem : ∀ x ∈ ds, x ∈ cs := fun x hx => h.subset hx
    exact hsame (List.inj_on_of_nodup_map hne (hmem _ hd) (hmem _ hc) hversion.symm).symm

theorem others_foldl_accept (uri : String) (s : Store) (cs : List Revision) :
    (cs.foldl (accept uri) s).others uri = s.others uri := by
  induction cs generalizing s with
  | nil => rfl
  | cons c cs ih => rw [List.foldl_cons, ih, others_accept]

/-- After changes the document has an entry that no change is newer than: the old one or that of a
change. -/
theorem entry?_foldl_accept (h : s.entry? uri = some old) (cs : List Revision) :
    ∃ e, Store.entry? (cs.foldl (accept uri) s) uri = some e ∧ old.version ≤ e.version ∧
      (∀ c ∈ cs, c.version ≤ e.version) ∧ (e = old ∨ ∃ c ∈ cs, e = c.toEntry uri) := by
  induction cs generalizing s old with
  | nil => exact ⟨old, h, Int.le_refl _, by simp, .inl rfl⟩
  | cons c cs ih =>
    obtain ⟨e, he, hle, hall, hfrom⟩ := ih (entry?_accept h c)
    refine ⟨e, he, ?_, ?_, ?_⟩
    · by_cases hlt : c.version < old.version
      · rwa [if_pos hlt] at hle
      · rw [if_neg hlt] at hle
        exact Int.le_trans (Int.not_lt.mp hlt) hle
    · apply List.forall_mem_cons.mpr ⟨?_, hall⟩
      by_cases hlt : c.version < old.version
      · rw [if_pos hlt] at hle
        omega
      · rwa [if_neg hlt] at hle
    · rcases hfrom with rfl | ⟨d, hd, rfl⟩
      · by_cases hlt : c.version < old.version
        · exact .inl (if_pos hlt)
        · exact .inr ⟨c, List.mem_cons_self, if_neg hlt⟩
      · exact .inr ⟨d, List.mem_cons_of_mem _ hd, rfl⟩

theorem entry?_foldl_newest (h : s.entry? uri = some old) {cs : List Revision} (hcs : cs ≠ [])
    (hnewer : ∀ c ∈ cs, old.version < c.version) :
    ∃ c ∈ cs, (∀ d ∈ cs, d.version ≤ c.version) ∧
      Store.entry? (cs.foldl (accept uri) s) uri = some (c.toEntry uri) := by
  obtain ⟨e, he, -, hall, rfl | ⟨c, hc, rfl⟩⟩ := entry?_foldl_accept h cs
  · obtain ⟨c, hc⟩ := List.exists_mem_of_ne_nil cs hcs
    exact absurd (hall c hc) (Int.not_le.mpr (hnewer c hc))
  · exact ⟨c, hc, hall, he⟩

end changes

/-! ## Runs -/

inductive Call where
  | insert (uri : String) (revision : Revision)
  | change (uri : String) (revision : Revision)
  | erase (uri : String)
deriving DecidableEq, Repr, Inhabited

/-- The call opens or closes the document at `uri`. -/
def Call.renews (uri : String) : Call → Bool
  | .insert key _ | .erase key => key == uri
  | .change .. => false

inductive Answer where
  /-- The document that the store has now. -/
  | parsed (d : Document)
  /-- The change is of a document that is not open, or too old. -/
  | refused
  | closed (wasOpen : Bool)

/-- The answer to a call, and the store behind it. -/
def perform (s : Store) : Call → Answer × Store
  | .insert uri c => (.parsed (.parse c.text uri), s.insert uri c.text c.version)
  | .change uri c =>
    match s.change uri c.text c.version with
    | some t => (.parsed (.parse c.text uri), t)
    | none => (.refused, s)
  | .erase uri => (.closed (s.contains uri), s.erase uri)

def run (s : Store) (calls : List Call) : Store := calls.foldl (fun s call => (s.perform call).2) s

section runs
variable {s : Store} {uri : String} {call : Call}

theorem perform_change (s : Store) (uri : String) (c : Revision) :
    (s.perform (.change uri c)).2 = s.accept uri c := by
  simp only [perform, accept]
  cases s.change uri c.text c.version <;> rfl

theorem run_change (s : Store) (uri : String) (cs : List Revision) :
    s.run (cs.map (.change uri)) = cs.foldl (accept uri) s := by
  simp only [run, List.foldl_map, perform_change]

theorem refused_iff : (s.perform call).1 = .refused ↔
    ∃ uri c, call = .change uri c ∧ ∀ v, s.version? uri = some v → c.version < v := by
  cases call with
  | insert uri c => simp [perform]
  | erase uri => simp [perform]
  | change uri c =>
    have hchange := change_eq uri s c
    simp only [perform, version?]
    cases h : s.entry? uri with
    | none =>
      rw [h, Option.bind_none] at hchange
      simp [hchange, h]
    | some old =>
      by_cases hlt : c.version < old.version
      · rw [h, Option.bind_some, if_pos hlt] at hchange
        simp [hchange, h, hlt]
      · rw [h, Option.bind_some, if_neg hlt] at hchange
        simp [hchange, h, hlt]

theorem perform_of_refused (h : (s.perform call).1 = .refused) : (s.perform call).2 = s := by
  obtain ⟨uri, c, rfl, hold⟩ := refused_iff.mp h
  rw [perform_change]
  cases hentry : s.entry? uri with
  | none => exact accept_of_closed hentry
  | some old => exact accept_of_lt hentry (hold old.version (by rw [version?, hentry]; rfl))

theorem entry?_perform_of_ne {key : String} (hne : uri ≠ key)
    (hcall : (∃ c, call = .insert key c) ∨ (∃ c, call = .change key c) ∨ call = .erase key) :
    Store.entry? ((s.perform call).2) uri = s.entry? uri := by
  suffices hothers : (s.perform call).2.others key = s.others key from
    entry?_eq_of_others hothers hne
  rcases hcall with ⟨c, rfl⟩ | ⟨c, rfl⟩ | rfl
  · simp [perform, others, insert]
  · rw [perform_change, others_accept]
  · simp [perform, others, erase]

theorem version?_perform {v : Int} (hcall : call.renews uri = false) (h : s.version? uri = some v) :
    ∃ w, (s.perform call).2.version? uri = some w ∧ v ≤ w := by
  obtain ⟨old, hentry, rfl⟩ := Option.map_eq_some_iff.mp h
  cases call with
  | insert key c =>
    have hne : key ≠ uri := beq_eq_false_iff_ne.mp hcall
    refine ⟨old.version, ?_, Int.le_refl _⟩
    rw [version?, entry?_perform_of_ne hne.symm (.inl ⟨c, rfl⟩), hentry]
    rfl
  | erase key =>
    have hne : key ≠ uri := beq_eq_false_iff_ne.mp hcall
    refine ⟨old.version, ?_, Int.le_refl _⟩
    rw [version?, entry?_perform_of_ne hne.symm (.inr (.inr rfl)), hentry]
    rfl
  | change key c =>
    by_cases hkey : uri = key
    · subst hkey
      rw [perform_change, version?, entry?_accept hentry]
      refine ⟨_, rfl, ?_⟩
      split
      · exact Int.le_refl _
      · rename_i hnewer
        exact Int.not_lt.mp hnewer
    · refine ⟨old.version, ?_, Int.le_refl _⟩
      rw [version?, entry?_perform_of_ne hkey (.inr (.inl ⟨c, rfl⟩)), hentry]
      rfl

theorem version?_run {v : Int} {calls : List Call} (hcalls : ∀ call ∈ calls, call.renews uri = false)
    (h : s.version? uri = some v) : ∃ w, (s.run calls).version? uri = some w ∧ v ≤ w := by
  induction calls generalizing s v with
  | nil => exact ⟨v, h, Int.le_refl _⟩
  | cons call calls ih =>
    obtain ⟨hcall, hcalls⟩ := List.forall_mem_cons.mp hcalls
    obtain ⟨u, hu, hle⟩ := version?_perform hcall h
    obtain ⟨w, hw, hle'⟩ := ih hcalls hu
    exact ⟨w, hw, Int.le_trans hle hle'⟩

end runs

/-- **Versions decide, not the order in which changes arrive**: changes that are newer than the open
document lead to the same store in any order, in which the document is that of the newest change and
the others are untouched. In any run of calls a refused one leaves the store, and the version of a
document only grows until it is opened again or closed. -/
theorem changes_in_any_order {s : Store} {uri : String} {v : Int} {cs : List Revision}
    (hopen : s.version? uri = some v) (hnewer : ∀ c ∈ cs, v < c.version)
    (hdistinct : (cs.map (·.version)).Nodup) :
    (∀ ds : List Revision, ds.Perm cs →
      s.run (ds.map (.change uri)) = s.run (cs.map (.change uri)) ∧
      (s.run (ds.map (.change uri))).others uri = s.others uri ∧
      (cs = [] ∨ ∃ c ∈ cs, (∀ d ∈ cs, d.version ≤ c.version) ∧
        Store.entry? (s.run (ds.map (.change uri))) uri = some ⟨c.version, .parse c.text uri⟩)) ∧
    (∀ (t : Store) (calls : List Call) (call : Call),
      ((t.run calls).perform call).1 = .refused → t.run (calls ++ [call]) = t.run calls) ∧
    ∀ (t : Store) (before between : List Call) (key : String) (old : Int),
      (∀ call ∈ between, call.renews key = false) → (t.run before).version? key = some old →
        ∃ new, (t.run (before ++ between)).version? key = some new ∧ old ≤ new := by
  obtain ⟨old, hentry, rfl⟩ := Option.map_eq_some_iff.mp hopen
  refine ⟨fun ds hperm => ?_, fun t calls call hrefused => ?_, ?_⟩
  · have hsame : s.run (ds.map (.change uri)) = s.run (cs.map (.change uri)) := by
      rw [run_change, run_change, foldl_accept_perm uri s hdistinct hperm]
    refine ⟨hsame, by rw [run_change, others_foldl_accept], ?_⟩
    by_cases hcs : cs = []
    · exact .inl hcs
    · right
      rw [hsame, run_change]
      exact entry?_foldl_newest hentry hcs hnewer
  · rw [run, List.foldl_append]
    exact perform_of_refused hrefused
  · intro t before between key old hbetween hold
    rw [run, List.foldl_append]
    exact version?_run hbetween hold

/-- Three changes of one of two documents, the newest in the middle. -/
theorem changes_in_any_order_three :
    let s : Store := ({} : Store).run [.insert "a" ⟨"<a/>", 1⟩, .insert "b" ⟨"<b/>", 7⟩]
    let cs : List Revision := [⟨"<c/>", 3⟩, ⟨"<d/>", 9⟩, ⟨"<e/>", 2⟩]
    s.version? "a" = some 1 ∧
      s.run (cs.reverse.map (.change "a")) = s.run (cs.map (.change "a")) ∧
      (s.run (cs.reverse.map (.change "a"))).others "a" = s.others "a" := by
  intro s cs
  have hopen : s.version? "a" = some 1 := rfl
  have hnewer : ∀ c ∈ cs, 1 < c.version := by decide
  have h := (changes_in_any_order hopen hnewer (by decide)).1 cs.reverse (List.reverse_perm cs)
  exact ⟨hopen, h.1, h.2.1⟩

end XmlAssist.Store

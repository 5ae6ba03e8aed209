import XmlAssist.Proofs.Text.Lines
import XmlAssist.Tree.Document

/-!
# Ranges

Positions are in the order of offsets, and a range that a document gives out for a span leads back to that
span.
-/

namespace XmlAssist

theorem Position.le_iff {p q : Position} : p.le q = true ↔
    p.line < q.line ∨ p.line = q.line ∧ p.character ≤ q.character := by
  simp only [Position.le, Position.compare, Ordering.isLE_then_iff_or, Nat.compare_eq_lt, Nat.compare_eq_eq,
    Nat.isLE_compare]

theorem Position.le_refl (p : Position) : p.le p = true := by
  rw [Position.le_iff]
  exact .inr ⟨rfl, Nat.le_refl _⟩

theorem Position.le_of_lt {p q : Position} (h : p.lt q = true) : p.le q = true := by
  rw [Position.lt_iff] at h
  rw [Position.le_iff]
  omega

namespace Document

variable {d : Document} {range : Range}

theorem positions_of_rangeOf {span : Span} (h : d.rangeOf span = .ok range) :
    d.positionAt span.start = .ok range.start ∧ d.positionAt span.stop = .ok range.stop := by
  unfold Document.rangeOf at h
  cases hstart : d.positionAt span.start with
  | error e => simp [hstart, bind, Except.bind] at h
  | ok p =>
    cases hstop : d.positionAt span.stop with
    | error e => simp [hstart, hstop, bind, Except.bind] at h
    | ok q =>
      simp only [hstart, hstop, bind, Except.bind, pure, Except.pure, Except.ok.injEq] at h
      subst h
      exact ⟨rfl, rfl⟩

theorem le_of_positionAt (hlines : d.lines = LineIndex.ofText d.text) {o o' : Nat} {p q : Position}
    (hp : d.positionAt o = .ok p) (hq : d.positionAt o' = .ok q) (hle : o ≤ o') : p.le q = true := by
  unfold Document.positionAt at hp hq
  rw [hlines] at hp hq
  rcases Nat.lt_or_eq_of_le hle with hlt | rfl
  · exact Position.le_of_lt ((LineIndex.positionAt_eq_ok_iff.mp hp).lt (LineIndex.positionAt_eq_ok_iff.mp hq) hlt)
  · rw [hp] at hq
    obtain rfl := Except.ok.inj hq
    exact Position.le_refl p

variable {text uri : String} {sp : Span}

theorem offsetAt_of_positionAt {o : Nat} {p : Position} (h : (parse text uri).positionAt o = .ok p) :
    (parse text uri).offsetAt p = .ok o :=
  LineIndex.offsetAt_eq_ok_iff.mpr (LineIndex.positionAt_eq_ok_iff.mp h)

theorem spanOf_of_rangeOf (h : (parse text uri).rangeOf sp = .ok range) : (parse text uri).spanOf range = .ok sp := by
  obtain ⟨hstart, hstop⟩ := positions_of_rangeOf h
  rw [spanOf, offsetAt_of_positionAt hstart, offsetAt_of_positionAt hstop]
  rfl

end Document

end XmlAssist

import XmlAssist.Proofs.Lexer.Elsewhere
import XmlAssist.Proofs.Lexer.Restart

/-!
# From token to token

`Leads s x l y` says that the lexer reads the tokens `l` of `s` on its way from `x` to `y`. What is
read over a stretch of one text is read over the same stretch of another text (`Leads.stretch`).
-/

namespace XmlAssist

def Token.shift (i i' : Nat) (t : Token) : Token :=
  { t with start := Text.shift i i' t.start, stop := Text.shift i i' t.stop }

namespace Lexer

open Text (Stretch shift isBoundary size)

/-- The lexer gets from `x` to `y` by the tokens `l`, each with the lexer behind it. -/
inductive Leads (s : String) : Lexer → List (Token × Lexer) → Lexer → Prop where
  | here (x : Lexer) : Leads s x [] x
  | next {x y : Lexer} {l : List (Token × Lexer)} (lt : x.pos < size s)
      (rest : Leads s (x.step s).2 l y) : Leads s x (x.step s :: l) y

variable {s s' : String} {x y z : Lexer} {l l' : List (Token × Lexer)} {t : Token} {i i' n : Nat}

namespace Leads

theorem one (h : x.pos < size s) : Leads s x [x.step s] (x.step s).2 := .next h (.here _)

theorem append (h : Leads s x l y) (h' : Leads s y l' z) : Leads s x (l ++ l') z := by
  induction h with
  | here => exact h'
  | next hlt _ ih => exact .next hlt (ih h')

theorem of_append (h : Leads s x (l ++ l') z) : ∃ y, Leads s x l y ∧ Leads s y l' z := by
  induction l generalizing x with
  | nil => exact ⟨x, .here x, h⟩
  | cons p l ih =>
    cases h with
    | next hlt hrest =>
      obtain ⟨y, hy, hz⟩ := ih hrest
      exact ⟨y, .next hlt hy, hz⟩

theorem boundary (h : Leads s x l y) (hx : isBoundary s x.pos = true) : isBoundary s y.pos = true := by
  induction h with
  | here => exact hx
  | next hlt _ ih =>
    refine ih ?_
    rw [step_eq_lex hx hlt]
    exact (moves_lex hx hlt).ahead.2

theorem pos_lt_step (hx : isBoundary s x.pos = true) (hlt : x.pos < size s) :
    x.pos < (x.step s).2.pos := by
  rw [step_eq_lex hx hlt]
  exact (moves_lex hx hlt).ahead.1

theorem boundary_step (hx : isBoundary s x.pos = true) (hlt : x.pos < size s) :
    isBoundary s (x.step s).2.pos = true := (one hlt).boundary hx

theorem pos_le (h : Leads s x l y) (hx : isBoundary s x.pos = true) : x.pos ≤ y.pos := by
  induction h with
  | here => exact Nat.le_refl _
  | next hlt _ ih =>
    exact Nat.le_trans (Nat.le_of_lt (pos_lt_step hx hlt)) (ih (boundary_step hx hlt))

theorem tokens_eq (h : Leads s x l y) (hx : isBoundary s x.pos = true) :
    x.tokens s = l ++ y.tokens s := by
  induction h with
  | here => rfl
  | @next x y l hlt _ ih =>
    have hkind : (x.step s).1.kind ≠ .eos := by
      rw [step_eq_lex hx hlt]
      exact (moves_lex hx hlt).kind
    rw [tokens_cons hkind, ih (boundary_step hx hlt), List.cons_append]

theorem exists_end (s : String) (x : Lexer) (hx : isBoundary s x.pos = true) :
    ∃ y, Leads s x (x.tokens s) y ∧ y.pos = size s := by
  rcases Nat.lt_or_ge x.pos (size s) with hlt | hge
  · have hahead := pos_lt_step hx hlt
    obtain ⟨y, hy, hpos⟩ := exists_end s (x.step s).2 (boundary_step hx hlt)
    have htokens := (one hlt).tokens_eq hx
    exact ⟨y, htokens ▸ .next hlt hy, hpos⟩
  · rw [tokens_at_end hge]
    exact ⟨x, .here x, Nat.le_antisymm (Text.le_size_of_isBoundary hx) hge⟩
termination_by size s - x.pos
decreasing_by omega

theorem exists_of_mem (hx : isBoundary s x.pos = true) {p : Token × Lexer} (hp : p ∈ x.tokens s) :
    ∃ l y, Leads s x l y ∧ y.pos < size s ∧ y.step s = p := by
  obtain ⟨z, hz, -⟩ := exists_end s x hx
  obtain ⟨l, l', hsplit⟩ := List.append_of_mem hp
  rw [hsplit] at hz
  obtain ⟨y, hy, hrest⟩ := hz.of_append
  cases hrest with
  | next hlt _ => exact ⟨l, y, hy, hlt, rfl⟩

theorem split (h : Leads s x l y) (h' : Leads s x l' z) (hx : isBoundary s x.pos = true)
    (hle : y.pos ≤ z.pos) : ∃ r, l' = l ++ r ∧ Leads s y r z := by
  induction h generalizing l' with
  | here => exact ⟨l', rfl, h'⟩
  | @next x y l hlt hrest ih =>
    have hahead := pos_lt_step hx hlt
    have hnext := boundary_step hx hlt
    cases h' with
    | here =>
      have := hrest.pos_le hnext
      omega
    | next _ hrest' =>
      obtain ⟨r, rfl, hr⟩ := ih hrest' hnext hle
      exact ⟨r, rfl, hr⟩

theorem start_step (hx : isBoundary s x.pos = true) (hlt : x.pos < size s) :
    (x.step s).1.start = x.pos := by
  rw [step_eq_lex hx hlt]

theorem stop_step (hx : isBoundary s x.pos = true) (hlt : x.pos < size s) :
    (x.step s).1.stop = (x.step s).2.pos := by
  rw [step_eq_lex hx hlt]

theorem bounds (h : Leads s x l y) (hx : isBoundary s x.pos = true) {p : Token × Lexer} (hp : p ∈ l) :
    x.pos ≤ p.1.start ∧ p.1.start < p.1.stop ∧ p.1.stop ≤ y.pos ∧ p.1.stop = p.2.pos := by
  induction h with
  | here => cases hp
  | @next x y l hlt hrest ih =>
    have hahead := pos_lt_step hx hlt
    have hnext := boundary_step hx hlt
    have hstart := start_step hx hlt
    have hstop := stop_step hx hlt
    have hle := hrest.pos_le hnext
    rcases List.mem_cons.mp hp with rfl | hp
    · omega
    · have := ih hnext hp
      omega

end Leads

/-! ## The same tokens in another text -/

/-- The XML declaration is possible at both places or at none. -/
def SameStart (i i' : Nat) (x : Lexer) : Prop :=
  x.mode = .afterInstructionOpen → (x.pos = 2 ↔ shift i i' x.pos = 2)

/-- The token and the lexer behind it, where they are in the other text. -/
def shiftRead (i i' : Nat) (p : Token × Lexer) : Token × Lexer :=
  (p.1.shift i i', p.2.goTo (shift i i' p.2.pos))

theorem step_stretch (m : Stretch s i s' i' n) (hx : isBoundary s x.pos = true) (hlt : x.pos < size s)
    (hle : i ≤ x.pos) (hin : x.pos < i + n) (hstart : SameStart i i' x)
    (h : x.mode.looksFar = true → StopsIn s i s' i' n (x.step s).2.pos) :
    (x.goTo (shift i i' x.pos)).step s' = shiftRead i i' (x.step s) := by
  have m' := m.drop (k := x.pos - i) (by omega)
  have hshift {j : Nat} (hj : x.pos ≤ j) :
      shift x.pos (i' + (x.pos - i)) j = shift i i' j := by
    simp only [shift]
    omega
  rw [show i + (x.pos - i) = x.pos by omega] at m'
  have hahead := Leads.pos_lt_step hx hlt
  have hstep := step_eq_lex hx hlt
  have hlex : lex s' (x.goTo (i' + (x.pos - i))) = (lex s x).shift x.pos (i' + (x.pos - i)) := by
    refine lex_stretch m' (by omega) hstart fun hfar => ?_
    have hstop := h hfar
    have hpos : (x.step s).2.pos = (lex s x).lexer.pos := by rw [hstep]
    rw [hpos] at hstop
    have hend : x.pos + (n - (x.pos - i)) = i + n := by omega
    have hend' : i' + (x.pos - i) + (n - (x.pos - i)) = i' + n := by omega
    exact ⟨hend ▸ hstop.le, by rw [hend, hend']; exact hstop.last⟩
  rw [hstep] at hahead
  have hahead' : x.pos < (lex s x).lexer.pos := hahead
  have hpos : (lex s' (x.goTo (i' + (x.pos - i)))).lexer.pos = shift i i' (lex s x).lexer.pos := by
    rw [hlex, ← hshift (Nat.le_of_lt hahead')]
    rfl
  have hmoves : ¬ ((lex s' (x.goTo (i' + (x.pos - i)))).kind ≠ .eos ∧
      (lex s' (x.goTo (i' + (x.pos - i)))).lexer.pos ≤ (x.goTo (i' + (x.pos - i))).pos) := by
    rw [hpos, goTo_pos, shift]
    omega
  show (x.goTo (i' + (x.pos - i))).step s' = _
  rw [step, if_neg hmoves, hpos, hlex, hstep]
  simp only [shiftRead, Token.shift, Lexed.shift, goTo_pos, hshift (Nat.le_of_lt hahead')]
  rfl

/-- What is read over a stretch of one text is read over the same stretch of another text. -/
theorem Leads.stretch (h : Leads s x l y) (m : Stretch s i s' i' n) (hx : isBoundary s x.pos = true)
    (hle : i ≤ x.pos) (hy : StopsIn s i s' i' n y.pos) (hbase : i = i' ∨ (2 ≤ i ∧ 2 ≤ i'))
    (hstart : SameStart i i' x) :
    Leads s' (x.goTo (shift i i' x.pos)) (l.map (shiftRead i i')) (y.goTo (shift i i' y.pos)) := by
  induction h with
  | here => exact .here _
  | @next x y l hlt hrest ih =>
    have hahead := pos_lt_step hx hlt
    have hnext := boundary_step hx hlt
    have hstop := hrest.pos_le hnext
    have hin : StopsIn s i s' i' n (x.step s).2.pos := by
      refine ⟨Nat.le_trans hstop hy.le, ?_⟩
      exact hy.last.imp_left fun hlast => Nat.lt_of_le_of_lt hstop hlast
    have hltn : x.pos < i + n := Nat.lt_of_lt_of_le hahead hin.le
    have hstep := step_stretch m hx hlt hle hltn hstart fun _ => hin
    have hlt' : (x.goTo (shift i i' x.pos)).pos < size s' := by
      obtain ⟨b, hb⟩ := m.symm.exists_byte? (k := x.pos - i) (by omega)
      exact Text.lt_size_of_byte? hb
    have hstart' : SameStart i i' (x.step s).2 := by
      intro _
      simp only [shift]
      omega
    have hrest' := ih hnext (by omega) hy hstart'
    rw [List.map_cons, ← hstep]
    refine .next hlt' ?_
    rw [hstep]
    exact hrest'

end Lexer

end XmlAssist

/-!
# Punycode

The ASCII form of a label that holds other characters. Its ASCII characters come first. Behind them
the others follow by rising code point, each as the number of steps from the one before, where a
step goes to the next place of the label, and from its end to the next code point. These numbers are
written in digits whose base depends on a bias, which adapts to the numbers seen.
-/

namespace XmlAssist.Uri.Punycode

/-- The digit with a value below 36. -/
def digit (n : Nat) : Char := if n < 26 then Char.ofNat (97 + n) else Char.ofNat (22 + n)

/-- The least value that does not end a number at the digit `k`; digits count in steps of 36. -/
def threshold (bias k : Nat) : Nat := if k ≤ bias then 1 else if bias + 26 ≤ k then 26 else k - bias

theorem threshold_pos (bias k : Nat) : 0 < threshold bias k := by
  unfold threshold
  split
  · omega
  · split <;> omega

/-- A number as digits, the lowest first, from the digit `k` on. -/
def digits (bias k n : Nat) : List Char :=
  let t := threshold bias k
  if n < t then [digit n]
  else digit (t + (n - t) % (36 - t)) :: digits bias (k + 36) ((n - t) / (36 - t))
termination_by n
decreasing_by
  have hpos := threshold_pos bias k
  exact Nat.lt_of_le_of_lt (Nat.div_le_self _ _) (by omega)

/-- Divides by 35 until at most 455 is left, each time adding 36 to `k`. -/
def scale (delta k : Nat) : Nat × Nat := if 455 < delta then scale (delta / 35) (k + 36) else (delta, k)
termination_by delta
decreasing_by exact Nat.div_lt_self (by omega) (by omega)

/-- The bias after a number, which was the first or not, with `count` characters written. -/
def adapt (delta count : Nat) (first : Bool) : Nat :=
  let delta := if first then delta / 700 else delta / 2
  let (delta, k) := scale (delta + delta / count) 0
  k + 36 * delta / (delta + 38)

/-- What is known between two characters of a label. -/
structure State where
  out : List Char := []
  /-- The steps since the last character that was written. -/
  delta : Nat := 0
  bias : Nat := 72
  /-- The number of characters that are written. -/
  count : Nat
deriving Repr, Inhabited

/-- Passes over a character of the label: one of a lower code point is a step, one of the code point
`m` is written. -/
def State.step (basic m : Nat) (x : State) (c : Char) : State :=
  if c.toNat < m then { x with delta := x.delta + 1 }
  else if c.toNat = m then
    { out := x.out ++ digits x.bias 36 x.delta, delta := 0
      bias := adapt x.delta (x.count + 1) (x.count == basic), count := x.count + 1 }
  else x

/-- Passes over the label once for each code point, of which the last one was below `n`. -/
def State.run (label : List Char) (basic : Nat) (x : State) (n : Nat) : List Nat → State
  | [] => x
  | m :: rest =>
    let x := label.foldl (State.step basic m) { x with delta := x.delta + (m - n) * (x.count + 1) }
    State.run label basic { x with delta := x.delta + 1 } (m + 1) rest

/-- The ASCII form of a label, without the mark that says so. -/
def encode (label : List Char) : List Char :=
  let basic := label.filter (·.toNat < 0x80)
  let others := ((label.map Char.toNat).filter (0x80 ≤ ·)).eraseDups.mergeSort (· ≤ ·)
  basic ++ (if basic.isEmpty then [] else ['-']) ++
    (State.run label basic.length { count := basic.length } 0x80 others).out

end XmlAssist.Uri.Punycode

/-!
# Text by byte offsets

A text is a `String`; a place in it is a byte offset. This module reads single bytes, cuts slices
whose ends are character boundaries, and moves an offset over runs of bytes or up to a literal.
-/

namespace XmlAssist.Text

/-- The number of bytes of `s`. -/
abbrev size (s : String) : Nat := s.utf8ByteSize

/-- The byte at offset `i`, if the text reaches that far. -/
def byte? (s : String) (i : Nat) : Option UInt8 :=
  if h : i < s.utf8ByteSize then some (s.getUTF8Byte ⟨i⟩ h) else none

/-- A character of `s` starts at offset `i`, or the text ends there. -/
def isBoundary (s : String) (i : Nat) : Bool := String.Pos.Raw.isValid s ⟨i⟩

/-- The text from offset `i` up to offset `j`; `none` unless both are character boundaries of `s`
and in order. -/
def slice? (s : String) (i j : Nat) : Option String :=
  match s.pos? ⟨i⟩, s.pos? ⟨j⟩ with
  | some p, some q => if i ≤ j then some (String.extract p q) else none
  | _, _ => none

/-- The text from offset `i` up to offset `j`, empty where `slice?` has none. -/
def slice (s : String) (i j : Nat) : String := (slice? s i j).getD ""

/-- A byte that continues a character of several bytes. -/
def isContinuation (b : UInt8) : Bool := 0x80 ≤ b && b < 0xC0

/-- The first offset from `i` on whose byte fails `p`, at most the end of the text. -/
def skipWhile (p : UInt8 → Bool) (s : String) (i : Nat) : Nat :=
  if h : i < s.utf8ByteSize then
    if p (s.getUTF8Byte ⟨i⟩ h) then skipWhile p s (i + 1) else i
  else i
termination_by s.utf8ByteSize - i

/-- The first offset from `i` on whose byte satisfies `p`, or the end of the text. -/
def skipUntil (p : UInt8 → Bool) (s : String) (i : Nat) : Nat := skipWhile (!p ·) s i

/-- The bytes `lit` stand at offset `i`. -/
def startsAt (s : String) (i : Nat) : List UInt8 → Bool
  | [] => true
  | b :: lit => byte? s i == some b && startsAt s (i + 1) lit

/-- The first offset from `i` on at which the bytes `lit` stand. -/
def find? (lit : List UInt8) (s : String) (i : Nat) : Option Nat :=
  if startsAt s i lit then some i
  else if i < s.utf8ByteSize then find? lit s (i + 1)
  else none
termination_by s.utf8ByteSize - i

/-- The bytes of a literal. -/
def bytesOf (lit : String) : List UInt8 := lit.toUTF8.data.toList

/-- The offset after the character at `i`; inside a character, the next byte. -/
def nextChar (s : String) (i : Nat) : Nat :=
  if isBoundary s i then skipWhile isContinuation s (i + 1) else min (i + 1) s.utf8ByteSize

theorem le_skipWhile (p : UInt8 → Bool) (s : String) (i : Nat) : i ≤ skipWhile p s i := by
  fun_induction skipWhile p s i with
  | case1 i h hp ih => exact Nat.le_trans (Nat.le_succ i) ih
  | case2 => exact Nat.le_refl _
  | case3 => exact Nat.le_refl _

theorem skipWhile_le (p : UInt8 → Bool) (s : String) (i : Nat) (h : i ≤ size s) :
    skipWhile p s i ≤ size s := by
  fun_induction skipWhile p s i with
  | case1 i hi hp ih => exact ih hi
  | case2 => exact h
  | case3 => exact h

theorem lt_nextChar (s : String) (i : Nat) (h : i < size s) : i < nextChar s i := by
  unfold nextChar
  split
  · exact le_skipWhile isContinuation s (i + 1)
  · have : i + 1 ≤ s.utf8ByteSize := h
    omega

end XmlAssist.Text

import XmlAssist.Text.Quoted

/-!
# Glob patterns

Patterns for addresses. `*`, `?` and `[…]` stay within one segment of a path; only `**`, which must
be a whole segment, goes over slashes.
-/

namespace XmlAssist

namespace Glob

/-- One character or a range of characters in brackets. -/
inductive Member where
  | char (c : Char)
  | range (first last : Char)
deriving DecidableEq, Repr, Inhabited

/-- A part of a pattern. -/
inductive Part where
  | char (c : Char)
  | any
  | within (members : List Member)
  | except (members : List Member)
  | run
  | runAcross
deriving DecidableEq, Repr, Inhabited

/-- The members that stand between brackets. -/
def members : List Char → List Member
  | a :: '-' :: b :: rest => .range a b :: members rest
  | c :: rest => .char c :: members rest
  | [] => []

/-- The character is one of the members. -/
def Member.holds (c : Char) : Member → Bool
  | .char d => c == d
  | .range first last => first ≤ c && c ≤ last

/-- The text up to the closing bracket, of which the first character belongs to the text in any
case, and the text behind the bracket. -/
def bracket? : List Char → Option (List Char × List Char)
  | [] => none
  | c :: rest => (Text.splitAtFirst ']' rest).map fun (inside, behind) => (c :: inside, behind)

theorem splitAtFirst_length {sep : Char} {cs a b : List Char}
    (h : Text.splitAtFirst sep cs = some (a, b)) : b.length < cs.length := by
  induction cs generalizing a with
  | nil => simp [Text.splitAtFirst] at h
  | cons c cs ih =>
    simp only [Text.splitAtFirst] at h
    split at h
    · simp only [Option.some.injEq, Prod.mk.injEq] at h
      simp [← h.2]
    · obtain ⟨⟨x, y⟩, hx, he⟩ := Option.map_eq_some_iff.1 h
      simp only [Prod.mk.injEq] at he
      have := ih (he.2 ▸ hx)
      simp only [List.length_cons]
      omega

theorem bracket?_length {cs a b : List Char} (h : bracket? cs = some (a, b)) :
    b.length < cs.length := by
  cases cs with
  | nil => simp [bracket?] at h
  | cons c rest =>
    obtain ⟨⟨x, y⟩, hx, he⟩ := Option.map_eq_some_iff.1 h
    simp only [Prod.mk.injEq] at he
    have := splitAtFirst_length hx
    simp only [List.length_cons, ← he.2]
    omega

/-- The parts so far, last one first, with `**` behind them; behind another `**` it adds nothing. -/
def pushAcross (parts : List Part) : List Part :=
  match parts with
  | .runAcross :: _ :: _ => parts
  | _ => .runAcross :: parts

/-- The parts of a pattern behind those so far, which are given last one first; `before` is the
character before the rest of the pattern. -/
def parseFrom (parts : List Part) (before : Option Char) : List Char → Option (List Part)
  | [] => some parts.reverse
  | '?' :: rest => parseFrom (.any :: parts) (some '?') rest
  | '*' :: '*' :: '*' :: _ => none
  | '*' :: '*' :: rest =>
    if before.isNone || before == some '/' then
      match rest with
      | [] => some (pushAcross parts).reverse
      | '/' :: behind => parseFrom (pushAcross parts) (some '/') behind
      | _ => none
    else none
  | '*' :: rest => parseFrom (.run :: parts) (some '*') rest
  | '[' :: '!' :: rest =>
    match _h : bracket? rest with
    | some (inside, behind) => parseFrom (.except (members inside) :: parts) (some ']') behind
    | none => none
  | '[' :: rest =>
    match _h : bracket? rest with
    | some (inside, behind) => parseFrom (.within (members inside) :: parts) (some ']') behind
    | none => none
  | c :: rest => parseFrom (.char c :: parts) (some c) rest
termination_by cs => cs.length
decreasing_by
  all_goals simp only [List.length_cons]
  all_goals first | omega | exact Nat.lt_add_right 1 (Nat.lt_of_lt_of_le (bracket?_length _h) (by omega))

/-- The parts of a pattern, if it is one. -/
def parse? (pattern : String) : Option (List Part) := parseFrom [] none pattern.toList

/-- How matching a text ends; a text that is too short cannot match in any other way. -/
inductive Outcome where
  | matched
  | mismatch
  | exhausted
deriving DecidableEq, Repr, Inhabited

/-- A run of characters, then what `rest` says about the text behind it. A run across slashes ends
behind a slash or at the end, any other before a slash. -/
def matchRun (across : Bool) (rest : List Char → Outcome) : List Char → Outcome
  | [] => rest []
  | c :: cs =>
    let slash := c == '/'
    if across && !slash then matchRun across rest cs
    else if !across && slash then .mismatch
    else match rest cs with
      | .mismatch => matchRun across rest cs
      | outcome => outcome

/-- One character fits a part. -/
def Part.fits (c : Char) : Part → Bool
  | .char d => c == d
  | .any => c != '/'
  | .within ms => c != '/' && ms.any (·.holds c)
  | .except ms => c != '/' && !ms.any (·.holds c)
  | .run | .runAcross => false

/-- How the parts match a text. -/
def matchParts : List Part → List Char → Outcome
  | [], cs => if cs.isEmpty then .matched else .mismatch
  | .run :: parts, cs =>
    match matchParts parts cs with
    | .mismatch => matchRun false (matchParts parts) cs
    | outcome => outcome
  | .runAcross :: parts, cs =>
    match matchParts parts cs with
    | .mismatch => matchRun true (matchParts parts) cs
    | outcome => outcome
  | part :: parts, cs =>
    match cs with
    | [] => .exhausted
    | c :: rest => if part.fits c then matchParts parts rest else .mismatch

/-- The parts match the whole text. -/
def fits (parts : List Part) (text : String) : Bool := matchParts parts text.toList == .matched

end Glob

end XmlAssist

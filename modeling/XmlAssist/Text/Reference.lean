/-!
# Character and entity references

The text that `&name;`, `&#decimal;` and `&#xhex;` stand for. Only the five predefined entities
are known; a text with any other, or with a broken reference, has no decoded form.
-/

namespace XmlAssist.Text.Reference

/-- The character of a predefined entity. -/
def entity? : List Char → Option Char
  | ['l', 't'] => some '<'
  | ['g', 't'] => some '>'
  | ['a', 'm', 'p'] => some '&'
  | ['a', 'p', 'o', 's'] => some '\''
  | ['q', 'u', 'o', 't'] => some '"'
  | _ => none

/-- The value of a digit in a base of at most sixteen. -/
def digit? (base : Nat) (c : Char) : Option Nat :=
  let n := c.toNat
  let value :=
    if 48 ≤ n && n ≤ 57 then n - 48
    else if 97 ≤ n && n ≤ 102 then n - 87
    else if 65 ≤ n && n ≤ 70 then n - 55
    else base
  if value < base then some value else none

/-- The number that the digits write, if there are any and all of them are digits. -/
def number? (base : Nat) (cs : List Char) : Option Nat :=
  if cs.isEmpty then none
  else cs.foldl (fun acc c => return (← acc) * base + (← digit? base c)) (some 0)

/-- The character with a code point; surrogates, zero and numbers behind the last plane have none. -/
def char? (n : Nat) : Option Char :=
  if h : n.isValidChar then if n = 0 then none else some (Char.ofNatAux n h) else none

/-- What the text between `&` and `;` stands for. -/
def resolve? : List Char → Option Char
  | '#' :: 'x' :: digits => (number? 16 digits).bind char?
  | '#' :: digits => (number? 10 digits).bind char?
  | name => entity? name

/-- The characters up to the next `;`, and those behind it; none if `&` or the end comes first. -/
def body? : List Char → Option (List Char × List Char)
  | [] => none
  | c :: cs =>
    if c = ';' then some ([], cs)
    else if c = '&' then none
    else (body? cs).map fun (body, rest) => (c :: body, rest)

theorem body?_length {cs body rest : List Char} (h : body? cs = some (body, rest)) :
    rest.length < cs.length := by
  induction cs generalizing body with
  | nil => simp [body?] at h
  | cons c cs ih =>
    simp only [body?] at h
    split at h
    · simp only [Option.some.injEq, Prod.mk.injEq] at h
      simp [← h.2]
    · split at h
      · simp at h
      · obtain ⟨⟨b, r⟩, hb, he⟩ := Option.map_eq_some_iff.1 h
        simp only [Prod.mk.injEq] at he
        have := ih (he.2 ▸ hb)
        simp only [List.length_cons]
        omega

/-- The characters with every reference replaced, if all of them can be. -/
def decodeList? : List Char → Option (List Char)
  | [] => some []
  | c :: cs =>
    if c = '&' then
      match _h : body? cs with
      | none => none
      | some (body, rest) =>
        match resolve? body with
        | none => none
        | some d => (decodeList? rest).map (d :: ·)
    else (decodeList? cs).map (c :: ·)
termination_by cs => cs.length
decreasing_by
  · have := body?_length _h
    simp only [List.length_cons]
    omega
  · simp

/-- The text with every reference replaced, if all of them can be. -/
def decode? (s : String) : Option String := (decodeList? s.toList).map String.ofList

end XmlAssist.Text.Reference

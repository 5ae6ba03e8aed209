import XmlAssist.Text.Quoted
import XmlAssist.Uri.Percent
import XmlAssist.Uri.Punycode

/-!
# Hosts

The written form of the host of a URI: a domain name in lower case, an IPv4 address in four decimal
parts, an IPv6 address in brackets with its longest run of zeros left out. Labels of a domain that
are not ASCII are written in Punycode.
-/

namespace XmlAssist.Uri.Host

/-- The characters that no domain name may hold. -/
def isForbidden (c : Char) : Bool :=
  c.toNat ≤ 0x20 || c.toNat == 0x7F || c == '%' || c == '#' || c == '/' || c == ':' || c == '<' ||
    c == '>' || c == '?' || c == '@' || c == '[' || c == '\\' || c == ']' || c == '^' || c == '|'

/-- The characters that the host of a scheme without rules for hosts may not hold. -/
def isForbiddenVerbatim (c : Char) : Bool :=
  c.toNat == 0 || c == '\t' || c == '\n' || c == '\r' || c == ' ' || c == '#' || c == '/' ||
    c == ':' || c == '<' || c == '>' || c == '?' || c == '@' || c == '[' || c == '\\' || c == ']' ||
    c == '^' || c == '|'

/-! ## IPv4 -/

/-- The number that the digits write in a base, if all of them are digits of it. -/
def digits? (base : Nat) (cs : List Char) : Option Nat :=
  cs.foldl (fun acc c => do
    let n ← acc
    let d ← hexValue? c
    if d < base then some (n * base + d) else none) (some 0)

/-- The value of a part of an IPv4 address: hexadecimal behind `0x`, octal behind `0`, else decimal. -/
def ipv4Number? : List Char → Option Nat
  | [] => none
  | '0' :: 'x' :: rest | '0' :: 'X' :: rest => digits? 16 rest
  | '0' :: c :: rest => digits? 8 (c :: rest)
  | cs => digits? 10 cs

/-- The labels of a domain, without an empty one at the end. -/
def labels (domain : List Char) : List (List Char) :=
  let parts := Text.pieces '.' domain
  if parts.length > 1 && parts.getLast? == some [] then parts.dropLast else parts

/-- The last label is a number, so that the domain can only be an IPv4 address. -/
def endsInNumber (domain : List Char) : Bool :=
  match (labels domain).getLast? with
  | some last => (!last.isEmpty && last.all Char.isDigit) ||
      match last with
      | '0' :: 'x' :: rest | '0' :: 'X' :: rest => (digits? 16 rest).isSome
      | _ => false
  | none => false

/-- The address of the numbers of its parts: all but the last are bytes, the last fills the rest. -/
def ipv4Value? (parts : List Nat) : Option Nat :=
  match parts.getLast? with
  | none => none
  | some last =>
    let lead := parts.dropLast
    if 4 < parts.length || lead.any (255 < ·) || Nat.pow 256 (5 - parts.length) ≤ last then none
    else
      some (lead.zipIdx.foldl (fun value (n, i) => value + n * Nat.pow 256 (3 - i)) last)

/-- The written form of an IPv4 address. -/
def ipv4? (domain : List Char) : Option (List Char) := do
  let parts ← (labels domain).mapM ipv4Number?
  let n ← ipv4Value? parts
  return s!"{n / 16777216}.{n / 65536 % 256}.{n / 256 % 256}.{n % 256}".toList

/-! ## IPv6 -/

/-- The pieces of an IPv6 address between colons: each up to four hexadecimal digits; the last may
be an IPv4 address in four decimal parts, which counts as two. -/
def ipv6Pieces? : List (List Char) → Option (List Nat)
  | [] => some []
  | [last] =>
    if last.contains '.' then do
      let parts := Text.pieces '.' last
      let valid := parts.length == 4 && parts.all fun p =>
        !p.isEmpty && p.length ≤ 3 && p.all Char.isDigit && (p.length == 1 || p.head? != some '0')
      if !valid then none
      let ns ← parts.mapM (digits? 10)
      match ns with
      | [a, b, c, d] => if ns.all (· ≤ 255) then some [a * 256 + b, c * 256 + d] else none
      | _ => none
    else if last.isEmpty || 4 < last.length then none
    else (digits? 16 last).map ([·])
  | piece :: rest =>
    if piece.isEmpty || 4 < piece.length then none
    else do return (← digits? 16 piece) :: (← ipv6Pieces? rest)

/-- The pieces of a part of an address beside `::`, which may be empty. -/
def ipv6Part? (cs : List Char) : Option (List Nat) :=
  if cs.isEmpty then some [] else ipv6Pieces? (Text.pieces ':' cs)

/-- The characters before and behind the first `::`. -/
def splitDoubleColon : List Char → Option (List Char × List Char)
  | ':' :: ':' :: rest => some ([], rest)
  | c :: rest => (splitDoubleColon rest).map fun (a, b) => (c :: a, b)
  | [] => none

/-- The eight pieces of an IPv6 address. -/
def ipv6Value? (cs : List Char) : Option (List Nat) :=
  match splitDoubleColon cs with
  | none => do
    let ps ← ipv6Part? cs
    if ps.length == 8 then some ps else none
  | some (before, behind) => do
    let a ← if before.contains '.' then none else ipv6Part? before
    let b ← ipv6Part? behind
    if a.length + b.length ≤ 7 then some (a ++ List.replicate (8 - a.length - b.length) 0 ++ b)
    else none

/-- The length of the run of zeros at the start. -/
def zeroRun (ps : List Nat) : Nat := (ps.takeWhile (· == 0)).length

/-- The start and the length of the first longest run of at least two zeros. -/
def longestZeros (ps : List Nat) : Option (Nat × Nat) :=
  (List.range ps.length).foldl (fun best i =>
    let n := zeroRun (ps.drop i)
    match best with
    | some (_, m) => if m < n then some (i, n) else best
    | none => if 2 ≤ n then some (i, n) else none) none

/-- The lowercase hexadecimal digits of a number. -/
def hexText (n : Nat) : List Char := Nat.toDigits 16 n

/-- Pieces with colons between them. -/
def joinPieces (ps : List Nat) : List Char := (ps.map hexText).intersperse [':'] |>.flatten

/-- The written form of an IPv6 address. -/
def ipv6? (cs : List Char) : Option (List Char) := do
  let ps ← ipv6Value? cs
  let inside := match longestZeros ps with
    | some (i, n) => joinPieces (ps.take i) ++ [':', ':'] ++ joinPieces (ps.drop (i + n))
    | none => joinPieces ps
  return ['['] ++ inside ++ [']']

/-! ## Domains -/

/-- The lower case of a letter of the Latin, Greek and Cyrillic blocks. -/
def lower (c : Char) : Char :=
  let n := c.toNat
  if n < 0x80 then c.toLower
  else if (0xC0 ≤ n && n ≤ 0xDE && n != 0xD7) || (0x391 ≤ n && n ≤ 0x3A9) || (0x410 ≤ n && n ≤ 0x42F) then
    Char.ofNat (n + 32)
  else if 0x400 ≤ n && n ≤ 0x40F then Char.ofNat (n + 80)
  else if ((0x100 ≤ n && n ≤ 0x137) || (0x14A ≤ n && n ≤ 0x177)) && n % 2 == 0 then Char.ofNat (n + 1)
  else if ((0x139 ≤ n && n ≤ 0x148) || (0x179 ≤ n && n ≤ 0x17E)) && n % 2 == 1 then Char.ofNat (n + 1)
  else c

/-- The ASCII form of a label. -/
def asciiLabel (label : List Char) : List Char :=
  if label.all (·.toNat < 0x80) then label else "xn--".toList ++ Punycode.encode label

/-- The ASCII form of a domain name. Of the processing of international names (UTS #46) it has the
ideographic full stop and the letters of `lower`, but not the rest of the mapping, the normalisation
or the check of labels that come in Punycode. -/
def domain? (cs : List Char) : Option (List Char) := do
  let s ← decode? cs
  let lowered := s.toList.map fun c => if c.toNat == 0x3002 then '.' else lower c
  let ascii := ((Text.pieces '.' lowered).map asciiLabel).intersperse ['.'] |>.flatten
  if ascii.isEmpty || ascii.any isForbidden then none else some ascii

/-- The host of a special scheme. -/
def special? (cs : List Char) : Option (List Char) :=
  match cs with
  | '[' :: rest => if rest.getLast? == some ']' then ipv6? rest.dropLast else none
  | _ => do
    let domain ← domain? cs
    if endsInNumber domain then ipv4? domain else some domain

/-- The host of any other scheme. -/
def verbatim? (cs : List Char) : Option (List Char) :=
  match cs with
  | '[' :: rest => if rest.getLast? == some ']' then ipv6? rest.dropLast else none
  | _ => if cs.any isForbiddenVerbatim then none else some (encode controlSet cs)

end XmlAssist.Uri.Host

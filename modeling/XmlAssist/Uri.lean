import XmlAssist.Uri.Host

/-!
# URIs

A URI in parts, its written form, and its reading: absolute, or relative to a base. Paths of the
schemes with a known meaning are read leniently, as browsers do: backslashes separate segments,
`.` and `..` are resolved, and characters that may not stand in a part are encoded.
-/

namespace XmlAssist

namespace Uri

/-- The path of a URI: segments, or a text without structure. -/
inductive Path where
  | segments (parts : List (List Char))
  | verbatim (text : List Char)
deriving DecidableEq, Repr, Inhabited

/-- Who is addressed. -/
structure Authority where
  user : List Char := []
  password : List Char := []
  host : List Char := []
  port : Option Nat := none
deriving DecidableEq, Repr, Inhabited

/-- How a scheme is read. -/
inductive SchemeKind where
  | file
  | web
  | other
deriving DecidableEq, Repr, Inhabited

/-- The schemes with rules of their own. -/
def SchemeKind.of (scheme : List Char) : SchemeKind :=
  let s := String.ofList scheme
  if s = "file" then .file
  else if ["http", "https", "ws", "wss", "ftp"].contains s then .web
  else .other

/-- Files and the web are read leniently. -/
def SchemeKind.isSpecial (k : SchemeKind) : Bool := k != .other

/-- The port that need not be written. -/
def defaultPort? (scheme : List Char) : Option Nat :=
  match String.ofList scheme with
  | "http" | "ws" => some 80
  | "https" | "wss" => some 443
  | "ftp" => some 21
  | _ => none

end Uri

/-- A URI. -/
structure Uri where
  scheme : List Char
  authority : Option Uri.Authority := none
  path : Uri.Path := .segments []
  query : Option (List Char) := none
  fragment : Option (List Char) := none
deriving DecidableEq, Repr, Inhabited

namespace Uri

/-! ## Writing -/

/-- The authority behind its two slashes. -/
def Authority.render (a : Authority) : List Char :=
  let user := a.user ++ (if a.password.isEmpty then [] else ':' :: a.password)
  let port := match a.port with
    | some n => ':' :: (toString n).toList
    | none => []
  ['/', '/'] ++ (if user.isEmpty then [] else user ++ ['@']) ++ a.host ++ port

/-- The path; each segment behind a slash. -/
def Path.render : Path → List Char
  | .segments parts => parts.flatMap ('/' :: ·)
  | .verbatim text => text

/-- The written form of a URI. A path that would look like an authority is marked by `/.`. -/
def render (u : Uri) : String :=
  let path := u.path.render
  let marked := if u.authority.isNone && ['/', '/'].isPrefixOf path then ['/', '.'] ++ path else path
  let part (mark : Char) (text : Option (List Char)) : List Char :=
    match text with
    | some cs => mark :: cs
    | none => []
  String.ofList (u.scheme ++ [':'] ++ (u.authority.map Authority.render).getD [] ++ marked ++
    part '?' u.query ++ part '#' u.fragment)

/-! ## Paths -/

/-- A letter of ASCII. -/
def isLetter (c : Char) : Bool := c.isAlpha

/-- A drive letter and a colon. -/
def isDrive : List Char → Bool
  | [c, ':'] => isLetter c
  | _ => false

/-- A drive letter and a colon or a bar. -/
def isLooseDrive : List Char → Bool
  | [c, ':'] | [c, '|'] => isLetter c
  | _ => false

/-- The text starts with a segment that is a drive letter. -/
def startsWithDrive (cs : List Char) : Bool :=
  match cs with
  | [c, d] => isLooseDrive [c, d]
  | c :: d :: e :: _ => isLooseDrive [c, d] && (e == '/' || e == '\\' || e == '?' || e == '#')
  | _ => false

/-- The path of a file without its last segment; a drive letter alone stays. -/
def shorten (parts : List (List Char)) : List (List Char) :=
  match parts with
  | [one] => if isDrive one then parts else []
  | _ => parts.dropLast

/-- The directory above the one that the path names; a drive letter has none above it. -/
def parentDirectory (parts : List (List Char)) : List (List Char) :=
  if (parts.getLast?.map isLooseDrive).getD false then parts else parts.dropLast

/-- A segment that stands for the directory itself. -/
def isDot (segment : List Char) : Bool :=
  [".", "%2e"].contains (String.ofList (segment.map Char.toLower))

/-- A segment that stands for the directory above. -/
def isDoubleDot (segment : List Char) : Bool :=
  ["..", "%2e.", ".%2e", "%2e%2e"].contains (String.ofList (segment.map Char.toLower))

/-- The path with one more segment behind it; `last` says that no slash follows. -/
def addSegment (kind : SchemeKind) (parts : List (List Char)) (segment : List Char) (last : Bool) :
    List (List Char) :=
  if isDoubleDot segment then
    let above := parentDirectory parts
    if last then above ++ [[]] else above
  else if isDot segment then if last then parts ++ [[]] else parts
  else if kind == .file && parts.isEmpty && isLooseDrive segment then
    parts ++ [segment.take 1 ++ [':']]
  else parts ++ [segment]

/-- The segments of a path. -/
def splitPath (kind : SchemeKind) : List Char → List (List Char)
  | [] => [[]]
  | c :: cs =>
    if c == '/' || (c == '\\' && kind.isSpecial) then [] :: splitPath kind cs
    else match splitPath kind cs with
      | segment :: rest => (c :: segment) :: rest
      | [] => [[c]]

/-- The path `parts` with the segments of a text behind it. -/
def addSegments (kind : SchemeKind) (parts : List (List Char)) : List (List Char) → List (List Char)
  | [] => parts
  | [segment] => addSegment kind parts segment true
  | segment :: rest => addSegments kind (addSegment kind parts segment false) rest

/-- The path without empty segments at its start; one segment stays. -/
def dropEmptyStart : List (List Char) → List (List Char)
  | [] :: segment :: rest => dropEmptyStart (segment :: rest)
  | parts => parts

/-- The path `parts` followed by the text `cs`, which does not start with the slash between them. -/
def extendPath (kind : SchemeKind) (parts : List (List Char)) (cs : List Char) : Path :=
  let all := addSegments kind parts (splitPath kind (encode pathSet cs))
  .segments (if kind == .file then dropEmptyStart all else all)

/-! ## Reading -/

/-- The text before the first character that satisfies `p`, and the text from it on. -/
def cut (p : Char → Bool) (cs : List Char) : List Char × List Char := cs.span (!p ·)

/-- A text that ends with a query and a fragment: the part before them, and both of them. -/
def cutTail (cs : List Char) : List Char × List Char := cut (fun c => c == '?' || c == '#') cs

/-- The URI with the query and the fragment that a text starting with `?` or `#` writes. -/
def withTail (u : Uri) (kind : SchemeKind) (tail : List Char) : Uri :=
  let fragment (cs : List Char) : Option (List Char) :=
    match cs with
    | '#' :: rest => some (encode fragmentSet rest)
    | _ => none
  match tail with
  | '?' :: rest =>
    let (query, hash) := cut (· == '#') rest
    { u with
      query := some (encode (if kind.isSpecial then specialQuerySet else querySet) query)
      fragment := fragment hash }
  | _ => { u with fragment := fragment tail }

/-- The scheme in lower case and the text behind its colon. -/
def scheme? : List Char → Option (List Char × List Char)
  | [] => none
  | c :: cs =>
    if !isLetter c then none
    else
      let (name, rest) :=
        (c :: cs).span fun d => d.isAlphanum || d == '+' || d == '-' || d == '.'
      match rest with
      | ':' :: behind => some (name.map Char.toLower, behind)
      | _ => none

/-- The user, password and the text behind them. -/
def user? (kind : SchemeKind) (cs : List Char) : Option (List Char × List Char × List Char) :=
  let (authority, rest) := cut (fun c =>
    c == '/' || c == '?' || c == '#' || (c == '\\' && kind.isSpecial)) cs
  match Text.splitAtFirst '@' authority.reverse with
  | none => some ([], [], cs)
  | some (hostReversed, userReversed) =>
    let info := userReversed.reverse
    let host := hostReversed.reverse
    if info.isEmpty && host.isEmpty && !rest.isEmpty then none
    else
      let (user, password) := (Text.splitAtFirst ':' info).getD (info, [])
      some (encode userSet user, encode userSet password, host ++ rest)

/-- The host and the text behind it, which starts at a colon outside of brackets or at the path. -/
def cutHost (kind : SchemeKind) (inside : Bool) : List Char → List Char × List Char
  | [] => ([], [])
  | c :: cs =>
    if (c == ':' && !inside) || c == '/' || c == '?' || c == '#' || (c == '\\' && kind.isSpecial) then
      ([], c :: cs)
    else
      let (host, rest) := cutHost kind (if c == '[' then true else if c == ']' then false else inside) cs
      (c :: host, rest)

/-- The port behind its colon and the text behind it. -/
def port? (scheme : List Char) (cs : List Char) : Option (Option Nat × List Char) :=
  let (digits, rest) := cs.span Char.isDigit
  let ends := match rest with
    | c :: _ => c == '/' || c == '\\' || c == '?' || c == '#'
    | [] => true
  let n := digits.foldl (fun (n : Nat) c => n * 10 + (c.toNat - 48)) 0
  if !ends || 65535 < n then none
  else if digits.isEmpty || some n == defaultPort? scheme then some (none, rest)
  else some (some n, rest)

/-- The path behind an authority, and the query and fragment behind it. -/
def pathAfterAuthority (u : Uri) (kind : SchemeKind) (cs : List Char) : Uri :=
  let (path, tail) := cutTail cs
  let u := match path with
    | [] => if kind.isSpecial then { u with path := extendPath kind [] [] } else u
    | c :: rest =>
      if c == '/' || (c == '\\' && kind.isSpecial) then { u with path := extendPath kind [] rest }
      else { u with path := extendPath kind [] path }
  u.withTail kind tail

/-- The URI whose authority starts at the text. -/
def afterSlashes? (scheme : List Char) (cs : List Char) : Option Uri := do
  let kind := SchemeKind.of scheme
  let (user, password, cs) ← user? kind cs
  let (hostText, rest) := cutHost kind false cs
  let colon := rest.head? == some ':'
  let hasUser := !user.isEmpty || !password.isEmpty
  if hostText.isEmpty && (colon || hasUser || kind.isSpecial) then none
  let host ← if kind.isSpecial then Host.special? hostText else Host.verbatim? hostText
  let (port, rest) ← match rest with
    | ':' :: digits => port? scheme digits
    | _ => some (none, rest)
  return pathAfterAuthority { scheme, authority := some { user, password, host, port } } kind rest

/-- A character that separates segments leniently. -/
def isSlash (c : Char) : Bool := c == '/' || c == '\\'

/-- The base without its query and fragment, its path replaced. -/
def withPath (base : Uri) (path : Path) : Uri := { base with path, query := none, fragment := none }

/-- The segments of a base's path. -/
def Path.parts : Path → List (List Char)
  | .segments parts => parts
  | .verbatim _ => []

/-- The URI of a file whose host starts at the text. -/
def fileHost? (cs : List Char) : Option Uri := do
  let (hostText, rest) := cut (fun c => isSlash c || c == '?' || c == '#') cs
  let (hostText, rest) := if isLooseDrive hostText then ([], cs) else (hostText, rest)
  let host ← if hostText.isEmpty then some [] else Host.special? hostText
  let host := if String.ofList host = "localhost" then [] else host
  let onDrive := match rest with
    | c :: path => isSlash c && startsWithDrive path
    | [] => false
  let host := if onDrive then [] else host
  return pathAfterAuthority { scheme := "file".toList, authority := some { host } } .file rest

/-- The URI that a text without a scheme, or with that of files, writes. -/
def file? (cs : List Char) (base : Option Uri) : Option Uri :=
  let plain : Uri := { scheme := "file".toList, authority := some {} }
  match cs, base with
  | c :: rest, _ =>
    if isSlash c then
      match rest with
      | d :: behind =>
        if isSlash d then fileHost? behind else some (absolute plain rest base)
      | [] => some (absolute plain rest base)
    else relative plain (c :: rest) base
  | [], some b => some { b with fragment := none }
  | [], none => some (pathAfterAuthority plain .file [])
where
  /-- A path from the root, of the base's drive or host. -/
  absolute (plain : Uri) (cs : List Char) (base : Option Uri) : Uri :=
    let (path, tail) := cutTail cs
    let start : Uri × List (List Char) :=
      match if startsWithDrive cs then none else base with
      | some b =>
        match b.path.parts.head? with
        | some first =>
          if isDrive first then (plain, [first])
          else (({ plain with authority := b.authority } : Uri), [])
        | none => ({ plain with authority := b.authority }, [])
      | none => (plain, [])
    ({ start.1 with path := extendPath .file start.2 path } : Uri).withTail .file tail
  /-- A path from the base's directory. -/
  relative (plain : Uri) (cs : List Char) (base : Option Uri) : Option Uri :=
    let (path, tail) := cutTail cs
    match base with
    | some b =>
      if cs.head? == some '#' then some (b.withTail .file cs)
      else if cs.head? == some '?' then some ((b.withPath b.path).withTail .file tail)
      else if startsWithDrive cs then
        some (({ plain with path := extendPath .file [] path } : Uri).withTail .file tail)
      else
        let parts := shorten b.path.parts
        some ((b.withPath (extendPath .file parts path)).withTail .file tail)
    | none => some (({ plain with path := extendPath .file [] path } : Uri).withTail .file tail)

/-- The URI that a text writes relative to a base that is no file. -/
def relative? (cs : List Char) (base : Uri) : Option Uri :=
  let kind := SchemeKind.of base.scheme
  let (path, tail) := cutTail cs
  match cs with
  | [] => some { base with fragment := none }
  | c :: rest =>
    if c == '?' then some ((base.withPath base.path).withTail kind tail)
    else if c == '#' then some (base.withTail kind cs)
    else if isSlash c then
      match rest with
      | d :: behind =>
        if isSlash d then
          afterSlashes? base.scheme
            (if ['/', '/'].isPrefixOf cs then behind else cs.dropWhile isSlash)
        else some ((base.withPath (extendPath kind [] (path.drop 1))).withTail kind tail)
      | [] => some ((base.withPath (extendPath kind [] [])).withTail kind tail)
    else
      let parts := base.path.parts.dropLast
      some ((base.withPath (extendPath kind parts path)).withTail kind tail)

/-- The text as it is read: without control characters and blanks around it, and without tabs and
line breaks in it. -/
def clean (s : String) : List Char :=
  let isEdge (c : Char) : Bool := c.toNat ≤ 0x20
  let inside := ((s.toList.dropWhile isEdge).reverse.dropWhile isEdge).reverse
  inside.filter fun c => c != '\t' && c != '\n' && c != '\r'

/-- The URI that a text writes, relative to a base if there is one. -/
def parse? (s : String) (base : Option Uri := none) : Option Uri :=
  let cs := clean s
  match scheme? cs with
  | some (scheme, rest) =>
    match SchemeKind.of scheme with
    | .file => file? rest (base.filter fun b => SchemeKind.of b.scheme == .file)
    | .web =>
      let slashes := (rest.takeWhile isSlash).length
      match base.filter fun b => slashes < 2 && b.scheme == scheme with
      | some b => relative? rest b
      | none => afterSlashes? scheme (rest.dropWhile isSlash)
    | .other =>
      match rest with
      | '/' :: '/' :: behind => afterSlashes? scheme behind
      | '/' :: behind =>
        let (path, tail) := cutTail behind
        some (({ scheme, path := extendPath .other [] path } : Uri).withTail .other tail)
      | _ =>
        let (path, tail) := cutTail rest
        some (({ scheme, path := .verbatim (encode controlSet path) } : Uri).withTail .other tail)
  | none =>
    match base with
    | none => none
    | some b =>
      match cs.head?, b.path with
      | some '#', _ => some (b.withTail (SchemeKind.of b.scheme) cs)
      | _, .verbatim _ => none
      | _, _ => if SchemeKind.of b.scheme == .file then file? cs base else relative? cs b

end Uri

end XmlAssist

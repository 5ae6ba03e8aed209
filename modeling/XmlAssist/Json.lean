/-!
# JSON values

Values of the JSON data format as settings, reports and messages use them. The fields of an object
are kept in the order of their names, each name once. Numbers are integers; a number written with a
fraction or an exponent is kept as it is written.
-/

namespace XmlAssist

/-- A JSON value. -/
inductive Json where
  | null
  | bool (value : Bool)
  | num (value : Int)
  | decimal (digits : String)
  | str (value : String)
  | arr (items : List Json)
  | obj (fields : List (String × Json))
deriving Repr, Inhabited

namespace Json

/-- The fields with `key` set to `value`, the names still in order. -/
def insertField (key : String) (value : Json) : List (String × Json) → List (String × Json)
  | [] => [(key, value)]
  | (k, v) :: rest =>
    if key < k then (key, value) :: (k, v) :: rest
    else if key = k then (key, value) :: rest
    else (k, v) :: insertField key value rest

/-- The object with the given fields; of two fields with one name the later counts. -/
def mkObj (fields : List (String × Json)) : Json :=
  .obj (fields.foldl (fun acc (k, v) => insertField k v acc) [])

/-- The object with those of the fields that have a value. -/
def mkObjSome (fields : List (String × Option Json)) : Json :=
  mkObj (fields.filterMap fun (k, v) => v.map (k, ·))

/-- The field of an object. -/
def get? (key : String) : Json → Option Json
  | .obj fields => fields.lookup key
  | _ => none

/-- The value that a chain of fields leads to. -/
def path? (keys : List String) (v : Json) : Option Json :=
  keys.foldl (fun acc key => acc.bind (get? key)) (some v)

/-- A text or nothing, as a value. -/
def ofString? (s : Option String) : Json := (s.map Json.str).getD .null

/-- A natural number as a value. -/
def ofNat (n : Nat) : Json := .num n

/-- A list of texts as a value. -/
def ofStrings (xs : List String) : Json := .arr (xs.map .str)

/-- The hexadecimal digit of a number below sixteen. -/
def hexDigit (n : Nat) : Char := if n < 10 then Char.ofNat (48 + n) else Char.ofNat (87 + n)

/-- A character inside a quoted text. -/
def escapeChar (c : Char) : List Char :=
  if c = '"' then ['\\', '"']
  else if c = '\\' then ['\\', '\\']
  else if c = '\n' then ['\\', 'n']
  else if c = '\r' then ['\\', 'r']
  else if c = '\t' then ['\\', 't']
  else if c.toNat = 8 then ['\\', 'b']
  else if c.toNat = 12 then ['\\', 'f']
  else if c.toNat < 32 then
    ['\\', 'u', '0', '0', hexDigit (c.toNat / 16), hexDigit (c.toNat % 16)]
  else [c]

/-- The text in quotes. -/
def quote (s : String) : String :=
  if s.toList.all fun c => 32 ≤ c.toNat && c != '"' && c != '\\' then "\"" ++ s ++ "\""
  else "\"" ++ String.ofList (s.toList.flatMap escapeChar) ++ "\""

mutual

/-- The value on one line, behind `out`. -/
def renderOnto (out : String) : Json → String
  | .null => out ++ "null"
  | .bool b => out ++ (if b then "true" else "false")
  | .num n => out ++ toString n
  | .decimal digits => out ++ digits
  | .str s => out ++ quote s
  | .arr items => renderItemsOnto (out ++ "[") true items ++ "]"
  | .obj fields => renderFieldsOnto (out ++ "\x7b") true fields ++ "\x7d"

/-- The items of a list behind `out`, a comma before each but the first of the list. -/
def renderItemsOnto (out : String) (first : Bool) : List Json → String
  | [] => out
  | x :: xs => renderItemsOnto (renderOnto (if first then out else out ++ ",") x) false xs

/-- The fields of an object behind `out`, a comma before each but the first of the object. -/
def renderFieldsOnto (out : String) (first : Bool) : List (String × Json) → String
  | [] => out
  | (k, v) :: fields =>
    renderFieldsOnto (renderOnto ((if first then out else out ++ ",") ++ quote k ++ ":") v) false fields

end

/-- The value on one line. -/
def render (v : Json) : String := renderOnto "" v

/-- A line break and the indentation of a level. -/
def breakLine (level : Nat) : String := "\n" ++ String.ofList (List.replicate (2 * level) ' ')

mutual

/-- The value over several lines behind `out`, each level indented by two blanks. -/
def prettyOnto (level : Nat) (out : String) : Json → String
  | .null => out ++ "null"
  | .bool b => out ++ (if b then "true" else "false")
  | .num n => out ++ toString n
  | .decimal digits => out ++ digits
  | .str s => out ++ quote s
  | .arr [] => out ++ "[]"
  | .arr items => prettyItemsOnto (level + 1) (out ++ "[") true items ++ breakLine level ++ "]"
  | .obj [] => out ++ "\x7b\x7d"
  | .obj fields =>
    prettyFieldsOnto (level + 1) (out ++ "\x7b") true fields ++ breakLine level ++ "\x7d"

/-- The items of a list behind `out`, each on lines of its own. -/
def prettyItemsOnto (level : Nat) (out : String) (first : Bool) : List Json → String
  | [] => out
  | x :: xs =>
    prettyItemsOnto level
      (prettyOnto level ((if first then out else out ++ ",") ++ breakLine level) x) false xs

/-- The fields of an object behind `out`, each on lines of its own. -/
def prettyFieldsOnto (level : Nat) (out : String) (first : Bool) : List (String × Json) → String
  | [] => out
  | (k, v) :: fields =>
    prettyFieldsOnto level
      (prettyOnto level ((if first then out else out ++ ",") ++ breakLine level ++ quote k ++ ": ") v)
      false fields

end

/-- The value over several lines. -/
def renderPretty (v : Json) : String := prettyOnto 0 "" v

end Json

end XmlAssist

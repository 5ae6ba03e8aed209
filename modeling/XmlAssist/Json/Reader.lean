import XmlAssist.Json

/-!
# Reading JSON

The reader is an automaton over the characters of a text with a stack of the lists and objects that
are still open. A text is a value exactly if the automaton ends with one value and nothing open.
-/

namespace XmlAssist.Json.Reader

/-- A list or an object that is still open: the items so far, last one first, or the fields so far
and the name of the field being read. -/
inductive Frame where
  | list (items : List Json)
  | object (fields : List (String × Json)) (key : String)
deriving Inhabited

/-- What has been read of a quoted text behind its last complete character. -/
inductive Escape where
  | none
  | slash
  | hex (digits : Nat) (value : Nat)
deriving Inhabited

/-- What may follow. -/
inductive Mode where
  | value
  | firstItem
  | firstKey
  | key
  | colon
  | after
  | quoted (isKey : Bool) (chars : List Char) (escape : Escape) (high : Option Nat)
  | word (chars : List Char)
deriving Inhabited

/-- The automaton's state: what may follow, what is open, and the finished value. -/
structure State where
  mode : Mode := .value
  stack : List Frame := []
  result : Option Json := none
deriving Inhabited

/-- How many lists and objects may be open inside each other. -/
def depthLimit : Nat := 127

/-- White space between the parts of a value. -/
def isSpace (c : Char) : Bool := c == ' ' || c == '\t' || c == '\n' || c == '\r'

/-- The characters of words and numbers. -/
def isWordChar (c : Char) : Bool := c.isAlphanum || c == '-' || c == '+' || c == '.'

/-- The characters without their digits, if there is at least one digit. -/
def digits? (cs : List Char) : Option (List Char) :=
  match cs with
  | c :: rest => if c.isDigit then some (rest.dropWhile Char.isDigit) else none
  | [] => none

/-- The characters behind the whole part of a number: `0`, or digits that do not start with it. -/
def whole? : List Char → Option (List Char)
  | '0' :: rest => some rest
  | cs => digits? cs

/-- The characters are those of a number. -/
def isNumber (cs : List Char) : Bool :=
  let unsigned := match cs with
    | '-' :: rest => rest
    | _ => cs
  match whole? unsigned with
  | none => false
  | some rest =>
    let fraction := match rest with
      | '.' :: more => digits? more
      | _ => some rest
    match fraction with
    | none => false
    | some rest =>
      let exponent := match rest with
        | 'e' :: '+' :: more | 'e' :: '-' :: more | 'E' :: '+' :: more | 'E' :: '-' :: more => digits? more
        | 'e' :: more | 'E' :: more => digits? more
        | _ => some rest
      match exponent with
      | some [] => true
      | _ => false

/-- The integer that the digits write, with their sign. -/
def integer? : List Char → Option Int
  | '-' :: cs =>
    if cs.all Char.isDigit && cs != ['0'] then
      some (-(cs.foldl (fun (n : Nat) c => n * 10 + (c.toNat - 48)) 0 : Nat))
    else none
  | cs =>
    if cs.all Char.isDigit then some (cs.foldl (fun (n : Nat) c => n * 10 + (c.toNat - 48)) 0 : Nat)
    else none

/-- The value that a word or a number stands for. -/
def wordValue? (cs : List Char) : Option Json :=
  if cs = ['n', 'u', 'l', 'l'] then some .null
  else if cs = ['t', 'r', 'u', 'e'] then some (.bool true)
  else if cs = ['f', 'a', 'l', 's', 'e'] then some (.bool false)
  else if isNumber cs then
    match integer? cs with
    | some n => some (.num n)
    | none => some (.decimal (String.ofList cs))
  else none

/-- The state after a complete value. -/
def complete (x : State) (v : Json) : Option State :=
  match x.stack with
  | [] => some { x with mode := .after, result := some v }
  | .list items :: stack => some { x with mode := .after, stack := .list (v :: items) :: stack }
  | .object fields key :: stack =>
    some { x with mode := .after, stack := .object (insertField key v fields) "" :: stack }

/-- The state with one more list or object open. -/
def push (x : State) (mode : Mode) (frame : Frame) : Option State :=
  if x.stack.length < depthLimit then some { x with mode, stack := frame :: x.stack } else none

/-- A character where a value starts. -/
def startValue (x : State) (c : Char) : Option State :=
  if c = '"' then some { x with mode := .quoted false [] .none none }
  else if c = '[' then push x .firstItem (.list [])
  else if c = '{' then push x .firstKey (.object [] "")
  else if isWordChar c then some { x with mode := .word [c] }
  else none

/-- A character behind a complete value. -/
def afterValue (x : State) (c : Char) : Option State :=
  match x.stack with
  | .list items :: stack =>
    if c = ',' then some { x with mode := .value }
    else if c = ']' then complete { x with stack } (.arr items.reverse)
    else none
  | .object fields _ :: stack =>
    if c = ',' then some { x with mode := .key }
    else if c = '}' then complete { x with stack } (.obj fields)
    else none
  | [] => none

/-- The character that an escape of one letter stands for. -/
def simpleEscape? (c : Char) : Option Char :=
  match c with
  | '"' => some '"'
  | '\\' => some '\\'
  | '/' => some '/'
  | 'b' => some (Char.ofNat 8)
  | 'f' => some (Char.ofNat 12)
  | 'n' => some '\n'
  | 'r' => some '\r'
  | 't' => some '\t'
  | _ => none

/-- The value of a hexadecimal digit. -/
def hexValue? (c : Char) : Option Nat :=
  if c.isDigit then some (c.toNat - 48)
  else if 'a' ≤ c && c ≤ 'f' then some (c.toNat - 87)
  else if 'A' ≤ c && c ≤ 'F' then some (c.toNat - 55)
  else none

/-- A quoted text behind a complete escape of four digits. A high surrogate waits for its low one. -/
def unit? (isKey : Bool) (chars : List Char) (high : Option Nat) (n : Nat) : Option Mode :=
  match high with
  | some h =>
    if 0xDC00 ≤ n && n ≤ 0xDFFF then
      some (.quoted isKey (Char.ofNat (0x10000 + (h - 0xD800) * 0x400 + (n - 0xDC00)) :: chars) .none none)
    else none
  | none =>
    if 0xD800 ≤ n && n ≤ 0xDBFF then some (.quoted isKey chars .none (some n))
    else if 0xDC00 ≤ n && n ≤ 0xDFFF then none
    else some (.quoted isKey (Char.ofNat n :: chars) .none none)

/-- A character inside a quoted text. -/
def insideQuoted (x : State) (isKey : Bool) (chars : List Char) (escape : Escape) (high : Option Nat)
    (c : Char) : Option State :=
  match escape with
  | .none =>
    if c = '\\' then some { x with mode := .quoted isKey chars .slash high }
    else if high.isSome || c.toNat < 32 then none
    else if c = '"' then
      let s := String.ofList chars.reverse
      if isKey then
        match x.stack with
        | .object fields _ :: stack => some { x with mode := .colon, stack := .object fields s :: stack }
        | _ => none
      else complete x (.str s)
    else some { x with mode := .quoted isKey (c :: chars) .none none }
  | .slash =>
    if c = 'u' then some { x with mode := .quoted isKey chars (.hex 0 0) high }
    else if high.isSome then none
    else (simpleEscape? c).map fun d => { x with mode := .quoted isKey (d :: chars) .none none }
  | .hex digits value =>
    match hexValue? c with
    | none => none
    | some d =>
      let n := value * 16 + d
      if digits < 3 then some { x with mode := .quoted isKey chars (.hex (digits + 1) n) high }
      else (unit? isKey chars high n).map fun mode => { x with mode }

/-- The state behind one more character. -/
def step (x : State) (c : Char) : Option State :=
  match x.mode with
  | .quoted isKey chars escape high => insideQuoted x isKey chars escape high c
  | .word chars =>
    if isWordChar c then some { x with mode := .word (c :: chars) }
    else
      match (wordValue? chars.reverse).bind (complete x) with
      | none => none
      | some y => if isSpace c then some y else afterValue y c
  | mode =>
    if isSpace c then some x
    else match mode with
      | .firstItem =>
        if c = ']' then complete { x with stack := x.stack.drop 1 } (.arr []) else startValue x c
      | .firstKey =>
        if c = '}' then complete { x with stack := x.stack.drop 1 } (.obj [])
        else if c = '"' then some { x with mode := .quoted true [] .none none }
        else none
      | .key => if c = '"' then some { x with mode := .quoted true [] .none none } else none
      | .colon => if c = ':' then some { x with mode := .value } else none
      | .after => afterValue x c
      | _ => startValue x c

/-- The value at the end of the text. -/
def finish (x : State) : Option Json :=
  match x.mode with
  | .word chars =>
    match (wordValue? chars.reverse).bind (complete x) with
    | some y => if y.stack.isEmpty then y.result else none
    | none => none
  | .after => if x.stack.isEmpty then x.result else none
  | _ => none

/-- The state behind all the characters. -/
def run (x : State) : List Char → Option State
  | [] => some x
  | c :: cs => (step x c).bind fun y => run y cs

end XmlAssist.Json.Reader

namespace XmlAssist.Json

/-- The value that a text writes. -/
def parse? (s : String) : Option Json := (Reader.run {} s.toList).bind Reader.finish

end XmlAssist.Json

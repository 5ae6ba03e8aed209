/-!
# Quoted literals and names with a colon

Attribute values and literals of declarations are written in quotes; a qualified name has a
part before its first colon and one behind it.
-/

namespace XmlAssist.Text

/-- A single or a double quote. -/
def isQuote (c : Char) : Bool := c == '"' || c == '\''

/-- The characters without a quote at their end. -/
def dropEndQuote (cs : List Char) : List Char :=
  match cs.getLast? with
  | some c => if isQuote c then cs.dropLast else cs
  | none => cs

/-- The characters without a quote at their start. -/
def dropStartQuote : List Char → List Char
  | c :: cs => if isQuote c then cs else c :: cs
  | [] => []

/-- The text without one quote at its start and one at its end, each where it is present. -/
def stripQuotes (s : String) : String := String.ofList (dropEndQuote (dropStartQuote s.toList))

/-- The text without its first and its last character, whatever they are. -/
def inner (s : String) : String := String.ofList (s.toList.drop 1).dropLast

/-- The text starts with a quote. -/
def startsWithQuote (s : String) : Bool :=
  match s.toList with
  | c :: _ => isQuote c
  | [] => false

/-- The characters before and behind the first `sep`, if there is one. -/
def splitAtFirst (sep : Char) : List Char → Option (List Char × List Char)
  | [] => none
  | c :: cs =>
    if c = sep then some ([], cs)
    else (splitAtFirst sep cs).map fun (before, behind) => (c :: before, behind)

/-- The texts before and behind the first `sep`, if there is one. -/
def splitOnce? (sep : Char) (s : String) : Option (String × String) :=
  (splitAtFirst sep s.toList).map fun (before, behind) => (String.ofList before, String.ofList behind)

/-- The pieces of a list of characters between its separators `sep`. -/
def pieces (sep : Char) : List Char → List (List Char)
  | [] => [[]]
  | c :: cs =>
    if c = sep then [] :: pieces sep cs
    else match pieces sep cs with
      | piece :: rest => (c :: piece) :: rest
      | [] => [[c]]

/-- The texts between the separators `sep` of a text. -/
def splitAll (sep : Char) (s : String) : List String := (pieces sep s.toList).map String.ofList

/-- What follows `lead` in `s`, if `s` starts with it. -/
def after? (lead s : String) : Option String :=
  if lead.toList.isPrefixOf s.toList then some (String.ofList (s.toList.drop lead.toList.length))
  else none

end XmlAssist.Text

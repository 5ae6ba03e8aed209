import XmlAssist.Markup.Lexer

/-!
# Written documents

A well-formed document as it is written: elements, text, comments, CDATA sections and processing
instructions, and an XML declaration in front of them. The white space inside tags and the quotes
around values are part of the written form, and so is the choice between `<a/>` and `<a></a>`.
`Written.print` is the text, and `Written.Valid` says which pieces can be told apart in it.
-/

namespace XmlAssist

namespace Written

inductive Quote where
  | single
  | double
deriving DecidableEq, Repr, Inhabited

structure Attr where
  space : String
  name : String
  quote : Quote
  value : String
deriving DecidableEq, Repr, Inhabited

/-- The name and the attributes of a tag, with the white space behind them. -/
structure Tag where
  name : String
  attributes : List Attr := []
  space : String := ""
deriving DecidableEq, Repr, Inhabited

/-- A piece of content that has no other one inside. -/
inductive Leaf where
  | text (content : String)
  | comment (content : String)
  | cdata (content : String)
  | instruction (target space content : String)
  | empty (tag : Tag)
deriving DecidableEq, Repr, Inhabited

/-- The content of an element or a document. -/
inductive Forest where
  | nil
  | leaf (piece : Leaf) (others : Forest)
  /-- An element with a start tag and an end tag, in which `space` stands behind the name. -/
  | element (tag : Tag) (content : Forest) (space : String) (others : Forest)
deriving DecidableEq, Repr, Inhabited

/-- The XML declaration, with the white space behind its attributes. -/
structure Prolog where
  attributes : List Attr := []
  space : String := ""
deriving DecidableEq, Repr, Inhabited

end Written

/-- A document as it is written. -/
structure Written where
  prolog : Option Written.Prolog := none
  forest : Written.Forest
deriving DecidableEq, Repr, Inhabited

namespace Written

/-! ## Printing -/

def Quote.print : Quote → String
  | .single => "'"
  | .double => "\""

def Attr.quoted (a : Attr) : String := a.quote.print ++ (a.value ++ a.quote.print)

def Attr.body (a : Attr) : String := a.name ++ ("=" ++ a.quoted)

def Attr.print (a : Attr) : String := a.space ++ a.body

def printAttributes : List Attr → String
  | [] => ""
  | a :: as => a.print ++ printAttributes as

def Tag.print (t : Tag) (close : String) : String :=
  "<" ++ (t.name ++ (printAttributes t.attributes ++ (t.space ++ close)))

def Tag.printEnd (t : Tag) (space : String) : String := "</" ++ (t.name ++ (space ++ ">"))

def Leaf.print : Leaf → String
  | .text content => content
  | .comment content => "<!--" ++ (content ++ "-->")
  | .cdata content => "<![CDATA[" ++ (content ++ "]]>")
  | .instruction target space content => "<?" ++ (target ++ (space ++ (content ++ "?>")))
  | .empty tag => tag.print "/>"

def Forest.print : Forest → String
  | .nil => ""
  | .leaf piece others => piece.print ++ others.print
  | .element tag content space others =>
    tag.print ">" ++ (content.print ++ tag.printEnd space) ++ others.print

def Prolog.print (p : Prolog) : String :=
  "<?" ++ ("xml" ++ (printAttributes p.attributes ++ (p.space ++ "?>")))

/-- What stands before the content: the XML declaration, if there is one. -/
def head (w : Written) : String := (w.prolog.map (·.print)).getD ""

/-- The text of a document. -/
def print (w : Written) : String := w.head ++ w.forest.print

/-! ## Valid pieces -/

def isSpace (s : String) : Bool := (Text.bytesOf s).all Lexer.isSpace

def isName (s : String) : Bool :=
  match Text.bytesOf s with
  | b :: bs => Lexer.isNameStart b && bs.all Lexer.isName
  | [] => false

def startsWithSpace (s : String) : Bool :=
  match Text.bytesOf s with
  | b :: _ => Lexer.isSpace b
  | [] => false

/-- The literal stands nowhere in the text. -/
def Free (lit s : String) : Prop := ¬ Text.bytesOf lit <:+: Text.bytesOf s

instance (lit s : String) : Decidable (Free lit s) := inferInstanceAs (Decidable (¬ _))

/-- The value has neither `<` nor the quote that it stands in. -/
structure Attr.Valid (a : Attr) : Prop where
  space : isSpace a.space
  spaced : a.space ≠ ""
  name : isName a.name
  value : Free "<" a.value
  quote : Free a.quote.print a.value

instance (a : Attr) : Decidable a.Valid :=
  decidable_of_iff
    (isSpace a.space ∧ a.space ≠ "" ∧ isName a.name ∧ Free "<" a.value ∧ Free a.quote.print a.value)
    ⟨fun ⟨h1, h2, h3, h4, h5⟩ => ⟨h1, h2, h3, h4, h5⟩,
      fun ⟨h1, h2, h3, h4, h5⟩ => ⟨h1, h2, h3, h4, h5⟩⟩

/-- The name is one, and the attributes are valid. -/
structure Tag.Valid (t : Tag) : Prop where
  name : isName t.name
  attributes : ∀ a ∈ t.attributes, a.Valid
  space : isSpace t.space

instance (t : Tag) : Decidable t.Valid :=
  decidable_of_iff (isName t.name ∧ (∀ a ∈ t.attributes, a.Valid) ∧ isSpace t.space)
    ⟨fun ⟨h1, h2, h3⟩ => ⟨h1, h2, h3⟩, fun ⟨h1, h2, h3⟩ => ⟨h1, h2, h3⟩⟩

/-- Nothing in the piece ends it before its end. -/
def Leaf.Valid : Leaf → Prop
  | .text content => content ≠ "" ∧ Free "<" content
  | .comment content => Free "-->" content
  | .cdata content => Free "]]>" content
  | .instruction target space content =>
    isName target ∧ isSpace space ∧ (content ≠ "" → space ≠ "") ∧ startsWithSpace content = false ∧
      Free "?>" content
  | .empty tag => tag.Valid

instance : (piece : Leaf) → Decidable piece.Valid
  | .text _ => inferInstanceAs (Decidable (_ ∧ _))
  | .comment content => inferInstanceAs (Decidable (Free "-->" content))
  | .cdata content => inferInstanceAs (Decidable (Free "]]>" content))
  | .instruction .. => inferInstanceAs (Decidable (_ ∧ _ ∧ (_ → _) ∧ _ ∧ _))
  | .empty tag => inferInstanceAs (Decidable tag.Valid)

def Leaf.isText : Leaf → Bool
  | .text _ => true
  | _ => false

def Forest.startsWithText : Forest → Bool
  | .leaf piece _ => piece.isText
  | _ => false

/-- All pieces are valid, and no text is followed by text. -/
def Forest.Valid : Forest → Prop
  | .nil => True
  | .leaf piece others =>
    piece.Valid ∧ (piece.isText → others.startsWithText = false) ∧ others.Valid
  | .element tag content space others =>
    tag.Valid ∧ content.Valid ∧ isSpace space ∧ others.Valid

instance Forest.decidableValid : (f : Forest) → Decidable f.Valid
  | .nil => inferInstanceAs (Decidable True)
  | .leaf _ others =>
    have := others.decidableValid
    inferInstanceAs (Decidable (_ ∧ (_ → _) ∧ _))
  | .element _ content _ others =>
    have := content.decidableValid
    have := others.decidableValid
    inferInstanceAs (Decidable (_ ∧ _ ∧ _ ∧ _))

/-- The piece would be an XML declaration at the start of a document. -/
def Leaf.isProlog : Leaf → Bool
  | .instruction target _ _ => target == "xml"
  | _ => false

/-- The content starts with what would be an XML declaration. -/
def Forest.startsWithProlog : Forest → Bool
  | .leaf piece _ => piece.isProlog
  | _ => false

/-- The pieces are valid, and what the document starts with looks like an XML declaration only if
it is one. -/
structure Valid (w : Written) : Prop where
  attributes : ∀ p ∈ w.prolog, ∀ a ∈ p.attributes, a.Valid
  space : ∀ p ∈ w.prolog, isSpace p.space
  forest : w.forest.Valid
  start : w.prolog = none → w.forest.startsWithProlog = false

/-! ## Attributes of one name -/

/-- No name occurs twice in a tag. -/
def Tag.Distinct (t : Tag) : Prop := (t.attributes.map (·.name)).Nodup

instance (t : Tag) : Decidable t.Distinct := inferInstanceAs (Decidable (List.Nodup _))

def Leaf.Distinct : Leaf → Prop
  | .empty tag => tag.Distinct
  | _ => True

instance : (piece : Leaf) → Decidable piece.Distinct
  | .empty tag => inferInstanceAs (Decidable tag.Distinct)
  | .text _ | .comment _ | .cdata _ | .instruction .. => inferInstanceAs (Decidable True)

/-- No element has two attributes of one name. -/
def Forest.Distinct : Forest → Prop
  | .nil => True
  | .leaf piece others => piece.Distinct ∧ others.Distinct
  | .element tag content _ others => tag.Distinct ∧ content.Distinct ∧ others.Distinct

instance Forest.decidableDistinct : (f : Forest) → Decidable f.Distinct
  | .nil => inferInstanceAs (Decidable True)
  | .leaf _ others =>
    have := others.decidableDistinct
    inferInstanceAs (Decidable (_ ∧ _))
  | .element _ content _ others =>
    have := content.decidableDistinct
    have := others.decidableDistinct
    inferInstanceAs (Decidable (_ ∧ _ ∧ _))

end Written

end XmlAssist

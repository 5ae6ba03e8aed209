/-!
# Datatypes of XML Schema

The datatypes that a schema can use without declaring them, and what is shown for them.
-/

namespace XmlAssist.Schema

/-- A datatype that needs no declaration. -/
structure DataType where
  name : String
deriving DecidableEq, Repr, Inhabited

namespace DataType

/-- Where a datatype is described. -/
def url (t : DataType) : String := "https://www.w3.org/TR/xmlschema11-2/#" ++ t.name

/-- The text shown for a datatype. -/
def documentation (t : DataType) : String :=
  "**" ++ t.name ++ "**\nSee [documentation](" ++ t.url ++ ") for more information."

/-- All datatypes, in the order in which they are proposed. -/
def all : List DataType := [
  "anyAtomicType", "anySimpleType", "anyURI", "base64Binary", "boolean", "byte", "date",
  "dateTime", "dateTimeStamp", "dayTimeDuration", "decimal", "double", "duration", "ENTITIES",
  "ENTITY", "float", "gDay", "gMonth", "gMonthDay", "gYear", "gYearMonth", "hexBinary", "ID",
  "IDREF", "IDREFS", "int", "integer", "language", "long", "Name", "NCName", "negativeInteger",
  "NMTOKEN", "NMTOKENS", "nonNegativeInteger", "nonPositiveInteger", "normalizedString",
  "NOTATION", "positiveInteger", "QName", "short", "string", "time", "token", "unsignedByte",
  "unsignedInt", "unsignedLong", "unsignedShort", "yearMonthDuration"].map DataType.mk

/-- The datatype with a name. -/
def ofName? (name : String) : Option DataType := all.find? (·.name == name)

end DataType

end XmlAssist.Schema

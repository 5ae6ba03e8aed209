/-!
# What the program takes from libraries

URIs, patterns for addresses, and the references in values are read by libraries that are not part of
the program. `Library` is what the program asks of them. Everything that depends on it is stated for
every `Library`, so that nothing that is proved rests on how one answers; `Library.Own` is the one
that the program runs with.
-/

namespace XmlAssist

/-- The libraries that read URIs, patterns and references. -/
class Library where
  Url : Type
  /-- The URI that a text writes. -/
  url? : String → Option Url
  /-- The URI that a text writes relative to another one. -/
  join? : Url → String → Option Url
  /-- The written form of a URI. -/
  render : Url → String
  scheme : Url → String
  /-- The absolute path of the file of this machine that a URI of files names. -/
  filePath? : Url → Option String
  /-- The URI of the file at an absolute path. -/
  ofFilePath : String → Url
  /-- Patterns for addresses. -/
  Pattern : Type
  pattern? : String → Option Pattern
  /-- The pattern matches the whole of an address, with `*`, `?` and `[…]` inside one segment. -/
  fits : Pattern → String → Bool
  /-- The text with its character and entity references replaced, if all of them can be. -/
  decode? : String → Option String

end XmlAssist

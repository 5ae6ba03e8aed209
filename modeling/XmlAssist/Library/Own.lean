import XmlAssist.Library
import XmlAssist.Text.Glob
import XmlAssist.Text.Reference
import XmlAssist.Uri.File

/-!
# The libraries of the program

URIs as browsers read them but for what `Uri.Host.domain?` leaves out of international names, patterns
as shells read them, and the five predefined entities.
-/

namespace XmlAssist

instance : Library where
  Url := Uri
  url? text := Uri.parse? text
  join? base text := Uri.parse? text (some base)
  render := Uri.render
  scheme u := String.ofList u.scheme
  filePath? := Uri.filePath?
  ofFilePath := Uri.ofFilePath
  Pattern := List Glob.Part
  pattern? := Glob.parse?
  fits := Glob.fits
  decode? := Text.Reference.decode?

end XmlAssist

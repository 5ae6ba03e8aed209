import XmlAssist.Command

/-!
# The program

Reads files from disk, prints what a command prints, and ends with its exit code.
-/

open XmlAssist

/-- The files on disk. -/
def diskFiles : Command.Files IO where
  resolve path := do
    try return some (toString (← IO.FS.realPath path))
    catch _ => return none
  read path := do
    try return some (← IO.FS.readFile path)
    catch _ => return none

/-- Runs a command. -/
def main (args : List String) : IO UInt32 := do
  let outcome ← Command.run diskFiles args
  match outcome.printed with
  | .nothing => pure ()
  | .json value => IO.println value.renderPretty
  | .text lines => lines.forM IO.println
  match outcome.error with
  | some e => IO.eprintln ("Error: " ++ e.message)
  | none => if outcome.code = 2 then Command.usage.forM IO.eprintln
  return UInt32.ofNat outcome.code

import XmlAssist.Cancel
import XmlAssist.Text.LineIndex

/-!
# Contributions to an answer

The answer to a request is put together from the contributions of several participants, which are
called in order. A participant may fail after it has contributed something; the others are called
all the same.
-/

namespace XmlAssist

/-- How far the download of a grammar has come. -/
inductive Download where
  | ready
  | failed (message : String)
  | waiting
deriving DecidableEq, Repr, Inhabited

/-- Why a participant could not do its work. -/
inductive Failure where
  /-- A grammar is not at hand; if it is being fetched, how far that is. -/
  | unavailable (message : String) (download : Option Download)
  | other (message : String)
deriving DecidableEq, Repr, Inhabited

namespace Failure

/-- The wording of a failure. -/
def message : Failure → String
  | .unavailable m _ => m
  | .other m => m

/-- The failure is about a grammar that is not at hand. -/
def isUnavailable : Failure → Bool
  | .unavailable .. => true
  | .other _ => false

/-- A place that is not in the text is a failure of its own. -/
def ofBadLocation (e : BadLocation) : Failure := .other e.message

end Failure

/-- What a participant adds to an answer, and whether it then failed. -/
structure Contribution (α : Type) where
  items : List α := []
  failure : Option Failure := none
  /-- What is left of the polls. -/
  cancel : Cancel := .never
deriving Repr, Inhabited

namespace Contribution

variable {α β : Type}

/-- The contribution of items that need no polls. -/
def ofList (cancel : Cancel) (items : List α) : Contribution α := { items, cancel }

/-- The items of a list of attempts up to the first that fails. -/
def ofAttempts (cancel : Cancel) : List (Except BadLocation α) → Contribution α
  | [] => { cancel }
  | .error e :: _ => { failure := some (.ofBadLocation e), cancel }
  | .ok a :: rest =>
    let later := ofAttempts cancel rest
    { later with items := a :: later.items }

/-- Goes through candidates, asking before each whether to go on, and collects what each yields. The
first that fails ends the contribution. -/
def visit (f : β → Except BadLocation (List α)) (cancel : Cancel) : List β → Contribution α
  | [] => { cancel }
  | b :: rest =>
    let (stop, cancel) := cancel.poll
    if stop then { cancel }
    else
      match f b with
      | .error e => { failure := some (.ofBadLocation e), cancel }
      | .ok items =>
        let later := visit f cancel rest
        { later with items := items ++ later.items }

/-- One contribution behind another; the second is made only if the first did not fail. -/
def andThen (first : Contribution α) (second : Cancel → Contribution α) : Contribution α :=
  match first.failure with
  | some _ => first
  | none =>
    let later := second first.cancel
    { later with items := first.items ++ later.items }

end Contribution

/-- The contributions of several participants. -/
structure Gathered (α : Type) where
  items : List α := []
  /-- The failures in the order in which they arose. -/
  failures : List Failure := []
  cancel : Cancel := .never
deriving Repr, Inhabited

/-- Calls participants in order, asking before each whether to go on. One that fails is passed
over, and what it had contributed stays. -/
def gather {α : Type} (cancel : Cancel) : List (Cancel → Contribution α) → Gathered α
  | [] => { cancel }
  | call :: rest =>
    let (stop, cancel) := cancel.poll
    if stop then { cancel }
    else
      let mine := call cancel
      let later := gather mine.cancel rest
      { items := mine.items ++ later.items, failures := mine.failure.toList ++ later.failures,
        cancel := later.cancel }

end XmlAssist

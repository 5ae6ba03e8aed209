import XmlAssist.Diagnostics.Syntax
import XmlAssist.Participant

/-!
# Reports of problems

The problems of a document are those of its syntax and those that the participants find. While a
grammar is not at hand a report says only that, and what to do once it is.
-/

namespace XmlAssist.Diagnostics

/-- The code for a grammar that is not at hand. -/
def downloadCode : String := "DownloadResourceIssue"

/-- The problems of a document, and the first grammar that is not at hand. -/
def collect (ps : List Participant) (d : Document) (settings : Settings) (cancel : Cancel) :
    List Diagnostic × Option Failure :=
  let found := gather cancel (ps.map fun p => p.diagnose d settings)
  (ofSyntax d settings ++ found.items, found.failures.find? (·.isUnavailable))

/-- What to do once the download of a grammar has ended. -/
inductive Outcome where
  /-- The grammar is at hand: the document is to be looked at again. -/
  | revalidate (uri : String)
  /-- The download failed: this is to be reported. -/
  | failed (report : DiagnosticReport)
deriving DecidableEq, Repr, Inhabited

/-- A report that waits for a grammar. -/
structure Pending where
  uri : String
  range : Range
  download : Download
deriving DecidableEq, Repr, Inhabited

/-- What follows from how far the download has come; nothing while it is under way. -/
def Pending.outcome? (x : Pending) : Option Outcome :=
  match x.download with
  | .ready => some (.revalidate x.uri)
  | .failed message => some (.failed
      { uri := x.uri, diagnostics := [{ range := x.range, severity := .error, code := some downloadCode, message }] })
  | .waiting => none

/-- The report of what was collected. -/
def report (d : Document) (found : List Diagnostic × Option Failure) : DiagnosticReport × Option Pending :=
  match found with
  | (_, some (.unavailable message download)) =>
    let range := d.rootRange
    let severity : Severity := if download.isSome then .information else .error
    ({ uri := d.uri, diagnostics := [{ range, severity, code := some downloadCode, message }] },
      download.map fun download => { uri := d.uri, range, download })
  | (diagnostics, _) => ({ uri := d.uri, diagnostics }, none)

/-- The fixes of the participants for the problems in a range. -/
def fixes (ps : List Participant) (d : Document) (range : Range) (problems : List Diagnostic)
    (cancel : Cancel) : List CodeAction :=
  (gather cancel ((problems.filter (·.range.intersects range)).flatMap fun problem =>
    ps.map fun p => p.fix d problem range)).items

end XmlAssist.Diagnostics

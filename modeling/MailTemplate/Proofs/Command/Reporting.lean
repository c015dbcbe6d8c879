import MailTemplate.Command.Run
import MailTemplate.Proofs.Json.Readable
import MailTemplate.Proofs.Template.Closing

/-!
The two formats in which the problems of templates are reported. The text is a sequence of entries,
and the JSON is a listing of files; both say the same of each file, in the same order.
-/

namespace MailTemplate

/-- What the text of a report is made up of: files without problems, and problems. -/
inductive ReportEntry where
  | fine (path : Text)
  | problem (warning : Bool) (path : Text) (line column : Nat) (message : Text)
  deriving DecidableEq, Repr

namespace ReportEntry

def print (colored : Bool) : ReportEntry → Text
  | .fine path => Style.green.paint colored "ok".toList ++ [' '] ++ path ++ ['\n']
  | .problem warning path line column message =>
      (if warning then Style.yellow.paint colored "warning".toList
        else Style.red.paint colored "error".toList) ++
        [' '] ++ path ++ [':'] ++ Nat.toDigits 10 line ++ [':'] ++ Nat.toDigits 10 column ++
          [':', ' '] ++ message ++ ['\n']

def closing (colored : Bool) (total : Nat) : Text :=
  if total = 0 then "\nCheck passed: no problems found.\n".toList
  else
    ['\n'] ++ Style.bold.paint colored
      ("Check failed: ".toList ++ Nat.toDigits 10 total ++ " problem(s) found.".toList) ++ ['\n']

end ReportEntry

structure ListedProblem where
  line : Nat
  column : Nat
  message : Text
  deriving DecidableEq, Repr

structure ListedFile where
  path : Text
  problems : List ListedProblem
  deriving DecidableEq, Repr

structure Listing where
  ok : Bool
  files : List ListedFile
  deriving DecidableEq, Repr

namespace Json

def member? (name : Text) : Json → Option Json
  | .object members => Entries.get? members name
  | _ => none

def natural? : Json → Option Nat
  | .number (.integer value) => value.toNat?
  | _ => none

def bool? : Json → Option Bool
  | .bool value => some value
  | _ => none

def string? : Json → Option Text
  | .string value => some value
  | _ => none

def items? : Json → Option (List Json)
  | .array items => some items
  | _ => none

end Json

def ListedProblem.ofJson? (json : Json) : Option ListedProblem := do
  let line ← (json.member? "line".toList).bind Json.natural?
  let column ← (json.member? "column".toList).bind Json.natural?
  let message ← (json.member? "message".toList).bind Json.string?
  pure ⟨line, column, message⟩

def ListedFile.ofJson? (json : Json) : Option ListedFile := do
  let path ← (json.member? "file".toList).bind Json.string?
  let problems ← (json.member? "problems".toList).bind Json.items?
  let problems ← problems.mapM ListedProblem.ofJson?
  pure ⟨path, problems⟩

def Listing.ofJson? (json : Json) : Option Listing := do
  let ok ← (json.member? "ok".toList).bind Json.bool?
  let files ← (json.member? "files".toList).bind Json.items?
  let files ← files.mapM ListedFile.ofJson?
  pure ⟨ok, files⟩

namespace Diagnostic

def entry (path : Text) (diagnostic : Diagnostic) : ReportEntry :=
  .problem diagnostic.isAccepted path diagnostic.point.line diagnostic.point.column
    diagnostic.message.toList

def listed (diagnostic : Diagnostic) : ListedProblem :=
  ⟨diagnostic.point.line, diagnostic.point.column, diagnostic.message.toList⟩

end Diagnostic

namespace FileReport

def entries (report : FileReport) : List ReportEntry :=
  if report.diagnostics = [] then [.fine report.path]
  else report.diagnostics.map (Diagnostic.entry report.path)

def listed (report : FileReport) : ListedFile :=
  ⟨report.path, report.diagnostics.map Diagnostic.listed⟩

def total : List FileReport → Nat
  | [] => 0
  | report :: reports => report.diagnostics.length + total reports

end FileReport

namespace FileReport

open Json (Readable)

def Fits (diagnostic : Diagnostic) : Prop :=
  diagnostic.point.line < 2 ^ 64 ∧ diagnostic.point.column < 2 ^ 64

variable {depth : Nat}

end FileReport

end MailTemplate

import MailTemplate.Command.Arguments
import MailTemplate.Config
import MailTemplate.Template.Expand

/-!
The commands: rendering a template, checking templates for problems, and listing the variables of a
template. A command writes nothing to its output before all its files and arguments have been read.
-/

namespace MailTemplate

structure Outcome where
  /-- Zero for success, one for problems found, two for an error that ended the command. -/
  status : Nat
  output : Text
  notes : Text
  error : Option Error
  deriving Repr

namespace Outcome

def finished (status : Nat) (output notes : Text) : Outcome :=
  ⟨status, output, notes, none⟩

def failed (error : Error) : Outcome :=
  ⟨2, [], [], some error⟩

def ofExcept : Except Error Outcome → Outcome
  | .ok outcome => outcome
  | .error error => failed error

end Outcome

inductive Style where
  | red
  | green
  | yellow
  | bold
  deriving DecidableEq, Repr

namespace Style

def start : Style → Text
  | .red => "\x1b[31m".toList
  | .green => "\x1b[32m".toList
  | .yellow => "\x1b[33m".toList
  | .bold => "\x1b[1m".toList

def stop : Style → Text
  | .red | .green | .yellow => "\x1b[39m".toList
  | .bold => "\x1b[0m".toList

def paint (style : Style) (colored : Bool) (text : Text) : Text :=
  if colored then style.start ++ text ++ style.stop else text

end Style

namespace Settings

def loadConfig (settings : Settings) (files : Files) : Except Error Config :=
  (Config.load files (settings.root.getD [])).map fun config => config.getD .default

def options (settings : Settings) (config : Config) : Options :=
  ⟨settings.strict || config.options.strictClosers⟩

end Settings

def readFile (files : Files) (path : Text) : Except Error Text :=
  (files.read path).mapError .file

def readVariable (argument : Text) : Except Error (Text × Value) :=
  match Text.breakAt? ['='] argument with
  | none => .error (.context (.notPair argument))
  | some (written, value) =>
      let name := written.trim
      if name.isEmpty then .error (.context (.emptyName argument))
      else .ok (name, .ofText value)

def addVariables (context : Context) : List Text → Except Error Context
  | [] => .ok context
  | argument :: arguments =>
      match readVariable argument with
      | .error error => .error error
      | .ok (name, value) => addVariables (context.insert name value) arguments

def addFile (files : Files) (context : Context) : Option Text → Except Error Context
  | none => .ok context
  | some path => do
      let text ← readFile files path
      let read ← Context.ofJsonText text
      .ok (context.merge read)

def missingNotes (template : Template) (context : Context) (colored : Bool) : Text :=
  (template.missingVariables context).flatMap fun name =>
    Text.asLine (Style.yellow.paint colored "warning:".toList ++ " variable `".toList ++ name ++
      "` is not set and renders as an empty string".toList)

def runRender (files : Files) (settings : Settings) (colored : Bool) (path : Text)
    (contextPath : Option Text) (assignments : List Text) (expandOnly : Bool) :
    Except Error Outcome := do
  let config ← settings.loadConfig files
  let source ← readFile files path
  let context ← addFile files config.context contextPath
  let context ← addVariables context assignments
  let template := Template.parse (settings.options config) source
  let output := if expandOnly then template.expand context else template.render context
  let notes := if settings.verbose then missingNotes template context colored else []
  .ok (.finished 0 output.endLine notes)

structure FileReport where
  path : Text
  diagnostics : List Diagnostic
  deriving DecidableEq, Repr

namespace FileReport

def ofPaths (files : Files) (options : Options) : List Text → Except Error (List FileReport)
  | [] => .ok []
  | path :: paths => do
      let source ← readFile files path
      let reports ← ofPaths files options paths
      .ok (⟨path, (Template.parse options source).diagnostics⟩ :: reports)

def count (reports : List FileReport) : Nat :=
  (reports.flatMap FileReport.diagnostics).length

/-- A problem that leaves its block in use is a warning only. -/
def severity (colored : Bool) : Diagnostic → Text
  | .mismatchedClose _ _ _ true _ => Style.yellow.paint colored "warning".toList
  | _ => Style.red.paint colored "error".toList

def problemLine (colored : Bool) (path : Text) (diagnostic : Diagnostic) : Text :=
  Text.asLine (severity colored diagnostic ++ ' ' :: path ++
    (":" ++ Diagnostic.placeText diagnostic.point ++ ": " ++ diagnostic.message).toList)

def lines (colored : Bool) (report : FileReport) : Text :=
  if report.diagnostics.isEmpty then
    Text.asLine (Style.green.paint colored "ok".toList ++ ' ' :: report.path)
  else report.diagnostics.flatMap (problemLine colored report.path)

def summary (colored : Bool) (problems : Nat) : Text :=
  if problems = 0 then "\nCheck passed: no problems found.\n".toList
  else
    '\n' :: Text.asLine (Style.bold.paint colored
      ("Check failed: " ++ toString problems ++ " problem(s) found.").toList)

def ofText (text : String) : Json :=
  .string text.toList

def problemJson (diagnostic : Diagnostic) : Json :=
  .object
    [ ("code".toList, ofText diagnostic.code),
      ("column".toList, .number (.integer diagnostic.point.column)),
      ("line".toList, .number (.integer diagnostic.point.line)),
      ("message".toList, ofText diagnostic.message) ]

def json (report : FileReport) : Json :=
  .object
    [ ("file".toList, .string report.path),
      ("problems".toList, .array (report.diagnostics.map problemJson)) ]

def summaryJson (reports : List FileReport) : Json :=
  .object
    [ ("files".toList, .array (reports.map json)),
      ("ok".toList, .bool (count reports = 0)) ]

end FileReport

def runCheck (files : Files) (settings : Settings) (colored : Bool) (paths : List Text)
    (format : Format) : Except Error Outcome := do
  let config ← settings.loadConfig files
  let reports ← FileReport.ofPaths files (settings.options config) paths
  let problems := FileReport.count reports
  let output :=
    match format with
    | .json => Text.asLine (FileReport.summaryJson reports).text
    | .text => reports.flatMap (FileReport.lines colored) ++ FileReport.summary colored problems
  .ok (.finished (if problems = 0 then 0 else 1) output [])

def runListVariables (files : Files) (settings : Settings) (path : Text) :
    Except Error Outcome := do
  let config ← settings.loadConfig files
  let source ← readFile files path
  let template := Template.parse (settings.options config) source
  .ok (.finished 0 (template.variableNames.flatMap Text.asLine) [])

namespace Stop

def versionLine : Text :=
  "blockmail_cli 0.1.0\n".toList

def helpText : Text :=
  ("Render and lint personalized email templates.\n\n" ++
    "Usage: blockmail [OPTIONS] [COMMAND]\n\n" ++
    "Commands:\n" ++
    "  render TEMPLATE [-c|--context FILE] [--var NAME=VALUE]... [--expand-only]\n" ++
    "  check TEMPLATE... [--format text|json]\n" ++
    "  vars TEMPLATE\n\n" ++
    "Options:\n" ++
    "  -p, --path DIR   directory in which blockmail.toml is looked up\n" ++
    "  -v, --verbose    warn of variables that are not set\n" ++
    "      --no-color   print without colours\n" ++
    "      --strict     refuse a block closed by a tag of the other kind\n" ++
    "  -h, --help       print this text\n" ++
    "  -V, --version    print the version\n").toList

end Stop

namespace Invocation

def noCommandNote : Text :=
  "No subcommand specified. Run `blockmail --help` for usage.\n".toList

def run (files : Files) (wantsColor : Bool) (invocation : Invocation) : Outcome :=
  let settings := invocation.settings
  let colored := wantsColor && !settings.noColor
  match invocation.command with
  | none => .finished 1 [] noCommandNote
  | some (.render path context assignments expandOnly) =>
      .ofExcept (runRender files settings colored path context assignments expandOnly)
  | some (.check paths format) => .ofExcept (runCheck files settings colored paths format)
  | some (.listVariables path) => .ofExcept (runListVariables files settings path)

def paths (invocation : Invocation) : List Text :=
  let configs := Config.candidates.map (Files.join (invocation.settings.root.getD []))
  match invocation.command with
  | none => []
  | some (.render path context _ _) => configs ++ path :: context.toList
  | some (.check paths _) => configs ++ paths
  | some (.listVariables path) => configs ++ [path]

end Invocation

end MailTemplate

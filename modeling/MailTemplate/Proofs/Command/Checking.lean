import MailTemplate.Proofs.Command.Rendering
import MailTemplate.Proofs.Command.Reporting
import MailTemplate.Proofs.Position
import MailTemplate.Proofs.Template.Accounting
import MailTemplate.Proofs.Template.Layout

/-!
The command that checks templates. If the configuration and all the templates can be read, both of
its formats and its status tell the problems of the templates; if not, it tells nothing but the
error of the first that cannot be read.
-/

namespace MailTemplate

structure Checking where
  config : Config
  templates : List (Text × Text)

namespace Checking

def reports (checking : Checking) (strict : Bool) : List FileReport :=
  checking.templates.map fun (path, source) =>
    ⟨path, (Template.parse ⟨strict || checking.config.options.strictClosers⟩ source).diagnostics⟩

/-- The error of the first part that cannot be read, when all parts before it can be. -/
inductive Fails (files : Files) (settings : Settings) (paths : List Text) : Error → Prop
  | config {error : Error} (refused : settings.Refuses files error) :
      Fails files settings paths error
  | template {config : Config} {before after : List Text} {path : Text} {cause : FileError}
      (configured : settings.Configures files config) (split : paths = before ++ path :: after)
      (earlier : ∀ other ∈ before, ∃ source, files.read other = .ok source)
      (failed : files.read path = .error cause) : Fails files settings paths (.file cause)

end Checking

variable {files : Files} {settings : Settings} {paths : List Text}

namespace FileReport

variable {options : Options}

end FileReport

namespace Checking

variable {checking : Checking}

def output (colored : Bool) (reports : List FileReport) : Format → Text
  | .json => (FileReport.summaryJson reports).text ++ ['\n']
  | .text =>
      (reports.flatMap FileReport.entries).flatMap (ReportEntry.print colored) ++
        ReportEntry.closing colored (FileReport.total reports)

variable (wantsColor : Bool) (format : Format)

end Checking

namespace Invocation

def crossed : Layout :=
  .block [] .ifTrue [' ', 'a'] (.flat [.text ['x']]) .unlessTrue (.flat [.closing .ifTrue])

end Invocation

end MailTemplate

import MailTemplate.Proofs.Command.Configuring
import MailTemplate.Proofs.Context.Decoders
import MailTemplate.Proofs.Context.Layering
import MailTemplate.Proofs.Text.Splitting

/-!
The command that renders a template. It gathers the configuration, the template, the context of a
file and the variables of its arguments, in this order, and either renders the template with all of
them or prints nothing but the error of the first that cannot be read.
-/

namespace MailTemplate

inductive Text.Assigns (argument : Text) : Text × Value → Prop
  | pair {written raw : Text} (split : argument = written ++ '=' :: raw) (first : '=' ∉ written)
      (named : written.trim ≠ []) : Assigns argument (written.trim, .ofText raw)

inductive Text.AssignsNothing (argument : Text) : ContextFault → Prop
  | notPair (absent : '=' ∉ argument) : AssignsNothing argument (.notPair argument)
  | emptyName {written raw : Text} (split : argument = written ++ '=' :: raw)
      (first : '=' ∉ written) (blank : written.trim = []) :
      AssignsNothing argument (.emptyName argument)

inductive Files.Supplies (files : Files) : Option Text → List Context → Prop
  | nothing : Supplies files none []
  | layer {path text : Text} {context : Context} (read : files.read path = .ok text)
      (decoded : Context.ofJsonText text = .ok context) : Supplies files (some path) [context]

inductive Files.Withholds (files : Files) : Option Text → Error → Prop
  | unread {path : Text} {cause : FileError} (failed : files.read path = .error cause) :
      Withholds files (some path) (.file cause)
  | undecoded {path text : Text} {error : Error} (read : files.read path = .ok text)
      (refused : Context.ofJsonText text = .error error) : Withholds files (some path) error

structure Rendering where
  config : Config
  source : Text
  fileLayers : List Context
  bindings : List (Text × Value)

namespace Rendering

def layers (rendering : Rendering) : List Context :=
  rendering.config.context :: rendering.fileLayers ++
    rendering.bindings.map fun binding => .ofList [binding]

def context (rendering : Rendering) : Context :=
  .layered rendering.layers

def template (rendering : Rendering) (strict : Bool) : Template :=
  Template.parse ⟨strict || rendering.config.options.strictClosers⟩ rendering.source

def output (rendering : Rendering) (strict expandOnly : Bool) : Text :=
  if expandOnly then (rendering.template strict).expand rendering.context
  else (rendering.template strict).render rendering.context

/-- The error of the first part that cannot be read, when all parts before it can be. -/
inductive Fails (files : Files) (settings : Settings) (path : Text) (contextPath : Option Text)
    (assignments : List Text) : Error → Prop
  | config {error : Error} (refused : settings.Refuses files error) :
      Fails files settings path contextPath assignments error
  | source {config : Config} {cause : FileError} (configured : settings.Configures files config)
      (failed : files.read path = .error cause) :
      Fails files settings path contextPath assignments (.file cause)
  | file {config : Config} {source : Text} {error : Error}
      (configured : settings.Configures files config) (read : files.read path = .ok source)
      (withheld : files.Withholds contextPath error) :
      Fails files settings path contextPath assignments error
  | assignment {config : Config} {source : Text} {layers : List Context} {before after : List Text}
      {argument : Text} {fault : ContextFault} (configured : settings.Configures files config)
      (read : files.read path = .ok source) (supplied : files.Supplies contextPath layers)
      (split : assignments = before ++ argument :: after)
      (earlier : ∀ other ∈ before, ∃ binding, other.Assigns binding)
      (nothing : argument.AssignsNothing fault) :
      Fails files settings path contextPath assignments (.context fault)

end Rendering

variable {files : Files} {settings : Settings} {path : Text} {contextPath : Option Text}
  {assignments : List Text}

namespace Rendering

variable (wantsColor expandOnly : Bool)

end Rendering

namespace Invocation

end Invocation

end MailTemplate

import MailTemplate.Json.Writer

/-!
What can go wrong around a template: files, the configuration, and the values for its variables.
-/

namespace MailTemplate

inductive FileError where
  | notFound
  | isDirectory
  | notDirectory
  | notText
  | other (description : String)
  deriving DecidableEq, Repr

namespace FileError

def message : FileError → String
  | .notFound => "No such file or directory (os error 2)"
  | .isDirectory => "Is a directory (os error 21)"
  | .notDirectory => "Not a directory (os error 20)"
  | .notText => "stream did not contain valid UTF-8"
  | .other description => description

end FileError

inductive ContextFault where
  | unreadable
  | notObject (found : Json)
  | notPair (argument : Text)
  | emptyName (argument : Text)
  deriving Repr

inductive ValueFault where
  | nestedObject
  | arrayItem (found : Json)
  deriving Repr

namespace ValueFault

def reason : ValueFault → String
  | .nestedObject => "nested objects are not supported"
  | .arrayItem found =>
      "array items must be strings, found `" ++ String.ofList found.canonical.text ++ "`"

end ValueFault

inductive Error where
  | file (cause : FileError)
  | config
  | context (fault : ContextFault)
  | unsupportedValue (name : Text) (fault : ValueFault)
  | provider (message : Text)
  deriving Repr

namespace Error

/-- The message of an error, where `detail` says what is wrong with a text that cannot be read. -/
def messageWith (detail : String) : Error → String
  | .file cause => cause.message
  | .config => "failed to parse config file: " ++ detail
  | .context fault =>
      "failed to parse template context: " ++
        match fault with
        | .unreadable => detail
        | .notObject found =>
            "expected a JSON object, found `" ++ String.ofList found.canonical.text ++ "`"
        | .notPair argument => "`" ++ String.ofList argument ++ "` is not a NAME=VALUE pair"
        | .emptyName argument =>
            "`" ++ String.ofList argument ++ "` has an empty variable name"
  | .unsupportedValue name fault =>
      "unsupported value for variable `" ++ String.ofList name ++ "`: " ++ fault.reason
  | .provider message => "context provider failed: " ++ String.ofList message

def message (error : Error) : String :=
  error.messageWith "malformed text"

def code : Error → String
  | .file _ => "blockmail::io_error"
  | .config => "blockmail::config_parse"
  | .context _ => "blockmail::context_parse"
  | .unsupportedValue _ _ => "blockmail::unsupported_value"
  | .provider _ => "blockmail::context_provider"

def help? : Error → Option String
  | .file _ => none
  | .config =>
      some ("check that blockmail.toml is valid TOML with [render], [context] and/or [cache] " ++
        "sections")
  | .context _ => some "the context must be a flat JSON object"
  | .unsupportedValue _ _ =>
      some ("variables may only hold strings, booleans, numbers, arrays of strings or null")
  | .provider _ => none

end Error

end MailTemplate

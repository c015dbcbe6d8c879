import MailTemplate.Command.Run

/-!
The configuration that a command has. It stands in the first file that is found at one of three
places below the root of the project; a project without such a file has the default one.
-/

namespace MailTemplate

/-- The first of some paths that leads to a file leads to one with these bytes. -/
def Files.FirstFile (files : Files) (paths : List Text) (bytes : ByteArray) : Prop :=
  ∃ before path after, paths = before ++ path :: after ∧ files.entry path = .file bytes ∧
    ∀ earlier ∈ before, ∀ other, files.entry earlier ≠ .file other

namespace Settings

def configPaths (settings : Settings) : List Text :=
  ["blockmail.toml".toList, ".blockmail.toml".toList, ".config/blockmail.toml".toList].map
    (Files.join (settings.root.getD []))

/-- The configuration of a project is what its file says, and the default one without a file. -/
inductive Configures (settings : Settings) (files : Files) : Config → Prop
  | missing (absent : ∀ path ∈ settings.configPaths, ∀ bytes, files.entry path ≠ .file bytes) :
      Configures settings files ⟨⟨false⟩, .empty, 300⟩
  | read {bytes : ByteArray} {text : String} {document : TomlTable} {config : Config}
      (first : files.FirstFile settings.configPaths bytes)
      (decoded : String.fromUTF8? bytes = some text)
      (parsed : Toml.ofText? text.toList = some document)
      (holds : Config.ofDocument? document = some config) : Configures settings files config

inductive Refuses (settings : Settings) (files : Files) : Error → Prop
  | notText {bytes : ByteArray} (first : files.FirstFile settings.configPaths bytes)
      (undecoded : String.fromUTF8? bytes = none) : Refuses settings files (.file .notText)
  | notToml {bytes : ByteArray} {text : String}
      (first : files.FirstFile settings.configPaths bytes)
      (decoded : String.fromUTF8? bytes = some text)
      (unparsed : Toml.ofText? text.toList = none) : Refuses settings files .config
  | notConfig {bytes : ByteArray} {text : String} {document : TomlTable}
      (first : files.FirstFile settings.configPaths bytes)
      (decoded : String.fromUTF8? bytes = some text)
      (parsed : Toml.ofText? text.toList = some document)
      (holdsNone : Config.ofDocument? document = none) : Refuses settings files .config

end Settings

namespace Files

variable {files : Files} {path : Text}

end Files

namespace Config

variable {files : Files} {root : Text}

end Config

namespace Settings

variable {settings : Settings} {files : Files}

end Settings

end MailTemplate

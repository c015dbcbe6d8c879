import MailTemplate.Command.Run

/-!
The command line: reads the arguments and the files that the command needs, runs the command, and
prints what it leaves behind.
-/

namespace MailTemplate.CommandLine

def causeOf : IO.Error → FileError
  | .noFileOrDirectory _ _ _ => .notFound
  | .inappropriateType _ 21 _ => .isDirectory
  | .inappropriateType _ _ _ => .notDirectory
  | error => .other (toString error)

def readEntry (path : Text) : IO FileEntry := do
  try
    let bytes ← IO.FS.readBinFile (String.ofList path)
    return .file bytes
  catch error =>
    return match causeOf error with
      | .isDirectory => .directory
      | cause => .absent cause

def readFiles (paths : List Text) : IO Files := do
  let entries ← paths.mapM fun path => return (path, ← readEntry path)
  return ⟨fun path =>
    match entries.find? fun entry => entry.1 = path with
    | some (_, entry) => entry
    | none => .absent .notFound⟩

def printText (stream : IO.FS.Stream) (text : Text) : IO Unit := do
  stream.putStr (String.ofList text)
  stream.flush

def printError (stream : IO.FS.Stream) (error : Error) : IO Unit := do
  stream.putStrLn error.code
  stream.putStrLn ("  " ++ error.message)
  match error.help? with
  | some help => stream.putStrLn ("  help: " ++ help)
  | none => pure ()

def execute (arguments : List Text) : IO UInt32 := do
  let output ← IO.getStdout
  let notes ← IO.getStderr
  match Invocation.ofArguments arguments with
  | .error .usage =>
      printText notes Stop.helpText
      return 2
  | .error .version =>
      printText output Stop.versionLine
      return 0
  | .error .help =>
      printText output Stop.helpText
      return 0
  | .ok invocation =>
      let wantsColor := (← IO.getEnv "NO_COLOR").isNone
      let files ← readFiles invocation.paths
      let outcome := invocation.run files wantsColor
      printText notes outcome.notes
      printText output outcome.output
      match outcome.error with
      | some error => printError notes error
      | none => pure ()
      return UInt32.ofNat outcome.status

end MailTemplate.CommandLine

def main (arguments : List String) : IO UInt32 :=
  MailTemplate.CommandLine.execute (arguments.map String.toList)

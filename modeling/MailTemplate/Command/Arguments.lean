import MailTemplate.Text

/-!
The arguments of the command line. They are read from the left, and the first that is wrong, or that
asks for the version or for help, ends the reading.
-/

namespace MailTemplate

inductive Stop where
  | usage
  | version
  | help
  deriving DecidableEq, Repr

inductive Format where
  | text
  | json
  deriving DecidableEq, Repr

structure Settings where
  root : Option Text
  verbose : Bool
  noColor : Bool
  strict : Bool
  deriving DecidableEq, Repr

inductive Command where
  | render (template : Text) (context : Option Text) (assignments : List Text) (expandOnly : Bool)
  | check (templates : List Text) (format : Format)
  | listVariables (template : Text)
  deriving DecidableEq, Repr

structure Invocation where
  settings : Settings
  command : Option Command
  deriving DecidableEq, Repr

inductive Flag where
  | path
  | verbose
  | noColor
  | strict
  | context
  | variable
  | expandOnly
  | format
  | help
  | version
  deriving DecidableEq, Repr

namespace Flag

def longName : Flag → Text
  | .path => "path".toList
  | .verbose => "verbose".toList
  | .noColor => "no-color".toList
  | .strict => "strict".toList
  | .context => "context".toList
  | .variable => "var".toList
  | .expandOnly => "expand-only".toList
  | .format => "format".toList
  | .help => "help".toList
  | .version => "version".toList

def shortName? : Flag → Option Char
  | .path => some 'p'
  | .verbose => some 'v'
  | .context => some 'c'
  | .help => some 'h'
  | .version => some 'V'
  | .noColor | .strict | .variable | .expandOnly | .format => none

def takesValue : Flag → Bool
  | .path | .context | .variable | .format => true
  | .verbose | .noColor | .strict | .expandOnly | .help | .version => false

def formatOf? (value : Text) : Option Format :=
  if value = "text".toList then some .text
  else if value = "json".toList then some .json
  else none

def accepts (value : Text) : Flag → Bool
  | .path | .context => !value.isEmpty
  | .format => (formatOf? value).isSome
  | _ => true

end Flag

inductive Scope where
  | top
  | render
  | check
  | listVariables
  deriving DecidableEq, Repr

namespace Scope

def flags : Scope → List Flag
  | .top => [.path, .verbose, .noColor, .strict, .help, .version]
  | .render => [.path, .verbose, .noColor, .strict, .help, .context, .variable, .expandOnly]
  | .check => [.path, .verbose, .noColor, .strict, .help, .format]
  | .listVariables => [.path, .verbose, .noColor, .strict, .help]

def wordLimit? : Scope → Option Nat
  | .top => some 0
  | .render | .listVariables => some 1
  | .check => none

def longFlag? (scope : Scope) (name : Text) : Option Flag :=
  scope.flags.find? fun flag => flag.longName = name

def shortFlag? (scope : Scope) (name : Char) : Option Flag :=
  scope.flags.find? fun flag => flag.shortName? = some name

def command? (word : Text) : Option Scope :=
  if word = "render".toList then some .render
  else if word = "check".toList then some .check
  else if word = "vars".toList then some .listVariables
  else none

end Scope

structure Given where
  flags : List (Flag × Text)
  words : List Text
  deriving DecidableEq, Repr

namespace Given

def empty : Given := ⟨[], []⟩

def has (given : Given) (flag : Flag) : Bool :=
  given.flags.any fun entry => entry.1 = flag

def values (given : Given) (flag : Flag) : List Text :=
  (given.flags.filter fun entry => entry.1 = flag).map Prod.snd

def addFlag (given : Given) (flag : Flag) (value : Text) : Except Stop Given :=
  if flag = .help then .error .help
  else if flag = .version then .error .version
  else if flag ≠ .variable ∧ given.has flag then .error .usage
  else if flag.accepts value then .ok { given with flags := given.flags ++ [(flag, value)] }
  else .error .usage

def addWord (scope : Scope) (given : Given) (word : Text) : Except Stop Given :=
  if word.isEmpty ∨ scope.wordLimit?.any fun limit => limit ≤ given.words.length then
    .error .usage
  else .ok { given with words := given.words ++ [word] }

/-- Reads flags of one letter that stand together after a dash. The rest after a flag with a value
is its value; without a rest the flag still waits for it. -/
def addCluster (scope : Scope) (given : Given) : Text → Except Stop (Given × Option Flag)
  | [] => .ok (given, none)
  | letter :: rest =>
      match scope.shortFlag? letter with
      | none => .error .usage
      | some flag =>
          if flag.takesValue then
            match rest with
            | [] => .ok (given, some flag)
            | '=' :: value => (given.addFlag flag value).map fun given => (given, none)
            | value => (given.addFlag flag value).map fun given => (given, none)
          else
            match given.addFlag flag [] with
            | .ok given => addCluster scope given rest
            | .error stop => .error stop

def addLong (scope : Scope) (given : Given) (written : Text) :
    Except Stop (Given × Option Flag) :=
  let name := written.takeWhile (· ≠ '=')
  match scope.longFlag? name, written.dropWhile (· ≠ '=') with
  | none, _ => .error .usage
  | some flag, [] =>
      if flag.takesValue then .ok (given, some flag)
      else (given.addFlag flag []).map fun given => (given, none)
  | some flag, _ :: value =>
      if flag.takesValue then (given.addFlag flag value).map fun given => (given, none)
      else .error .usage

end Given

def wordsMark : Text := ['-', '-']

def looksLikeFlag (argument : Text) : Bool :=
  argument.head? = some '-' && argument ≠ ['-']

structure ScopeEnd where
  given : Given
  command : Option (Scope × List Text)
  deriving DecidableEq, Repr

/-- Reads the arguments of a scope. `waiting` is a flag whose value comes next. -/
def readScope (scope : Scope) (given : Given) (waiting : Option Flag) :
    List Text → Except Stop ScopeEnd
  | [] => if waiting.isSome then .error .usage else .ok ⟨given, none⟩
  | argument :: rest =>
      match waiting with
      | some flag =>
          if looksLikeFlag argument then .error .usage
          else
            match given.addFlag flag argument with
            | .ok given => readScope scope given none rest
            | .error stop => .error stop
      | none =>
          if argument = wordsMark then
            match rest.foldlM (Given.addWord scope) given with
            | .ok given => .ok ⟨given, none⟩
            | .error stop => .error stop
          else if looksLikeFlag argument then
            let added :=
              match argument with
              | '-' :: '-' :: written => given.addLong scope written
              | _ :: cluster => given.addCluster scope cluster
              | [] => .error .usage
            match added with
            | .ok (given, waiting) => readScope scope given waiting rest
            | .error stop => .error stop
          else if scope = .top then
            match Scope.command? argument with
            | some command => .ok ⟨given, some (command, rest)⟩
            | none => .error (if argument = "help".toList then .help else .usage)
          else
            match given.addWord scope argument with
            | .ok given => readScope scope given none rest
            | .error stop => .error stop

namespace Settings

def ofGiven (before after : Given) : Settings :=
  let has (flag : Flag) := before.has flag || after.has flag
  { root := (after.values .path ++ before.values .path).head?
    verbose := has .verbose
    noColor := has .noColor
    strict := has .strict }

end Settings

namespace Command

def ofGiven (given : Given) : Scope → Except Stop (Option Command)
  | .top => .ok none
  | .render =>
      match given.words with
      | [template] =>
          .ok (some (.render template (given.values .context).head? (given.values .variable)
            (given.has .expandOnly)))
      | _ => .error .usage
  | .check =>
      let format := ((given.values .format).head?.bind Flag.formatOf?).getD .text
      if given.words.isEmpty then .error .usage else .ok (some (.check given.words format))
  | .listVariables =>
      match given.words with
      | [template] => .ok (some (.listVariables template))
      | _ => .error .usage

end Command

namespace Invocation

def ofArguments (arguments : List Text) : Except Stop Invocation := do
  let top ← readScope .top .empty none arguments
  match top.command with
  | none => .ok ⟨.ofGiven top.given .empty, none⟩
  | some (scope, rest) => do
      let own ← readScope scope .empty none rest
      let command ← Command.ofGiven own.given scope
      .ok ⟨.ofGiven top.given own.given, command⟩

end Invocation

end MailTemplate

import PinnedImports.Pass.Options

/-!
# Command lines

A command line names a command, its settings and its operands. Settings may stand anywhere behind
the command, in a short form of one letter, several of which may share a dash, or in a long form; a
value stands behind an equals sign or in the next argument. Behind `--` everything is an operand.
Only the exclude setting may be given more than once. The host of the registry may also be named
before the command.
-/

set_option autoImplicit false

namespace PinnedImports.Command

/-- The settings of all commands. -/
inductive Setting where
  | apiHost
  | interactive
  | preferRevisions
  | library
  | dryRun
  | verbose
  | json
  | exclude
  | noDefaultExcludes
  | update
deriving DecidableEq

namespace Setting

/-- The name of the long form. -/
def longName : Setting → String
  | apiHost => "api-host"
  | interactive => "interactive"
  | preferRevisions => "prefer-revisions"
  | library => "lib"
  | dryRun => "dry-run"
  | verbose => "verbose"
  | json => "json"
  | exclude => "exclude"
  | noDefaultExcludes => "no-default-excludes"
  | update => "update"

/-- The letter of the short form. -/
def letter? : Setting → Option Char
  | interactive => some 'i'
  | preferRevisions => some 'r'
  | dryRun => some 'n'
  | verbose => some 'v'
  | exclude => some 'e'
  | update => some 'u'
  | _ => none

/-- Whether the setting has a value. -/
def hasValue : Setting → Bool
  | apiHost | library | exclude => true
  | _ => false

/-- Whether the setting may be given more than once. -/
def repeats (setting : Setting) : Bool := setting = exclude

end Setting

/-- The commands. -/
inductive Verb where
  | pin
  | get
  | doc
  | view
deriving DecidableEq

namespace Verb

/-- The command that a word names. -/
def parse? (word : String) : Option Verb :=
  if word = "rewrite" then some pin
  else if word = "get" then some get
  else if word = "doc" then some doc
  else if word = "view" then some view
  else none

/-- The settings that the command knows. -/
def settings : Verb → List Setting
  | pin => [.apiHost, .interactive, .preferRevisions, .library, .dryRun, .verbose, .json,
      .exclude, .noDefaultExcludes]
  | get => [.apiHost, .update, .preferRevisions, .verbose]
  | doc => [.apiHost, .preferRevisions]
  | view => [.apiHost]

end Verb

/-- The settings, with their values, and the operands of a command. -/
structure Given where
  settings : List (Setting × String) := []
  operands : List String := []

namespace Given

/-- Whether a setting is given. -/
def has (given : Given) (setting : Setting) : Bool := given.settings.any (·.1 = setting)

/-- The values of a setting. -/
def values (given : Given) (setting : Setting) : List String :=
  (given.settings.filter (·.1 = setting)).map (·.2)

/-- The value of a setting that is given at most once. -/
def value? (given : Given) (setting : Setting) : Option String := (given.values setting).head?

/-- One setting more, in front; none if it must not be repeated. -/
def add? (given : Given) (setting : Setting) (value : String) : Option Given :=
  if given.has setting && !setting.repeats then none
  else some { given with settings := (setting, value) :: given.settings }

/-- One operand more, in front. -/
def addOperand (given : Given) (operand : String) : Given :=
  { given with operands := operand :: given.operands }

end Given

/-- Whether an argument can be the value of the setting before it, or an operand. -/
def isPlain (argument : String) : Bool :=
  match argument.toList with
  | '-' :: _ :: _ => false
  | _ => true

/-- The settings of the letters behind a dash. The last one may have its value behind it; without
one, it is the setting that waits for a value. -/
def letters? (known : List Setting) :
    List Char → Option (List (Setting × String) × Option Setting)
  | [] => some ([], none)
  | letter :: rest => do
    let setting ← known.find? (·.letter? = some letter)
    if setting.hasValue then
      match rest with
      | [] => return ([], some setting)
      | '=' :: value => return ([(setting, String.ofList value)], none)
      | value => return ([(setting, String.ofList value)], none)
    else
      let (others, waiting) ← letters? known rest
      return ((setting, "") :: others, waiting)

/-- The setting of a long form, without its dashes; a setting without its value waits for it. -/
def long? (known : List Setting) (text : List Char) :
    Option (List (Setting × String) × Option Setting) := do
  let name := String.ofList (text.takeWhile (· != '='))
  let setting ← known.find? (·.longName = name)
  match text.dropWhile (· != '='), setting.hasValue with
  | [], true => return ([], some setting)
  | [], false => return ([(setting, "")], none)
  | _ :: value, true => return ([(setting, String.ofList value)], none)
  | _ :: _, false => none

/-- The settings of an argument that begins with a dash. -/
def settingsOf? (known : List Setting) (argument : String) :
    Option (List (Setting × String) × Option Setting) :=
  match argument.toList with
  | '-' :: '-' :: text => long? known text
  | '-' :: letters => letters? known letters
  | _ => none

/-- One setting after another, in front of what is given. -/
def addAll? (settings : List (Setting × String)) (given : Given) : Option Given :=
  settings.foldr (fun (setting, value) given? => given?.bind (·.add? setting value)) (some given)

/-- What the arguments of a command give. `waiting` is the setting whose value comes next. -/
def given? (known : List Setting) : Option Setting → List String → Option Given
  | none, [] => some { }
  | some _, [] => none
  | some setting, argument :: rest =>
    if isPlain argument then do (← given? known none rest).add? setting argument else none
  | none, argument :: rest =>
    if argument = "--" then some { operands := rest }
    else if isPlain argument then (given? known none rest).map (·.addOperand argument)
    else do
      let (settings, waiting) ← settingsOf? known argument
      addAll? settings (← given? known waiting rest)

/-- A command with its settings and operands. -/
inductive Action where
  | pin (patterns : List String) (options : Pass.Options) (json : Bool)
      (excludes : List String) (defaultExcludes : Bool)
  | get (paths : List String) (update preferRevisions verbose : Bool)
  | doc (path : String) (preferRevisions : Bool)
  | view (path : String)

/-- What a command line asks for: an action, and the host of the registry if it is named. -/
structure Invocation where
  host : Option String
  action : Action

/-- The action of a command with what is given for it. -/
def Verb.action? (verb : Verb) (given : Given) : Option Action :=
  match verb with
  | .pin => do
    let library ←
      match given.value? .library with
      | none => some .auto
      | some word => Pass.LibraryMode.parse? word
    return .pin given.operands
      ⟨given.has .interactive, given.has .preferRevisions, library, given.has .dryRun,
        given.has .verbose⟩
      (given.has .json) (given.values .exclude) (!given.has .noDefaultExcludes)
  | .get =>
    some (.get given.operands (given.has .update) (given.has .preferRevisions)
      (given.has .verbose))
  | .doc =>
    match given.operands with
    | [path] => some (.doc path (given.has .preferRevisions))
    | _ => none
  | .view =>
    match given.operands with
    | [path] => some (.view path)
    | _ => none

/-- What a command line asks for; none if it is not well formed. `host` is the one that has been
named before the command. -/
def Invocation.parseFrom? : Option String → List String → Option Invocation
  | _, [] => none
  | host, argument :: rest =>
    if isPlain argument then do
      let verb ← Verb.parse? argument
      let given ← given? verb.settings none rest
      let action ← verb.action? given
      return ⟨given.value? .apiHost <|> host, action⟩
    else if host.isSome then none
    else
      match settingsOf? [.apiHost] argument with
      | some ([(_, value)], none) => parseFrom? (some value) rest
      | some (_, some _) =>
        match rest with
        | value :: others => if isPlain value then parseFrom? (some value) others else none
        | [] => none
      | _ => none

/-- What a command line asks for; none if it is not well formed. -/
def Invocation.parse? (arguments : List String) : Option Invocation := parseFrom? none arguments

end PinnedImports.Command

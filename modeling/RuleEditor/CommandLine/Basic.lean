import RuleEditor.Catalog.Listing
import RuleEditor.CommandLine.Folder
import RuleEditor.Form.Validation
import RuleEditor.Portable.Import

/-!
# The command line

The commands work on files: a catalog, and a form, a rule or a portable document. A command prints
its result, or writes it to a file if one is given; what goes wrong is printed as an error. All of
it is settled by the contents of the files and of the environment, so that running a command is a
function.

## Main definitions

* `Command`, `Invocation`, `Invocation.ofArgs?` — commands and how they are given.
* `Command.Failure` — why a command fails, with what is printed.
* `Outcome` — what a command prints and writes.
* `Invocation.run` — runs a command.
-/

namespace RuleEditor

/-- A command with the paths of its files. -/
inductive Command where
  /-- Opens a rule as a form, or begins a new one. -/
  | form (catalog : String) (rule output : Option String)
  /-- Lists what is missing in a form. -/
  | validate (catalog form : String)
  /-- Saves a form that is complete as a rule. -/
  | compile (catalog form : String) (output : Option String)
  /-- Turns a rule into a portable document. -/
  | exportRule (rule : String) (output : Option String)
  /-- Turns a portable document into a rule. -/
  | importDocument (document : String) (output : Option String)
  /-- Lists a catalog. -/
  | catalog (catalog : String)
deriving Repr

/-- A command, and whether its result is written compactly. -/
structure Invocation where
  /-- Whether JSON is written without white space. -/
  compact : Bool
  /-- The command. -/
  command : Command
deriving Repr

/-! ## Arguments -/

/-- The options of a command line, with their values. -/
structure Options where
  /-- Whether the switch for compact output was given. -/
  compact : Bool := false
  /-- The options with values. -/
  values : OrderedMap String := []

namespace Options

/-- Splits an option with its value off an argument such as `--name=value`. -/
def assignment? (arg : String) : Option (String × String) :=
  let cs := arg.toList
  let name := cs.takeWhile (· ≠ '=')
  match cs.drop name.length with
  | '=' :: value => some (String.ofList name, String.ofList value)
  | _ => none

/-- Adds an option that may be given once, with a value that is not empty. -/
def add? (o : Options) (allowed : List String) (name value : String) : Option Options :=
  if allowed.contains name && value != "" && !OrderedMap.contains o.values name then
    some { o with values := OrderedMap.insert o.values name value }
  else none

/-- Adds the switch for compact output, which may be given once. -/
def addCompact? (o : Options) : Option Options :=
  if o.compact then none else some { o with compact := true }

/-- Whether an argument can be the value of the option before it. One that begins with a hyphen is
an option itself, unless it is a hyphen alone. -/
def isValue (arg : String) : Bool := arg == "-" || !arg.startsWith "-"

/-- Reads the arguments behind the name of a command. Two hyphens may end them. -/
def ofArgs? (allowed : List String) : List String → Options → Option Options
  | [], o => some o
  | ["--"], o => some o
  | "--compact" :: rest, o => o.addCompact?.bind (ofArgs? allowed rest)
  | [arg], o => (assignment? arg).bind fun (name, value) => o.add? allowed name value
  | arg :: next :: rest, o =>
    match assignment? arg with
    | some (name, value) => (o.add? allowed name value).bind (ofArgs? allowed (next :: rest))
    | none =>
      if isValue next then (o.add? allowed arg next).bind (ofArgs? allowed rest) else none

/-- The value of an option. -/
def get? (o : Options) (name : String) : Option String := OrderedMap.get? o.values name

end Options

namespace Command

/-- The options that a command takes; none if there is no such command. -/
def optionNames? : String → Option (List String)
  | "form" => some ["--catalog", "--rule", "--output"]
  | "validate" => some ["--catalog", "--form"]
  | "compile" => some ["--catalog", "--form", "--output"]
  | "export" => some ["--rule", "--output"]
  | "import" => some ["--doc", "--output"]
  | "catalog" => some ["--catalog"]
  | _ => none

/-- The command of a name with its options; none if one that it needs is missing. -/
def ofOptions? (name : String) (o : Options) : Option Command :=
  match name with
  | "form" => (o.get? "--catalog").map fun c => .form c (o.get? "--rule") (o.get? "--output")
  | "validate" => do
    let catalog ← o.get? "--catalog"
    let form ← o.get? "--form"
    return .validate catalog form
  | "compile" => do
    let catalog ← o.get? "--catalog"
    let form ← o.get? "--form"
    return .compile catalog form (o.get? "--output")
  | "export" => (o.get? "--rule").map fun r => .exportRule r (o.get? "--output")
  | "import" => (o.get? "--doc").map fun d => .importDocument d (o.get? "--output")
  | "catalog" => (o.get? "--catalog").map .catalog
  | _ => none

/-- The paths of the files that a command reads. -/
def inputs : Command → List String
  | .form c r _ => c :: r.toList
  | .validate c f => [c, f]
  | .compile c f _ => [c, f]
  | .exportRule r _ => [r]
  | .importDocument d _ => [d]
  | .catalog c => [c]

end Command

/-- The invocation that the name of a command and its options give. -/
def Invocation.ofCommand? : List String → Option Invocation
  | [] => none
  | name :: rest => do
    let allowed ← Command.optionNames? name
    let options ← Options.ofArgs? allowed rest {}
    let command ← Command.ofOptions? name options
    return { compact := options.compact, command }

/-- The invocation that arguments give: a command with its options. The switch `--compact` may
stand before the command, among its options, or in both places. -/
def Invocation.ofArgs? : List String → Option Invocation
  | "--compact" :: rest => (ofCommand? rest).map fun i => { i with compact := true }
  | args => ofCommand? args

/-! ## Results -/

namespace Command

/-- Why a command fails. -/
inductive Failure where
  /-- The catalog at a path cannot be read. -/
  | catalogFile (path : String) (error : FileError)
  /-- The catalog at a path is no catalog. -/
  | catalogJson (path : String)
  /-- A file cannot be read or written. -/
  | file (error : FileError)
  /-- A file is not what it should be. -/
  | json
  /-- The portable document cannot be read. -/
  | documentFile (error : FileError)
  /-- The portable document is refused. -/
  | document (error : Portable.ImportError)
  /-- The form is not complete. -/
  | invalid (issues : List Issue)

/-- What is printed of a failure. Of a text that is no JSON no more is said than that. -/
def Failure.report : Failure → String
  | .catalogFile path e =>
    "Error: failed to load catalog from `" ++ path ++ "`: " ++ e.message ++ "\n"
  | .catalogJson path => "Error: failed to load catalog from `" ++ path ++ "`: ..."
  | .file e => "Error: io error: " ++ e.message ++ "\n\nCaused by:\n    " ++ e.message ++ "\n"
  | .json => "Error: json error: ..."
  | .documentFile e => "Error: " ++ e.message ++ "\n"
  | .document .invalidJson => "Error: " ++ Portable.ImportError.invalidJson.message ++ "..."
  | .document e => "Error: " ++ e.message ++ "\n"
  | .invalid issues => "Error: " ++ invalidMessage (issues.map Issue.message) ++ "\n"

end Command

/-- What a command prints and writes. -/
structure Outcome where
  /-- The exit code. -/
  code : UInt32 := 0
  /-- What is printed as result. -/
  stdout : String := ""
  /-- What is printed as warning or error. -/
  stderr : String := ""
  /-- The file that is to be written, with its text. -/
  written : Option (String × String) := none

namespace Outcome

/-- The outcome with a failure added. -/
def fail (o : Outcome) (e : Command.Failure) : Outcome :=
  { o with code := 1, stderr := o.stderr ++ e.report, written := none }

/-- The outcome of a command that succeeds or fails. -/
def ofExcept : Except Command.Failure Outcome → Outcome
  | .ok o => o
  | .error e => ({} : Outcome).fail e

/-- The outcome of a text that is printed, or written to a file if one is given. -/
def emit (text : String) (output : Option String) : Outcome :=
  match output with
  | none => { stdout := text ++ "\n" }
  | some path => { written := some (path, text) }

end Outcome

/-! ## Running -/

/-- How files are read. -/
abbrev FileReader := String → Except FileError String

namespace FileReader

/-- The catalog in a file. -/
def catalog (files : FileReader) (path : String) : Except Command.Failure Catalog :=
  match files path with
  | .error e => .error (.catalogFile path e)
  | .ok text =>
    match Catalog.ofText? text with
    | some c => .ok c
    | none => .error (.catalogJson path)

/-- The record in a file. -/
def record {α : Type} (files : FileReader) (read : String → Option α) (path : String) :
    Except Command.Failure α :=
  match files path with
  | .error e => .error (.file e)
  | .ok text =>
    match read text with
    | some a => .ok a
    | none => .error .json

end FileReader

namespace Invocation

/-- The text of a value. -/
def render (i : Invocation) (v : Json) : String := if i.compact then v.compact else v.pretty

/-- What is printed when a form does not show the groups of the rule. -/
def collapsedWarning : String :=
  "warning: the rule mixes and/or groups; the flat condition list drops that grouping\n"

/-- Reads a form; ids are taken from 1 on. -/
def readForm (s : String) : Option Form := (Form.ofText? s 1).1

/-- Runs a command that does not fail, or says why it fails. -/
def attempt (i : Invocation) (env : Environment) (files : FileReader) :
    Except Command.Failure Outcome :=
  match i.command with
  | .form catalogPath rulePath output => do
    let catalog ← files.catalog catalogPath
    let rule ← match rulePath with
      | none => pure none
      | some path => (files.record Rule.ofText? path).map some
    let form := Form.build catalog (Config.ofEnvironment env) 1 rule
    let warning := if form.collapsedNesting then collapsedWarning else ""
    return { Outcome.emit (i.render form.toJson) output with stderr := warning }
  | .validate catalogPath formPath => do
    let catalog ← files.catalog catalogPath
    let form ← files.record readForm formPath
    match form.issues catalog with
    | [] => return { stdout := "Form is valid\n" }
    | issues =>
      let lines := issues.map fun issue => "- " ++ issue.message ++ "\n"
      return ({ stdout := String.join lines } : Outcome).fail (.invalid issues)
  | .compile catalogPath formPath output => do
    let catalog ← files.catalog catalogPath
    let form ← files.record readForm formPath
    let rule ← (form.compile catalog).mapError .invalid
    return .emit (i.render rule.toJson) output
  | .exportRule rulePath output => do
    let rule ← files.record Rule.ofText? rulePath
    return .emit (i.render rule.toDocument.toJson) output
  | .importDocument path output => do
    let text ← (files path).mapError .documentFile
    let rule ← (Portable.importText text).mapError .document
    return .emit (i.render rule.toJson) output
  | .catalog path => do
    let catalog ← files.catalog path
    return { stdout := catalog.table }

/-- Runs a command; a file that is to be written is part of the outcome. -/
def run (i : Invocation) (env : Environment) (files : FileReader) : Outcome :=
  .ofExcept (i.attempt env files)

/-- Runs a command in a folder, which is changed if a file is written. -/
def runIn (i : Invocation) (env : Environment) (folder : Folder) : Outcome × Folder :=
  let outcome := i.run env folder.read
  match outcome.written with
  | none => (outcome, folder)
  | some (path, text) =>
    match folder.write path text with
    | .ok folder => (outcome, folder)
    | .error e => (outcome.fail (.file e), folder)

end Invocation

end RuleEditor

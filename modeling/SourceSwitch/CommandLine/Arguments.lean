import SourceSwitch.Files.Path
import SourceSwitch.Log.Line
import SourceSwitch.Text.Number

namespace SourceSwitch.CommandLine

inductive Command where
  | toTree (files : List Path)
  | toRegistry (files : List Path)
  | refresh
deriving DecidableEq, Repr

inductive Key where
  | root | settings | owner | host | organization | repositoryName | fileName | concurrency
  | dryRun | logFile | logFormat
deriving DecidableEq, Repr

namespace Key

def names : List (Text × Key) :=
  [("root", root), ("config", settings), ("namespace", owner), ("host", host),
    ("organization", organization), ("repository-name", repositoryName), ("file-name", fileName),
    ("concurrency", concurrency), ("dry-run", dryRun), ("log-file", logFile),
    ("log-format", logFormat)]

def isFlag (k : Key) : Bool := k = dryRun

def formats : List (Text × Log.Format) := [("text", .text), ("json", .json)]

/-- Paths are not empty, counts are numbers, and formats have a name. -/
def accepts (k : Key) (value : Text) : Bool :=
  match k with
  | root | settings | logFile => !value.isEmpty
  | concurrency => (Text.readCount? value).isSome
  | logFormat => (formats.lookup value).isSome
  | _ => true

end Key

inductive Stop where
  | usage | help | version
deriving DecidableEq, Repr

abbrev Given := List (Key × Text)

namespace Given

def add (given : Given) (k : Key) (value : Text) : Except Stop Given :=
  if (given.lookup k).isSome || !k.accepts value then .error .usage
  else .ok (given ++ [(k, value)])

end Given

/-- A word that is read as an option: a dash and something behind it. -/
def isOption (word : Text) : Bool :=
  match word with
  | '-' :: _ :: _ => true
  | _ => false

inductive Ask where
  /-- A value, and whether it is the word behind. -/
  | option (k : Key) (value : Text) (takesNext : Bool)
  | stop (s : Stop)

/-- Reads an option word. Only before the command there is a version to ask for. -/
def readOption (beforeCommand : Bool) (word : Text) (next : Option Text) : Ask :=
  match word with
  | '-' :: '-' :: long =>
    let name := long.takeWhile (· ≠ '=')
    let attached := (long.dropWhile (· ≠ '=')).tail?
    match Key.names.lookup name with
    | some k =>
      if k.isFlag then if attached.isNone then .option k [] false else .stop .usage
      else match attached with
        | some value => .option k value false
        | none =>
          match next with
          | some value => if isOption value then .stop .usage else .option k value true
          | none => .stop .usage
    | none =>
      if long = "help".toList then .stop .help
      else if long = "version".toList ∧ beforeCommand then .stop .version
      else .stop .usage
  | '-' :: 'h' :: _ => .stop .help
  | '-' :: 'V' :: _ => if beforeCommand then .stop .version else .stop .usage
  | _ => .stop .usage

def commands : List Text := ["local", "registry", "registry-all", "help"]

def readHelp (words : List Text) : Stop :=
  match words with
  | [] => .help
  | [word] => if commands.contains word then .help else .usage
  | _ => .usage

/-- The words behind a command: options, and files where the command takes them. `verbatim` holds
behind a word `--`. -/
def readTail (takesFiles verbatim : Bool) (given : Given) (files : List Path) :
    List Text → Except Stop (Given × List Path)
  | [] => .ok (given, files)
  | word :: rest =>
    if ¬ verbatim ∧ word = ['-', '-'] then readTail takesFiles true given files rest
    else if ¬ verbatim ∧ isOption word then
      match readOption false word rest.head? with
      | .stop s => .error s
      | .option k value takesNext =>
        match given.add k value with
        | .error s => .error s
        | .ok given => readTail takesFiles verbatim given files (rest.drop takesNext.toNat)
    else if takesFiles ∧ word ≠ [] then readTail takesFiles verbatim given (files ++ [⟨word⟩]) rest
    else .error .usage
termination_by words => words.length
decreasing_by all_goals simp only [List.length_cons, List.length_drop]; omega

def readWords (given : Given) : List Text → Except Stop (Command × Given × Given)
  | [] => .error .usage
  | word :: rest =>
    if word = ['-', '-'] then .error .usage
    else if isOption word then
      match readOption true word rest.head? with
      | .stop s => .error s
      | .option k value takesNext =>
        match given.add k value with
        | .error s => .error s
        | .ok given => readWords given (rest.drop takesNext.toNat)
    else if word = "local".toList then
      (readTail true false [] [] rest).map fun (tail, files) => (.toTree files, given, tail)
    else if word = "registry".toList then
      (readTail true false [] [] rest).map fun (tail, files) => (.toRegistry files, given, tail)
    else if word = "registry-all".toList then
      (readTail false false [] [] rest).map fun (tail, _) => (.refresh, given, tail)
    else if word = "help".toList then .error (readHelp rest)
    else .error .usage
termination_by words => words.length
decreasing_by simp only [List.length_cons, List.length_drop]; omega

/-- A command line as read, with defaults and environment in place. -/
structure Arguments where
  command : Command
  root : Path
  settingsFile : Option Path
  owner : Option Text
  host : Option Text
  organization : Option Text
  repositoryName : Option Text
  fileName : Option Text
  concurrency : Option Nat
  dryRun : Bool
  logFile : Option Path
  logFormat : Log.Format
deriving DecidableEq, Repr

namespace Arguments

def parse (valueOf : Text → Option Text) (words : List Text) : Except Stop Arguments := do
  let (command, before, behind) ← readWords [] words
  let value? (k : Key) : Option Text := behind.lookup k <|> before.lookup k
  return {
    command
    root := ⟨(value? .root).getD "."⟩
    settingsFile := (value? .settings).map Path.mk
    owner := value? .owner <|> valueOf "TF_BOUNCE_NAMESPACE"
    host := value? .host <|> valueOf "TF_BOUNCE_HOST"
    organization := value? .organization <|> valueOf "TF_BOUNCE_ORGANIZATION"
    repositoryName := value? .repositoryName
    fileName := value? .fileName
    concurrency := (value? .concurrency).bind Text.readCount?
    dryRun := (value? .dryRun).isSome
    logFile := (value? .logFile).map Path.mk
    logFormat := ((value? .logFormat).bind (Key.formats.lookup ·)).getD .text }

def files (a : Arguments) : List Path :=
  match a.command with
  | .toTree files | .toRegistry files => files
  | .refresh => []

def paths (a : Arguments) : List Path :=
  a.root :: a.files ++ a.settingsFile.toList ++ a.logFile.toList

end Arguments

end SourceSwitch.CommandLine

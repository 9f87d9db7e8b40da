import SourceSwitch.CommandLine.Arguments
import SourceSwitch.Log.Filter
import SourceSwitch.Registry.Cache
import SourceSwitch.Registry.Client
import SourceSwitch.Rewrite.Batch
import SourceSwitch.Rewrite.Discovery

namespace SourceSwitch.CommandLine

structure Environment where
  valueOf : Text → Option Text
  stamp : Text

/-- A failure that ends a run, with the system's message behind it if there is one. -/
structure Abort where
  message : Text
  cause : Option Text
  code : Nat
deriving DecidableEq, Repr

namespace Abort

def ofFailure (f : Failure) : Abort := ⟨f.message, f.cause?, 1⟩

def report (a : Abort) : Text :=
  "Error: " ++ a.message
    ++ (a.cause.map fun cause => ("\n\nCaused by:\n    " : Text) ++ cause).getD [] ++ "\n"

end Abort

structure Exit where
  code : Nat
  stdout : Text
  stderr : Text
  disk : Disk

def versionText : Text := "tf-bounce 0.1.0\n"

def helpText : Text :=
  "Usage: tf-bounce [OPTIONS] <COMMAND>\n\n"
    ++ "Commands: local [FILES], registry [FILES], registry-all\n"
    ++ "Options: " ++ (", " : Text).intercalate (Key.names.map fun (name, _) => "--" ++ name)
    ++ "\n"

/-- The file that log lines go to: its folder, then the file itself, is created. -/
def openLog (d : Disk) (p : Path) : Except Abort (Disk × Path) :=
  match p.fileName? with
  | none => .error ⟨"Invalid log file path: " ++ p.text, none, 1⟩
  | some name =>
    let folder := match p.parent? with
      | some q => if q.text = [] then ⟨"."⟩ else q
      | none => ⟨"."⟩
    match d.createFolders folder with
    | .error cause =>
      .error ⟨"Failed to create log directory " ++ folder.text, some cause.message, 1⟩
    | .ok d =>
      let file := folder.join name
      match d.ensureFile file with
      | .ok d => .ok (d, file)
      | .error cause => .error ⟨"Failed to open log file " ++ file.text, some cause.message, 101⟩

/-- Appends to a file that is there, as far as the write goes. -/
def append (d : Disk) (p : Path) (t : Text) : Disk :=
  match d.locate p, d.read p with
  | .ok place, .ok content =>
    let bytes := Text.encode t
    d.set place (.file (content ++ (d.writes d.root place bytes).left .empty bytes))
  | _, _ => d

def settings (a : Arguments) (d : Disk) : Except Failure Settings := do
  let default := a.root.join Settings.documentName
  let s ← match a.settingsFile with
    | some path => Settings.load d path
    | none => if d.isFile default then Settings.load d default else .ok Settings.default
  let s : Settings := {
    registry := {
      owner := a.owner.getD s.registry.owner
      host := a.host.getD s.registry.host
      organization := a.organization <|> s.registry.organization }
    fileName := a.fileName.getD s.fileName
    concurrency := a.concurrency.getD s.concurrency }
  s.validate
  return s

def repository (a : Arguments) (d : Disk) : Except Failure Repository :=
  match a.repositoryName with
  | some name => Repository.ofName name
  | none => Repository.discover d a.root

def mode (a : Arguments) (s : Settings) (d : Disk) : Except Failure Mode :=
  match a.command with
  | .toTree _ => (repository a d).map (.toTreeOf · s.registry)
  | .toRegistry _ => (repository a d).map (.toRegistryOf · s.registry)
  | .refresh => .ok (.refreshOf s.registry)

def credentialsFile? (env : Environment) : Option Path :=
  ((env.valueOf "HOME").bind Text.nonempty?).map fun home =>
    Path.join ⟨home⟩ ".terraform.d/credentials.tfrc.json"

def tokenSources (env : Environment) (d : Disk) : List TokenSource :=
  let file := (credentialsFile? env).map fun path => .file path.text (d.readText path).toOption
  .environment env.valueOf :: file.toList

def unresolvedLine (entry : Path × Unresolved) : Text :=
  "  " ++ entry.1.text ++ ":" ++ Text.ofNat entry.2.line ++ " module \"" ++ entry.2.name ++ "\" ("
    ++ entry.2.target ++ ")"

/-- A heading and its lines, or nothing if there are none. -/
def listing (heading : Text) (lines : List Text) : Text :=
  if lines.isEmpty then [] else heading ++ "\n" ++ lines.flatMap (· ++ ['\n'])

def changedLine (dryRun : Bool) (p : Path) : Text :=
  (if dryRun then "Would update " else "Updated " : Text) ++ p.text ++ "\n"

def failedLine (entry : Path × Text) : Text :=
  "Failed " ++ entry.1.text ++ ": " ++ entry.2 ++ "\n"

def summaryText (s : Summary) (dryRun : Bool) : Text :=
  s.changed.flatMap (changedLine dryRun) ++ s.failed.flatMap failedLine
    ++ listing "Not published, left unchanged:" (s.notPublished.map unresolvedLine)
    ++ listing "Unresolved, left unchanged:"
      (s.errors.map fun entry => unresolvedLine entry ++ ": " ++ entry.2.reason.text)
    ++ s.counts ++ "\n"

structure Report where
  stdout : Text
  abort : Option Abort
  events : List Log.Event
  disk : Disk

def Report.failed (d : Disk) (f : Failure) : Report := ⟨[], some (.ofFailure f), [], d⟩

def rewrite {σ : Type} (env : Environment) (http : Http σ) (a : Arguments) (d : Disk) (s : σ) :
    Report :=
  match settings a d with
  | .error f => .failed d f
  | .ok settings =>
    match mode a settings d with
    | .error f => .failed d f
    | .ok mode =>
      let found : Discovery.Found :=
        if a.files.isEmpty then Discovery.run d a.root settings.fileName else ⟨a.files, []⟩
      if found.paths.isEmpty then
        ⟨"No " ++ settings.fileName ++ " files found under " ++ a.root.text ++ "\n", none,
          found.events, d⟩
      else
        let client := Client.ofPath settings.registry.apiPath (tokenSources env d)
        let ask := Lookup.cached (client.lookup http)
        let ((summary, events), d, _) := Batch.run ask mode a.dryRun found.paths d (Cache.empty, s)
        let abort : Option Abort :=
          if summary.hasFailures then
            some ⟨Text.ofNat summary.failed.length ++ " file(s) failed", none, 1⟩
          else none
        ⟨summaryText summary a.dryRun, abort, found.events ++ events, d⟩

def finish (env : Environment) (a : Arguments) (log : Option Path) (r : Report) : Exit :=
  let filter := Log.Filter.ofSetting (env.valueOf "RUST_LOG")
  let lines := (r.events.filter filter.passes).flatMap
    (Log.Line.render a.logFormat log.isNone env.stamp)
  let complaint := (r.abort.map Abort.report).getD []
  let code := (r.abort.map (·.code)).getD 0
  match log with
  | some file => ⟨code, r.stdout, complaint, append r.disk file lines⟩
  | none => ⟨code, r.stdout, lines ++ complaint, r.disk⟩

/-- Runs the program with the words of its command line. -/
def run {σ : Type} (env : Environment) (http : Http σ) (words : List Text) (d : Disk) (s : σ) :
    Exit :=
  match Arguments.parse env.valueOf words with
  | .error .version => ⟨0, versionText, [], d⟩
  | .error .help => ⟨0, helpText, [], d⟩
  | .error .usage => ⟨2, [], helpText, d⟩
  | .ok a =>
    match a.logFile with
    | none => finish env a none (rewrite env http a d s)
    | some p =>
      match openLog d p with
      | .error abort => ⟨abort.code, [], abort.report, d⟩
      | .ok (d, file) => finish env a (some file) (rewrite env http a d s)

end SourceSwitch.CommandLine

import SourceSwitch.Files.Disk
import SourceSwitch.Repository

namespace SourceSwitch

inductive Failure where
  | repositoryName (name : Text)
  | settings (fault : SettingsFault)
  | settingsDocument (path : Path)
  | read (path : Path) (cause : Files.Fault)
  | write (path : Path) (cause : Files.Fault)
deriving DecidableEq, Repr

namespace Failure

def notSettings : Text := "not a settings document"

def message : Failure → Text
  | repositoryName name =>
    "Invalid repository name '" ++ name ++ "': expected terraform-<provider>-<module>"
  | settings .noOwner => "Registry namespace is not configured"
  | settings .noConcurrency => "Invalid configuration: concurrency must be at least 1"
  | settingsDocument path => "Invalid configuration: " ++ path.text ++ ": " ++ notSettings
  | read path cause => "Failed to read " ++ path.text ++ ": " ++ cause.message
  | write path cause => "Failed to write " ++ path.text ++ ": " ++ cause.message

/-- The system's own message behind a failure. -/
def cause? : Failure → Option Text
  | read _ cause | write _ cause => some cause.message
  | _ => none

end Failure

namespace Settings

def load (d : Disk) (path : Path) : Except Failure Settings :=
  match d.readText path with
  | .error cause => .error (.read path cause)
  | .ok content =>
    match decode? content with
    | some s => .ok s
    | none => .error (.settingsDocument path)

def validate (s : Settings) : Except Failure Unit :=
  match s.fault? with
  | some fault => .error (.settings fault)
  | none => .ok ()

end Settings

namespace Repository

def ofName (name : Text) : Except Failure Repository :=
  match ofName? name with
  | some r => .ok r
  | none => .error (.repositoryName name)

/-- The nearest folder from a path upwards that holds `.git`, or else the path itself. -/
def rootOf (d : Disk) (start : Path) : Path :=
  (start.ancestors.find? fun p => d.pathExists (p.join ".git")).getD start

/-- The repository that a path lies in, by its folder's name. -/
def discover (d : Disk) (start : Path) : Except Failure Repository :=
  let root := rootOf d ((d.canonical? start).getD start)
  match root.fileName? with
  | some name => ofName name
  | none => .error (.repositoryName root.text)

end Repository

end SourceSwitch

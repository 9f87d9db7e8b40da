import SourceSwitch.Failure
import SourceSwitch.Rewrite.Content

namespace SourceSwitch

structure FileReport where
  path : Path
  changed : Bool
  unresolved : List Unresolved
deriving DecidableEq, Repr

namespace FileReport

def of (path : Path) (t : Transformation) : FileReport := ⟨path, t.changed, t.unresolved⟩

end FileReport

structure FileOutcome where
  result : Except Failure FileReport
  events : List Log.Event

namespace FileOutcome

def unwritten (path : Path) (t : Transformation) : FileOutcome :=
  let what : Text := if t.changed then "Would update " else "No changes for "
  ⟨.ok (.of path t), t.events ++ [.debug .rewriting (what ++ path.text)]⟩

def written (mode : Mode) (path : Path) (t : Transformation) (result : Except Files.Fault Unit) :
    FileOutcome :=
  match result with
  | .ok () =>
    ⟨.ok (.of path t),
      t.events ++ [.info .rewriting ("Updated " ++ path.text ++ " (" ++ mode.name ++ ")")]⟩
  | .error cause => ⟨.error (.write path cause), t.events⟩

end FileOutcome

/-- Reads, transforms and, if it changed, writes a file along a course that depends on the disk and
on the bytes. -/
def rewriteFileAlong {σ : Type} (course : Disk → ByteArray → Disk.Course) (ask : Lookup σ)
    (mode : Mode) (dryRun : Bool) (path : Path) (d : Disk) (s : σ) : FileOutcome × Disk × σ :=
  match d.readText path with
  | .error cause => (⟨.error (.read path cause), []⟩, d, s)
  | .ok content =>
    let (t, s) := transform ask mode content s
    if t.changed ∧ ¬ dryRun then
      let bytes := Text.encode t.content
      let (result, d) := d.write (course d bytes) path bytes
      (.written mode path t result, d, s)
    else (.unwritten path t, d, s)

def rewriteFile {σ : Type} (ask : Lookup σ) (mode : Mode) (dryRun : Bool) (path : Path)
    (d : Disk) (s : σ) : FileOutcome × Disk × σ :=
  rewriteFileAlong (·.course path) ask mode dryRun path d s

end SourceSwitch

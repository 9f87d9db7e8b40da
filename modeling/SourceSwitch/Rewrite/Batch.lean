import SourceSwitch.Rewrite.File

namespace SourceSwitch

structure Summary where
  changed : List Path
  unchanged : List Path
  failed : List (Path × Text)
  unresolved : List (Path × Unresolved)
deriving DecidableEq, Repr

namespace Summary

def empty : Summary := ⟨[], [], [], []⟩

def record (s : Summary) (path : Path) : Except Failure FileReport → Summary
  | .ok r =>
    let s := { s with unresolved := s.unresolved ++ r.unresolved.map (path, ·) }
    if r.changed then { s with changed := s.changed ++ [path] }
    else { s with unchanged := s.unchanged ++ [path] }
  | .error e => { s with failed := s.failed ++ [(path, e.message)] }

def failedLe (a b : Path × Text) : Bool := ((compare a.1 b.1).then (compare a.2 b.2)).isLE

def unresolvedLe (a b : Path × Unresolved) : Bool :=
  ((compare a.1 b.1).then (compare a.2.line b.2.line)).isLE

def sorted (s : Summary) : Summary where
  changed := s.changed.mergeSort Path.le
  unchanged := s.unchanged.mergeSort Path.le
  failed := s.failed.mergeSort failedLe
  unresolved := s.unresolved.mergeSort unresolvedLe

def hasFailures (s : Summary) : Bool := !s.failed.isEmpty

def notPublished (s : Summary) : List (Path × Unresolved) :=
  s.unresolved.filter (·.2.reason = .notPublished)

def errors (s : Summary) : List (Path × Unresolved) :=
  s.unresolved.filter (·.2.reason ≠ .notPublished)

/-- `1 changed, 2 unchanged, 0 failed`. -/
def counts (s : Summary) : Text :=
  Text.ofNat s.changed.length ++ " changed, " ++ Text.ofNat s.unchanged.length ++ " unchanged, "
    ++ Text.ofNat s.failed.length ++ " failed"

end Summary

namespace Batch

def rewriteAll {σ : Type} (ask : Lookup σ) (mode : Mode) (dryRun : Bool) :
    List Path → Disk → σ → List (Path × FileOutcome) × Disk × σ
  | [], d, s => ([], d, s)
  | path :: rest, d, s =>
    let (outcome, d, s) := rewriteFile ask mode dryRun path d s
    let (outcomes, d, s) := rewriteAll ask mode dryRun rest d s
    ((path, outcome) :: outcomes, d, s)

def failureEvent? (path : Path) (outcome : FileOutcome) : Option Log.Event :=
  match outcome.result with
  | .ok _ => none
  | .error e => some (.error .batch ("Failed to process " ++ path.text ++ ": " ++ e.message))

def summarize (outcomes : List (Path × FileOutcome)) : Summary :=
  (outcomes.foldl (fun (s : Summary) (path, outcome) => s.record path outcome.result) .empty).sorted

def run {σ : Type} (ask : Lookup σ) (mode : Mode) (dryRun : Bool) (paths : List Path) (d : Disk)
    (s : σ) : (Summary × List Log.Event) × Disk × σ :=
  let (outcomes, d, s) := rewriteAll ask mode dryRun paths d s
  let summary := summarize outcomes
  let opening := Log.Event.info .batch
    ("Processing " ++ Text.ofNat paths.length ++ " file(s) in " ++ mode.name ++ " mode")
  let events := opening :: outcomes.flatMap (·.2.events)
    ++ outcomes.filterMap (fun (path, outcome) => failureEvent? path outcome)
    ++ [.info .batch summary.counts]
  ((summary, events), d, s)

end Batch

end SourceSwitch

import SourceSwitch.Proofs.Rewrite.Pool
import SourceSwitch.Rewrite.Batch

namespace SourceSwitch

open Files (Fault)

/-- No file failed in being written. -/
def WritesSucceed (outcomes : List (Path × FileOutcome)) : Prop :=
  ∀ x ∈ outcomes, ∀ path cause, x.2.result ≠ .error (.write path cause)

namespace Disk

def roomy (d : Disk) : Disk := { d with writes := .free }

variable {d : Disk} {p : Path} {content : ByteArray}

theorem isSteady_of_free (h : d.writes = .free) : d.IsSteady := by
  rw [IsSteady, h]
  exact fun _ _ _ _ => rfl

theorem write_roomy (h : (d.write (d.course p content) p content).1 = .ok ()) :
    d.roomy.write (d.roomy.course p content) p content
      = (.ok (), (d.write (d.course p content) p content).2.roomy) := by
  cases hplace : d.locateFile p with
  | error e =>
    simp only [course, hplace, write] at h
    cases h
  | ok place =>
    have hplace' : d.roomy.locateFile p = .ok place := hplace
    simp only [course, hplace, hplace', write, emptied, bind, Except.bind] at h ⊢
    cases hrule : d.writes d.root place content with
    | refused e | cut count e =>
      rw [hrule] at h
      cases h
    | whole => rfl

theorem writes_write (course : Course) (d : Disk) (p : Path) (content : ByteArray) :
    (d.write course p content).2.writes = d.writes := by
  cases hplace : d.locateFile p <;> cases course <;>
    simp only [write, emptied, hplace, bind, Except.bind] <;> rfl

end Disk

theorem FileOutcome.eq_ok_of_written {mode : Mode} {path : Path} {t : Transformation}
    {result : Except Fault Unit}
    (h : ∀ own cause, (written mode path t result).result ≠ .error (.write own cause)) :
    result = .ok () := by
  cases result with
  | ok => rfl
  | error cause => exact absurd rfl (h path cause)

section InTurn

variable {σ : Type} {ask : Lookup σ} {mode : Mode} {dryRun : Bool} {path : Path} {d : Disk} {s : σ}

theorem rewriteFile_roomy
    (h : ∀ own cause,
      (rewriteFile ask mode dryRun path d s).1.result ≠ .error (.write own cause)) :
    let done := rewriteFile ask mode dryRun path d s
    rewriteFile ask mode dryRun path d.roomy s = (done.1, done.2.1.roomy, done.2.2) := by
  intro done
  have hroomy : d.roomy.readText path = d.readText path := rfl
  cases hread : d.readText path with
  | error cause =>
    rw [hread] at hroomy
    have hdone : done = _ := rewriteFileAlong_of_error hread
    rw [hdone]
    exact rewriteFileAlong_of_error hroomy
  | ok content =>
    rw [hread] at hroomy
    by_cases hwrite : (transform ask mode content s).1.changed ∧ ¬ dryRun
    · have hdone : done = _ := rewriteFileAlong_of_write hread hwrite
      change ∀ own cause, done.1.result ≠ _ at h
      rw [hdone] at h ⊢
      have hwritten := FileOutcome.eq_ok_of_written h
      rw [rewriteFile, rewriteFileAlong_of_write hroomy hwrite]
      simp only [Disk.write_roomy hwritten, hwritten]
    · have hdone : done = _ := rewriteFileAlong_of_keep hread hwrite
      rw [hdone]
      exact rewriteFileAlong_of_keep hroomy hwrite

theorem writes_rewriteFile (ask : Lookup σ) (mode : Mode) (dryRun : Bool) (path : Path) (d : Disk)
    (s : σ) : (rewriteFile ask mode dryRun path d s).2.1.writes = d.writes := by
  cases hread : d.readText path with
  | error cause => rw [rewriteFile, rewriteFileAlong_of_error hread]
  | ok content =>
    by_cases hwrite : (transform ask mode content s).1.changed ∧ ¬ dryRun
    · rw [rewriteFile, rewriteFileAlong_of_write hread hwrite]
      exact Disk.writes_write _ d path _
    · rw [rewriteFile, rewriteFileAlong_of_keep hread hwrite]

/-- Files that are all written, one after another, are written alike on the roomy disk. -/
theorem rewriteAll_roomy {paths : List Path}
    (h : WritesSucceed (Batch.rewriteAll ask mode dryRun paths d s).1) :
    let done := Batch.rewriteAll ask mode dryRun paths d s
    Batch.rewriteAll ask mode dryRun paths d.roomy s = (done.1, done.2.1.roomy, done.2.2) := by
  induction paths generalizing d s with
  | nil => rfl
  | cons path rest ih =>
    let first := rewriteFile ask mode dryRun path d s
    have hfirst := rewriteFile_roomy (h (path, first.1) List.mem_cons_self)
    have hrest := ih (d := first.2.1) (s := first.2.2)
      fun x hx => h x (List.mem_cons_of_mem _ hx)
    simp only [Batch.rewriteAll, hfirst]
    rw [hrest]

theorem writes_rewriteAll (ask : Lookup σ) (mode : Mode) (dryRun : Bool) (paths : List Path)
    (d : Disk) (s : σ) : (Batch.rewriteAll ask mode dryRun paths d s).2.1.writes = d.writes := by
  induction paths generalizing d s with
  | nil => rfl
  | cons path rest ih =>
    exact (ih _ _).trans (writes_rewriteFile ask mode dryRun path d s)

end InTurn

def Shared.roomy (s : Shared) : Shared := { s with disk := s.disk.roomy }

def Pool.roomy (pool : Pool) : Pool := { pool with shared := pool.shared.roomy }

def Worker.outcome? : Worker → Option FileOutcome
  | finished outcome => some outcome
  | reading | planning _ | asking .. | storing .. | writing _ => none

variable {reply : Coordinates → Reply} {mode : Mode} {dryRun : Bool} {limit : Nat} {path : Path}

theorem Worker.outcome?_eq_none {w : Worker} (h : ¬ w.isFinished) : w.outcome? = none := by
  cases w with
  | finished => exact absurd rfl h
  | reading | planning | asking | storing | writing => rfl

theorem Worker.Step.roomy {w w' : Worker} {s s' : Shared} {call : Option Call}
    (h : Step reply mode dryRun path w s w' s' call)
    (hkept : ∀ outcome, w'.outcome? = some outcome →
      ∀ own cause, outcome.result ≠ .error (.write own cause)) :
    Step reply mode dryRun path w s.roomy w' s'.roomy call := by
  cases h with
  | readFailed hread => exact .readFailed hread
  | read hread => exact .read hread
  | decided hpending hlookup => exact .decided hpending hlookup
  | hit hpending hlookup hget => exact .hit hpending hlookup hget
  | missed hpending hlookup hget => exact .missed hpending hlookup hget
  | failed hanswer => exact .failed hanswer
  | found hanswer => exact .found hanswer
  | stored => exact .stored
  | kept hpending hkeep => exact .kept hpending hkeep
  | changed hpending hwrite => exact .changed hpending hwrite
  | @written _ t result e hdone =>
    cases result with
    | error cause => exact absurd rfl (hkept _ rfl path cause)
    | ok =>
      have hroomy := Disk.write_roomy (congrArg Prod.fst hdone)
      rw [hdone] at hroomy
      exact .written hroomy

theorem Worker.Step.writes_eq {w w' : Worker} {s s' : Shared} {call : Option Call}
    (h : Step reply mode dryRun path w s w' s' call) : s'.disk.writes = s.disk.writes := by
  cases h with
  | written hdone =>
    rw [← Disk.writes_write _ s.disk path, hdone]
  | readFailed | read | decided | hit | missed | failed | found | stored | kept | changed => rfl

namespace Pool

variable {pool next : Pool}

/-- The outcomes so far, the ones that are still to be collected among them. -/
def outcomes (pool : Pool) : List (Path × FileOutcome) :=
  pool.active.filterMap (fun x => x.2.outcome?.map (x.1, ·)) ++ pool.finished

theorem Step.outcomes_subset (h : Step reply mode dryRun limit pool next) :
    pool.outcomes ⊆ next.outcomes := by
  cases h with
  | start active =>
    simp [outcomes, Worker.outcome?]
  | work before hstep =>
    simp only [outcomes, List.filterMap_append, List.filterMap_cons, Option.map_none,
      Worker.outcome?_eq_none hstep.not_isFinished]
    intro x hx
    split <;> grind
  | collect before =>
    simp only [outcomes, List.filterMap_append, List.filterMap_cons, Worker.outcome?,
      Option.map_some]
    intro x hx
    grind

theorem Step.writes_eq (h : Step reply mode dryRun limit pool next) :
    next.shared.disk.writes = pool.shared.disk.writes := by
  cases h with
  | start | collect => rfl
  | work before hstep => exact hstep.writes_eq

theorem Step.roomy (h : Step reply mode dryRun limit pool next)
    (hkept : WritesSucceed next.outcomes) :
    Step reply mode dryRun limit pool.roomy next.roomy := by
  cases h with
  | start active hlimit => exact .start active hlimit
  | collect before => exact .collect before
  | @work before _ _ path w w' _ _ after _ _ hstep =>
    apply Step.work before
    apply hstep.roomy
    intro outcome houtcome
    apply hkept (path, outcome)
    simp [outcomes, houtcome]

/-- A batch whose writes succeed goes alike on the roomy disk. -/
theorem Reaches.roomy (h : Reaches reply mode dryRun limit pool next)
    (hkept : WritesSucceed next.outcomes) :
    Reaches reply mode dryRun limit pool.roomy next.roomy := by
  induction h with
  | refl => exact .refl
  | tail _ hstep ih =>
    exact (ih fun x hx => hkept x (hstep.outcomes_subset hx)).tail (hstep.roomy hkept)

theorem Reaches.writes_eq (h : Reaches reply mode dryRun limit pool next) :
    next.shared.disk.writes = pool.shared.disk.writes := by
  induction h with
  | refl => rfl
  | tail _ hstep ih => exact hstep.writes_eq.trans ih

end Pool

end SourceSwitch

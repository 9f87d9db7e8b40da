import Mathlib.Data.List.Pairwise
import Mathlib.Logic.Relation
import SourceSwitch.Proofs.Rewrite.Worker

namespace SourceSwitch

structure Pool where
  shared : Shared
  waiting : List Path
  active : List (Path × Worker)
  finished : List (Path × FileOutcome)
  answered : List Call

namespace Pool

def start (d : Disk) (cache : Cache) (paths : List Path) : Pool := ⟨⟨d, cache⟩, paths, [], [], []⟩

def IsOver (pool : Pool) : Prop := pool.waiting = [] ∧ pool.active = []

section Machine

variable (reply : Coordinates → Reply) (mode : Mode) (dryRun : Bool) (limit : Nat)

/-- One step of a batch. Files are taken up in their order, so many at a time, and may be done in
any other. -/
inductive Step : Pool → Pool → Prop
  | start (active : List (Path × Worker)) {s : Shared} {path : Path} {waiting : List Path}
      {finished : List (Path × FileOutcome)} {answered : List Call} :
      active.length < max limit 1 →
      Step ⟨s, path :: waiting, active, finished, answered⟩
        ⟨s, waiting, active ++ [(path, .reading)], finished, answered⟩
  | work (before : List (Path × Worker)) {s s' : Shared} {path : Path} {w w' : Worker}
      {call : Option Call} {waiting : List Path} {after : List (Path × Worker)}
      {finished : List (Path × FileOutcome)} {answered : List Call} :
      Worker.Step reply mode dryRun path w s w' s' call →
      Step ⟨s, waiting, before ++ (path, w) :: after, finished, answered⟩
        ⟨s', waiting, before ++ (path, w') :: after, finished, answered ++ call.toList⟩
  | collect (before : List (Path × Worker)) {s : Shared} {path : Path} {outcome : FileOutcome}
      {waiting : List Path} {after : List (Path × Worker)} {finished : List (Path × FileOutcome)}
      {answered : List Call} :
      Step ⟨s, waiting, before ++ (path, .finished outcome) :: after, finished, answered⟩
        ⟨s, waiting, before ++ after, finished ++ [(path, outcome)], answered⟩

def Reaches : Pool → Pool → Prop := Relation.ReflTransGen (Step reply mode dryRun limit)

end Machine

variable {reply : Coordinates → Reply} {mode : Mode} {dryRun : Bool} {limit : Nat}
    {pool next : Pool}

end Pool

/-- How much of a file is still to do: whether it was read, and then the steps that are left. -/
def Worker.rank : Worker → Nat × Nat
  | reading => (1, 0)
  | planning p => (0, 4 * p.pending.length + 3)
  | asking _ _ rest _ => (0, 4 * rest.length + 6)
  | storing _ _ rest _ _ _ => (0, 4 * rest.length + 5)
  | writing _ => (0, 2)
  | finished _ => (0, 1)

def Worker.totalRank : List (Path × Worker) → Nat × Nat
  | [] => (0, 0)
  | (_, w) :: rest => (w.rank.1 + (totalRank rest).1, w.rank.2 + (totalRank rest).2)

theorem Worker.totalRank_append (ws ws' : List (Path × Worker)) : totalRank (ws ++ ws')
    = ((totalRank ws).1 + (totalRank ws').1, (totalRank ws).2 + (totalRank ws').2) := by
  induction ws with
  | nil => simp [totalRank]
  | cons x ws ih =>
    obtain ⟨path, w⟩ := x
    rw [List.cons_append, totalRank, totalRank, ih]
    simp only [Nat.add_assoc]

theorem Worker.Step.rank_lt {reply : Coordinates → Reply} {mode : Mode} {dryRun : Bool}
    {path : Path} {w w' : Worker} {s s' : Shared} {call : Option Call}
    (h : Step reply mode dryRun path w s w' s' call) :
    w'.rank.1 < w.rank.1 ∨ w'.rank.1 = w.rank.1 ∧ w'.rank.2 < w.rank.2 := by
  cases h with
  | readFailed | read => exact .inl Nat.zero_lt_one
  | decided hpending | hit hpending | missed hpending =>
    refine .inr ⟨rfl, ?_⟩
    simp only [Worker.rank, hpending, Progress.decide, List.length_cons]
    omega
  | failed | found | stored | kept | changed | written =>
    refine .inr ⟨rfl, ?_⟩
    simp only [Worker.rank, Progress.decide]
    omega

namespace Pool

variable {reply : Coordinates → Reply} {mode : Mode} {dryRun : Bool} {limit : Nat}
    {pool next : Pool}

def rank (pool : Pool) : Nat × Nat :=
  (2 * pool.waiting.length + (Worker.totalRank pool.active).1, (Worker.totalRank pool.active).2)

theorem Step.rank_lt (h : Step reply mode dryRun limit pool next) :
    Prod.Lex (· < ·) (· < ·) next.rank pool.rank := by
  rw [Prod.lex_def]
  cases h with
  | start =>
    simp only [rank, Worker.totalRank_append, Worker.totalRank, Worker.rank, List.length_cons]
    omega
  | work before hstep =>
    have hrank := hstep.rank_lt
    simp only [rank, Worker.totalRank_append, Worker.totalRank]
    omega
  | collect =>
    simp only [rank, Worker.totalRank_append, Worker.totalRank, Worker.rank]
    omega

theorem wellFounded_step (reply : Coordinates → Reply) (mode : Mode) (dryRun : Bool) (limit : Nat) :
    WellFounded fun next pool => Step reply mode dryRun limit pool next :=
  Subrelation.wf Step.rank_lt
    (InvImage.wf rank (Prod.lex ⟨_, Nat.lt_wfRel.wf⟩ ⟨_, Nat.lt_wfRel.wf⟩).wf)

theorem exists_step (h : ¬ pool.IsOver) : ∃ next, Step reply mode dryRun limit pool next := by
  obtain ⟨s, waiting, active, finished, answered⟩ := pool
  cases active with
  | nil =>
    cases waiting with
    | nil => exact absurd ⟨rfl, rfl⟩ h
    | cons path waiting => exact ⟨_,
      .start [] (Nat.lt_of_lt_of_le Nat.zero_lt_one (Nat.le_max_right _ _))⟩
  | cons x active =>
    obtain ⟨path, w⟩ := x
    by_cases hw : w.isFinished
    · cases w with
      | finished outcome => exact ⟨_, .collect []⟩
      | reading | planning | asking | storing | writing => cases hw
    · obtain ⟨w', s', call, hstep⟩ := Worker.exists_step hw s
      exact ⟨_, .work [] hstep⟩

end Pool

/-- Paths of different files. -/
structure AreDistinct (d : Disk) (paths : List Path) : Prop where
  path : paths.Pairwise fun p q => p.components ≠ q.components
  file : paths.Pairwise fun p q => ∀ place, d.locate p = .ok place → d.locate q ≠ .ok place

namespace AreDistinct

variable {d : Disk} {paths : List Path} {p q : Path}

theorem nodup (h : AreDistinct d paths) : paths.Nodup := by
  apply h.path.imp
  rintro p q hne rfl
  exact hne rfl

theorem eq_of_components (h : AreDistinct d paths) (hp : p ∈ paths) (hq : q ∈ paths)
    (heq : p.components = q.components) : p = q := by
  by_contra hne
  have hsymm : Std.Symm fun p q : Path => p.components ≠ q.components := ⟨fun _ _ => Ne.symm⟩
  exact h.path.forall hp hq hne heq

theorem locate_ne (h : AreDistinct d paths) (hp : p ∈ paths) (hq : q ∈ paths) (hne : p ≠ q)
    {place : List Text} (hplace : d.locate p = .ok place) : d.locate q ≠ .ok place := by
  have hsymm : Std.Symm fun p q : Path =>
      ∀ place, d.locate p = .ok place → d.locate q ≠ .ok place :=
    ⟨fun _ _ hapart place hq hp => hapart place hp hq⟩
  exact h.file.forall hp hq hne place hplace

end AreDistinct

theorem Disk.frame_update (e : Disk) (new : Option (List Text × ByteArray)) :
    (e.update new).frame = e.frame := by
  cases new with
  | none => rfl
  | some x => exact Disk.frame_replace e x.1 x.2

theorem Disk.update_comm (e : Disk) {new new' : Option (List Text × ByteArray)}
    (hne : ∀ place bytes place' bytes', new = some (place, bytes) → new' = some (place', bytes') →
      place ≠ place') : (e.update new).update new' = (e.update new').update new := by
  cases new with
  | none => rfl
  | some x =>
    cases new' with
    | none => rfl
    | some y => exact Disk.replace_comm (hne _ _ _ _ rfl rfl) e _ _

section After

variable (reply : Coordinates → Reply) (mode : Mode) (dryRun : Bool) (d : Disk)

def diskAfter (ps : List Path) : Disk :=
  ps.foldl (fun e p => e.update (update? reply mode dryRun d p)) d

/-- What the batch writes into other files does not change how a file is written. Where one write
takes the room that another one needs, their order decides which of them fails. -/
def AreIndependent (paths : List Path) : Prop :=
  ∀ path ∈ paths, ∀ place, d.locate path = .ok place →
    ∀ ps ⊆ paths, (∀ p ∈ ps, d.locate p ≠ .ok place) →
      ∀ bytes, (diskAfter reply mode dryRun d ps).course path bytes = d.course path bytes

variable {reply mode dryRun d} {paths ps ps' : List Path} {path : Path} {place : List Text}

theorem diskAfter_append (ps ps' : List Path) : diskAfter reply mode dryRun d (ps ++ ps')
    = ps'.foldl (fun e p => e.update (update? reply mode dryRun d p))
        (diskAfter reply mode dryRun d ps) :=
  List.foldl_append

theorem frame_foldl_update (e : Disk) (ps : List Path) :
    (ps.foldl (fun e p => e.update (update? reply mode dryRun d p)) e).frame = e.frame := by
  induction ps generalizing e with
  | nil => rfl
  | cons p ps ih => rw [List.foldl_cons, ih, Disk.frame_update]

theorem file?_foldl_update
    (h : ∀ p ∈ ps, ∀ bytes, update? reply mode dryRun d p ≠ some (place, bytes)) (e : Disk) :
    (ps.foldl (fun e p => e.update (update? reply mode dryRun d p)) e).root.file? place
      = e.root.file? place := by
  induction ps generalizing e with
  | nil => rfl
  | cons p ps ih =>
    rw [List.foldl_cons, ih fun q hq => h q (List.mem_cons_of_mem p hq)]
    cases hp : update? reply mode dryRun d p with
    | none => rfl
    | some x =>
      obtain ⟨other, bytes⟩ := x
      apply Disk.file?_replace_of_ne
      rintro rfl
      exact h p List.mem_cons_self bytes hp

/-- The order of the files does not matter. -/
theorem diskAfter_perm (hdistinct : AreDistinct d paths) (hsub : ps ⊆ paths) (h : ps.Perm ps') :
    diskAfter reply mode dryRun d ps = diskAfter reply mode dryRun d ps' := by
  apply h.foldl_eq'
  intro p hp q hq e
  by_cases hpq : p = q
  · rw [hpq]
  · apply Disk.update_comm
    rintro place bytes place' bytes' hnew hnew' rfl
    exact hdistinct.locate_ne (hsub hp) (hsub hq) hpq (locate_of_update? hnew)
      (locate_of_update? hnew')

/-- A file is still as it was while others, in other places, are handled. -/
theorem AreIndependent.agrees (h : AreIndependent reply mode dryRun d paths) (hpath : path ∈ paths)
    (hsub : ps ⊆ paths)
    (hne : ∀ p ∈ ps, ∀ place, d.locate path = .ok place → d.locate p ≠ .ok place) :
    (diskAfter reply mode dryRun d ps).Agrees d path := by
  refine ⟨frame_foldl_update d ps, fun place hplace => ?_, fun place hplace => ?_⟩
  · apply file?_foldl_update
    intro p hp bytes hupdate
    exact hne p hp place hplace (locate_of_update? hupdate)
  · exact h path hpath place hplace ps hsub fun p hp => hne p hp place hplace

theorem Disk.IsSteady.areIndependent (h : d.IsSteady) (paths : List Path) :
    AreIndependent reply mode dryRun d paths :=
  fun path _ _ _ ps _ _ => h.course_congr (frame_foldl_update d ps) path

end After

theorem Worker.Step.not_isFinished {reply : Coordinates → Reply} {mode : Mode} {dryRun : Bool}
    {path : Path} {w w' : Worker} {s s' : Shared} {call : Option Call}
    (h : Step reply mode dryRun path w s w' s' call) : ¬ w.isFinished := by
  cases h <;> exact Bool.false_ne_true

namespace Pool

/-- The paths whose files are as they will stay. -/
def settled (active : List (Path × Worker)) (finished : List (Path × FileOutcome)) : List Path :=
  (active.filter (·.2.isFinished)).map (·.1) ++ finished.map (·.1)

theorem settled_perm (before after : List (Path × Worker)) (path : Path) (w : Worker)
    (finished : List (Path × FileOutcome)) : (settled (before ++ (path, w) :: after) finished).Perm
      (settled (before ++ after) finished ++ if w.isFinished then [path] else []) := by
  rw [List.perm_iff_count]
  intro p
  cases hw : w.isFinished <;>
    simp [settled, hw, List.count_append, List.count_cons]
  omega

def paths (pool : Pool) : List Path :=
  pool.waiting ++ pool.active.map (·.1) ++ pool.finished.map (·.1)

theorem settled_subset (pool : Pool) : settled pool.active pool.finished ⊆ pool.paths := by
  intro p hp
  rw [paths, List.append_assoc]
  apply List.mem_append_right
  rcases List.mem_append.mp hp with hp | hp
  · exact List.mem_append_left _ ((List.filter_sublist.map _).subset hp)
  · exact List.mem_append_right _ hp

section Track

variable (reply : Coordinates → Reply) (mode : Mode) (dryRun : Bool) (d : Disk) (given : List Path)

/-- No file is lost, and what is looked up and remembered is the registry's. -/
structure IsHonest (pool : Pool) : Prop where
  perm : pool.paths.Perm given
  truthful : pool.shared.cache.IsTruthful reply
  answered : ∀ x ∈ pool.answered, x.reply.answer = (reply x.coordinates).answer
  honest : ∀ x ∈ pool.active, x.2.IsHonest reply

/-- Each file of the batch is on the way to what it comes to alone. -/
structure IsOnTrack (pool : Pool) : Prop extends pool.IsHonest reply given where
  onTrack : ∀ x ∈ pool.active, x.2.IsOnTrack reply mode dryRun d x.1
  finished : ∀ x ∈ pool.finished, x.2.result = resultAlone reply mode dryRun d x.1
  disk_eq : pool.shared.disk = diskAfter reply mode dryRun d (settled pool.active pool.finished)

end Track

variable {reply : Coordinates → Reply} {mode : Mode} {dryRun : Bool} {limit : Nat} {d : Disk}
  {given : List Path} {cache : Cache} {pool next : Pool}

theorem isHonest_start (hcache : cache.IsTruthful reply) :
    (start d cache given).IsHonest reply given := by
  refine ⟨?_, hcache, List.forall_mem_nil _, List.forall_mem_nil _⟩
  simp [start, paths]

theorem isOnTrack_start (hcache : cache.IsTruthful reply) :
    (start d cache given).IsOnTrack reply mode dryRun d given :=
  ⟨isHonest_start hcache, List.forall_mem_nil _, List.forall_mem_nil _, rfl⟩

theorem IsOnTrack.settled_subset_given (h : pool.IsOnTrack reply mode dryRun d given) :
    settled pool.active pool.finished ⊆ given := fun _ hp => h.perm.subset (settled_subset pool hp)

theorem IsOnTrack.disk_eq_of_perm {ps : List Path} (h : pool.IsOnTrack reply mode dryRun d given)
    (hdistinct : AreDistinct d given) (hps : (settled pool.active pool.finished).Perm ps) :
    pool.shared.disk = diskAfter reply mode dryRun d ps := by
  rw [h.disk_eq, diskAfter_perm hdistinct h.settled_subset_given hps]

section Step

variable {s s' : Shared} {path : Path} {waiting : List Path}
    {active before after : List (Path × Worker)}
  {finished : List (Path × FileOutcome)} {answered : List Call} {w w' : Worker} {call : Option Call}
  {outcome : FileOutcome}

theorem paths_perm (s s' : Shared) (path : Path) (w : Worker) (waiting : List Path)
    (before after : List (Path × Worker)) (finished : List (Path × FileOutcome))
    (answered answered' : List Call) :
    (Pool.mk s waiting (before ++ (path, w) :: after) finished answered).paths.Perm
      (path :: (Pool.mk s' waiting (before ++ after) finished answered').paths) := by
  rw [List.perm_iff_count]
  intro p
  simp only [paths, List.map_append, List.map_cons, List.count_append, List.count_cons]
  omega

theorem IsHonest.start_step
    (h : (Pool.mk s (path :: waiting) active finished answered).IsHonest reply given) :
    (Pool.mk s waiting (active ++ [(path, .reading)]) finished answered).IsHonest reply given := by
  refine ⟨?_, h.truthful, h.answered, ?_⟩
  · apply List.Perm.trans (paths_perm s s path .reading waiting active [] finished
      answered answered)
    rw [List.append_nil]
    exact h.perm
  · intro x hx
    rcases List.mem_append.mp hx with hx | hx
    · exact h.honest x hx
    · rw [List.mem_singleton.mp hx]
      trivial

theorem IsHonest.work_step (hstep : Worker.Step reply mode dryRun path w s w' s' call)
    (h : (Pool.mk s waiting (before ++ (path, w) :: after) finished answered).IsHonest
      reply given) :
    (Pool.mk s' waiting (before ++ (path, w') :: after) finished
      (answered ++ call.toList)).IsHonest reply given := by
  have hw := h.honest (path, w) (List.mem_append_right _ List.mem_cons_self)
  obtain ⟨htruthful, hw', hcall⟩ := hstep.isHonest hw h.truthful
  refine ⟨?_, htruthful, ?_, ?_⟩
  · exact (paths_perm s' s path w' waiting before after finished (answered ++ call.toList)
      answered).trans
        ((paths_perm s s path w waiting before after finished answered answered).symm.trans h.perm)
  · intro x hx
    rcases List.mem_append.mp hx with hx | hx
    · exact h.answered x hx
    · exact hcall x (Option.mem_toList.mp hx)
  · intro x hx
    rcases List.mem_append.mp hx with hx | hx
    · exact h.honest x (List.mem_append_left _ hx)
    · rcases List.mem_cons.mp hx with rfl | hx
      · exact hw'
      · exact h.honest x (List.mem_append_right _ (List.mem_cons_of_mem _ hx))

theorem IsHonest.collect_step
    (h : (Pool.mk s waiting (before ++ (path, .finished outcome) :: after) finished
      answered).IsHonest reply given) :
    (Pool.mk s waiting (before ++ after) (finished ++ [(path, outcome)]) answered).IsHonest reply
      given := by
  refine ⟨?_, h.truthful, h.answered, ?_⟩
  · refine List.Perm.trans ?_
      ((paths_perm s s path (.finished outcome) waiting before after finished
      answered answered).symm.trans h.perm)
    simp only [paths, List.map_append, List.map_cons, List.map_nil, ← List.append_assoc]
    exact List.perm_append_singleton path _
  · intro x hx
    apply h.honest x
    rcases List.mem_append.mp hx with hx | hx
    · exact List.mem_append_left _ hx
    · exact List.mem_append_right _ (List.mem_cons_of_mem _ hx)

theorem IsOnTrack.start_step
    (h : (Pool.mk s (path :: waiting) active finished answered).IsOnTrack reply mode
      dryRun d given) :
    (Pool.mk s waiting (active ++ [(path, .reading)]) finished answered).IsOnTrack reply mode
      dryRun d given := by
  refine ⟨h.toIsHonest.start_step, ?_, h.finished, ?_⟩
  · intro x hx
    rcases List.mem_append.mp hx with hx | hx
    · exact h.onTrack x hx
    · rw [List.mem_singleton.mp hx]
      trivial
  · apply h.disk_eq.trans
    simp [settled, Worker.isFinished]

theorem IsOnTrack.collect_step (hdistinct : AreDistinct d given)
    (h : (Pool.mk s waiting (before ++ (path, .finished outcome) :: after) finished
      answered).IsOnTrack reply mode dryRun d given) :
    (Pool.mk s waiting (before ++ after) (finished ++ [(path, outcome)]) answered).IsOnTrack reply
      mode dryRun d given := by
  refine ⟨h.toIsHonest.collect_step, ?_, ?_, ?_⟩
  · intro x hx
    apply h.onTrack x
    rcases List.mem_append.mp hx with hx | hx
    · exact List.mem_append_left _ hx
    · exact List.mem_append_right _ (List.mem_cons_of_mem _ hx)
  · intro x hx
    rcases List.mem_append.mp hx with hx | hx
    · exact h.finished x hx
    · rw [List.mem_singleton.mp hx]
      exact h.onTrack (path, .finished outcome) (List.mem_append_right _ List.mem_cons_self)
  · apply h.disk_eq_of_perm hdistinct
    apply (settled_perm before after path (.finished outcome) finished).trans
    rw [settled, settled, List.map_append, ← List.append_assoc]
    exact .rfl

theorem IsOnTrack.exists_disk_eq (hdistinct : AreDistinct d given)
    (hfree : AreIndependent reply mode dryRun d given) (hw : ¬ w.isFinished)
    (h : (Pool.mk s waiting (before ++ (path, w) :: after) finished answered).IsOnTrack reply
      mode dryRun d given) :
    s.disk = diskAfter reply mode dryRun d (settled (before ++ after) finished) ∧
      s.disk.Agrees d path := by
  have hsettled := settled_perm before after path w finished
  rw [if_neg hw, List.append_nil] at hsettled
  have hdisk := h.disk_eq_of_perm hdistinct hsettled
  refine ⟨hdisk, ?_⟩
  have hpaths := (paths_perm s s path w waiting before after finished answered
      answered).symm.trans h.perm
  have hnodup := hpaths.nodup_iff.mpr hdistinct.nodup
  have hmem : path ∈ given := hpaths.subset List.mem_cons_self
  have hsub : settled (before ++ after) finished ⊆ given :=
    fun p hp => h.settled_subset_given (hsettled.mem_iff.mpr hp)
  rw [show s.disk = _ from hdisk]
  apply hfree.agrees hmem hsub
  intro p hp place hplace
  apply hdistinct.locate_ne hmem (hsub hp) _ hplace
  rintro rfl
  exact (List.nodup_cons.mp hnodup).1
    (settled_subset (Pool.mk s waiting (before ++ after) finished answered) hp)

theorem IsOnTrack.work_step (hdistinct : AreDistinct d given)
    (hfree : AreIndependent reply mode dryRun d given)
    (hstep : Worker.Step reply mode dryRun path w s w' s' call)
    (h : (Pool.mk s waiting (before ++ (path, w) :: after) finished answered).IsOnTrack reply
      mode dryRun d given) :
    (Pool.mk s' waiting (before ++ (path, w') :: after) finished
      (answered ++ call.toList)).IsOnTrack reply mode dryRun d given := by
  have hw := h.onTrack (path, w) (List.mem_append_right _ List.mem_cons_self)
  obtain ⟨hdisk, hagrees⟩ := h.exists_disk_eq hdistinct hfree hstep.not_isFinished
  have hhonest := h.toIsHonest.work_step hstep
  refine ⟨hhonest, ?_, h.finished, ?_⟩
  · intro x hx
    rcases List.mem_append.mp hx with hx | hx
    · exact h.onTrack x (List.mem_append_left _ hx)
    · rcases List.mem_cons.mp hx with rfl | hx
      · exact hstep.isOnTrack hw h.truthful hagrees
      · exact h.onTrack x (List.mem_append_right _ (List.mem_cons_of_mem _ hx))
  · change s'.disk = diskAfter reply mode dryRun d
      (settled (before ++ (path, w') :: after) finished)
    rw [hstep.disk_eq hw hagrees, diskAfter_perm hdistinct
      (fun p hp => hhonest.perm.subset (settled_subset _ hp))
      (settled_perm before after path w' finished), diskAfter_append, ← hdisk]
    cases w'.isFinished <;> rfl

end Step

theorem Step.isHonest (h : Step reply mode dryRun limit pool next)
    (hpool : pool.IsHonest reply given) : next.IsHonest reply given := by
  cases h with
  | start active _ => exact hpool.start_step
  | work before hstep => exact hpool.work_step hstep
  | collect before => exact hpool.collect_step

theorem Step.isOnTrack (hdistinct : AreDistinct d given)
    (hfree : AreIndependent reply mode dryRun d given)
    (h : Step reply mode dryRun limit pool next)
    (hpool : pool.IsOnTrack reply mode dryRun d given) :
    next.IsOnTrack reply mode dryRun d given := by
  cases h with
  | start active _ => exact hpool.start_step
  | work before hstep => exact hpool.work_step hdistinct hfree hstep
  | collect before => exact hpool.collect_step hdistinct

theorem Reaches.isHonest (hcache : cache.IsTruthful reply)
    (h : Reaches reply mode dryRun limit (start d cache given) pool) :
    pool.IsHonest reply given := by
  induction h with
  | refl => exact isHonest_start hcache
  | tail _ hstep ih => exact hstep.isHonest ih

theorem Reaches.isOnTrack (hdistinct : AreDistinct d given)
    (hfree : AreIndependent reply mode dryRun d given) (hcache : cache.IsTruthful reply)
    (h : Reaches reply mode dryRun limit (start d cache given) pool) :
    pool.IsOnTrack reply mode dryRun d given := by
  induction h with
  | refl => exact isOnTrack_start hcache
  | tail _ hstep ih => exact hstep.isOnTrack hdistinct hfree ih

end Pool

end SourceSwitch

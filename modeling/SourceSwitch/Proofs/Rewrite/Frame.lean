import SourceSwitch.Proofs.Rewrite.Room
import SourceSwitch.Proofs.Rewrite.Schedule

namespace SourceSwitch

open Files (Fault)
open Pool (resultsAlone)

/-- No two of the paths lead to one place. -/
def AreApart (d : Disk) (paths : List Path) : Prop :=
  paths.Pairwise fun p q => ∀ place, d.locate p = .ok place → d.locate q ≠ .ok place

variable {reply : Coordinates → Reply} {mode : Mode} {dryRun : Bool} {d e : Disk} {path : Path}
  {given ps : List Path} {place : List Text} {bytes : ByteArray}

theorem update?_dryRun (reply : Coordinates → Reply) (mode : Mode) (d : Disk) (path : Path) :
    update? reply mode true d path = none := by
  have hfile := comesTo reply mode true d path
  generalize update? reply mode true d path = new, resultAlone reply mode true d path = result
    at hfile ⊢
  cases hfile with
  | unread | kept => rfl
  | failed hwrite _ => exact absurd rfl hwrite
  | whole _ _ hwrite _ => exact absurd rfl hwrite.2

theorem resultAlone_dryRun_ne_write (reply : Coordinates → Reply) (mode : Mode) (d : Disk)
    (path own : Path) (cause : Fault) :
    resultAlone reply mode true d path ≠ .error (.write own cause) := by
  intro hresult
  have hfile := comesTo reply mode true d path
  rw [hresult] at hfile
  generalize update? reply mode true d path = new at hfile
  cases hfile with
  | failed hdry _ => exact hdry rfl

theorem resultAlone_ne_write (h : d.writes = .free) (path own : Path) (cause : Fault) :
    resultAlone reply mode dryRun d path ≠ .error (.write own cause) := by
  intro hresult
  have hfile := comesTo reply mode dryRun d path
  rw [hresult] at hfile
  generalize update? reply mode dryRun d path = new at hfile
  cases hfile with
  | failed _ hcourse =>
    rw [h] at hcourse
    cases hcourse

theorem resultAlone_roomy
    (h : ∀ own cause, resultAlone reply mode dryRun d path ≠ .error (.write own cause)) :
    resultAlone reply mode dryRun d.roomy path = resultAlone reply mode dryRun d path :=
  congrArg (fun done => done.1.result) (rewriteFile_roomy h)

/-- A dry run comes to what a run comes to whose writes succeed. -/
theorem resultAlone_dryRun (reply : Coordinates → Reply) (mode : Mode) (d : Disk) (path : Path) :
    resultAlone reply mode true d path = resultAlone reply mode false d.roomy path := by
  rw [← resultAlone_roomy (resultAlone_dryRun_ne_write reply mode d path)]
  have hwrite : ∀ own cause,
      resultAlone reply mode false d.roomy path ≠ .error (.write own cause) :=
    resultAlone_ne_write rfl path
  have hfile := comesTo reply mode false d.roomy path
  generalize update? reply mode false d.roomy path = new,
    resultAlone reply mode false d.roomy path = result at hwrite hfile ⊢
  cases hfile with
  | unread hread => exact resultAlone_of_error hread
  | @failed cause _ _ _ _ _ => exact absurd rfl (hwrite path cause)
  | kept hread ht _ | whole hread ht _ _ =>
    exact resultAlone_of_keep hread (congrArg Transformation.quiet ht) (absurd rfl ·.2)

theorem exists_of_update? (hupdate : update? reply mode dryRun d path = some (place, bytes))
    (h : ∀ cause, resultAlone reply mode dryRun d path ≠ .error (.write path cause)) :
    ∃ content, d.readText path = .ok content ∧
      bytes = Text.encode (transform (.constant reply) mode content ()).1.content ∧
      ∃ r, resultAlone reply mode dryRun d path = .ok r ∧ r.changed := by
  have hfile := comesTo reply mode dryRun d path
  rw [hupdate] at hfile
  generalize resultAlone reply mode dryRun d path = result at h hfile ⊢
  cases hfile with
  | @failed cause _ _ _ _ _ => exact absurd rfl (h cause)
  | whole hread ht hwrite _ =>
    subst ht
    exact ⟨_, hread, rfl, _, rfl, hwrite.1⟩

theorem exists_update? {r : FileReport} (h : resultAlone reply mode false d path = .ok r)
    (hchanged : r.changed) :
    ∃ place bytes, update? reply mode false d path = some (place, bytes) := by
  have hfile := comesTo reply mode false d path
  rw [h] at hfile
  generalize update? reply mode false d path = new at hfile ⊢
  cases hfile with
  | kept _ _ hkeep => exact absurd ⟨hchanged, Bool.false_ne_true⟩ hkeep
  | whole => exact ⟨_, _, rfl⟩

theorem AreApart.locate_ne (h : AreApart d (ps ++ path :: given))
    (hplace : d.locate path = .ok place) :
    (∀ p ∈ ps, d.locate p ≠ .ok place) ∧ ∀ p ∈ given, d.locate p ≠ .ok place := by
  obtain ⟨-, hrest, hcross⟩ := List.pairwise_append.mp h
  constructor
  · intro p hp hsame
    exact hcross p hp path List.mem_cons_self place hsame hplace
  · intro p hp
    exact (List.pairwise_cons.mp hrest).1 p hp place hplace

/-- What is written stays, as no other path leads to the place. -/
theorem file?_diskAfter (hapart : AreApart d given) (hpath : path ∈ given)
    (hupdate : update? reply mode dryRun d path = some (place, bytes)) :
    (diskAfter reply mode dryRun d given).root.file? place = some bytes := by
  obtain ⟨before, after, rfl⟩ := List.append_of_mem hpath
  have hplace := locate_of_update? hupdate
  obtain ⟨hbefore, hafter⟩ := hapart.locate_ne hplace
  have hfile : (d.root.file? place).isSome := by
    cases hread : d.readText path with
    | error cause =>
      rw [update?_of_error hread] at hupdate
      cases hupdate
    | ok content =>
      obtain ⟨own, hown, hfile⟩ := Disk.exists_of_read (read_of_readText hread)
      obtain rfl : own = place := Except.ok.inj (hown.symm.trans hplace)
      rw [hfile]
      rfl
  obtain ⟨old, hold⟩ := Option.isSome_iff_exists.mp hfile
  have hkept : (diskAfter reply mode dryRun d before).root.file? place = some old := by
    rw [diskAfter, file?_foldl_update _ d, hold]
    intro p hp other hother
    exact hbefore p hp (locate_of_update? hother)
  rw [diskAfter_append, List.foldl_cons, file?_foldl_update, hupdate, Disk.update,
    Disk.replace_of_file? hkept, Disk.file?_set hkept, if_pos rfl]
  intro p hp other hother
  exact hafter p hp (locate_of_update? hother)

theorem diskAfter_dryRun (reply : Coordinates → Reply) (mode : Mode) (d : Disk) (ps : List Path) :
    diskAfter reply mode true d ps = d := by
  induction ps using List.reverseRecOn with
  | nil => rfl
  | append_singleton ps p ih =>
    rw [diskAfter_append, ih, List.foldl_cons, update?_dryRun]
    rfl

theorem areIndependent_dryRun (reply : Coordinates → Reply) (mode : Mode) (d : Disk)
    (paths : List Path) : AreIndependent reply mode true d paths := by
  intro path _ _ _ ps _ _ bytes
  rw [diskAfter_dryRun]

theorem Summary.mem_changed_iff {results : List (Path × Except Failure FileReport)} :
    path ∈ (gather results).sorted.changed ↔ ∃ r, (path, .ok r) ∈ results ∧ r.changed := by
  rw [sorted, List.mem_mergeSort, gather, List.mem_flatMap]
  constructor
  · rintro ⟨⟨own, e | r⟩, hx, hmem⟩
    · cases hmem
    · obtain rfl := eq_of_mem_changed hmem
      refine ⟨r, hx, ?_⟩
      rw [single_ok] at hmem
      by_contra hr
      rw [if_neg hr] at hmem
      cases hmem
  · rintro ⟨r, hx, hr⟩
    refine ⟨_, hx, ?_⟩
    rw [single_ok, if_pos hr]
    exact List.mem_singleton_self path

/-- The disk differs from the earlier one in the changed files only, and these hold their
transformations. -/
structure IsFramed (reply : Coordinates → Reply) (mode : Mode) (d : Disk) (summary : Summary)
    (after : Disk) : Prop where
  changed : ∀ path ∈ summary.changed, ∃ content, d.readText path = .ok content ∧
    after.readText path = .ok (transform (.constant reply) mode content ()).1.content
  others : ∀ place, (∀ path ∈ summary.changed, d.locate path ≠ .ok place) →
    after.root.file? place = d.root.file? place
  frame_eq : after.frame = d.frame

theorem isFramed_diskAfter (hapart : AreApart d given)
    (h : ∀ path ∈ given, ∀ cause,
      resultAlone reply mode false d path ≠ .error (.write path cause)) :
    IsFramed reply mode d (Summary.gather (resultsAlone reply mode false d given)).sorted
      (diskAfter reply mode false d given) := by
  have hframe : (diskAfter reply mode false d given).frame = d.frame := frame_foldl_update d given
  refine ⟨?_, ?_, hframe⟩
  · intro path hpath
    obtain ⟨r, hr, hchanged⟩ := Summary.mem_changed_iff.mp hpath
    obtain ⟨p, hp, heq⟩ := List.mem_map.mp hr
    obtain ⟨rfl, hresult⟩ := Prod.mk.inj heq
    obtain ⟨place, bytes, hupdate⟩ := exists_update? hresult hchanged
    obtain ⟨content, hread, rfl, -⟩ := exists_of_update? hupdate (h p hp)
    refine ⟨content, hread, ?_⟩
    have hplace := locate_of_update? hupdate
    rw [← Disk.locate_congr hframe] at hplace
    have hbytes := Disk.read_of_locate hplace
    rw [file?_diskAfter hapart hp hupdate] at hbytes
    simp only [Disk.readText, hbytes, bind, Except.bind, Text.decode?_encode]
  · intro place hplace
    apply file?_foldl_update
    intro p hp bytes hupdate
    obtain ⟨-, -, -, r, hresult, hchanged⟩ := exists_of_update? hupdate (h p hp)
    apply hplace p _ (locate_of_update? hupdate)
    rw [Summary.mem_changed_iff]
    exact ⟨r, List.mem_map.mpr ⟨p, hp, by rw [hresult]⟩, hchanged⟩

theorem resultsAlone_dryRun (reply : Coordinates → Reply) (mode : Mode) (d : Disk)
    (given : List Path) :
    resultsAlone reply mode true d given = resultsAlone reply mode false d.roomy given := by
  apply List.map_congr_left
  intro path _
  rw [resultAlone_dryRun]

theorem isFramed_of_roomy (hapart : AreApart d given) {after : Disk}
    (hwrites : after.writes = d.writes)
    (hafter : after.roomy = diskAfter reply mode false d.roomy given) :
    IsFramed reply mode d (Summary.gather (resultsAlone reply mode false d.roomy given)).sorted
      after := by
  have hroomy : AreApart d.roomy given := hapart
  have hframed : IsFramed reply mode d.roomy _ _ :=
    isFramed_diskAfter hroomy fun path _ cause => resultAlone_ne_write rfl path path cause
  rw [← hafter] at hframed
  have hframe : after.roomy.frame = d.roomy.frame := hframed.frame_eq
  refine ⟨hframed.changed, hframed.others, ?_⟩
  rw [Disk.frame, Disk.frame, Disk.mk.injEq] at hframe ⊢
  exact ⟨hframe.1, hframe.2.1, hwrites⟩

section InTurn

variable {σ : Type} {ask : Lookup σ} {kind : σ → Prop} {s : σ}

theorem rewriteFile_of_agrees (hask : ask.Gives kind reply) (mode : Mode) (dryRun : Bool)
    (h : e.Agrees d path) (hs : kind s) :
    let done := rewriteFile ask mode dryRun path e s
    done.1.result = resultAlone reply mode dryRun d path ∧
      done.2.1 = e.update (update? reply mode dryRun d path) ∧ kind done.2.2 := by
  intro done
  have hread := Disk.readText_congr h.frame_eq h.file?_eq
  cases hcontent : d.readText path with
  | error cause =>
    rw [hcontent] at hread
    have hdone : done = _ := rewriteFileAlong_of_error hread
    rw [hdone, resultAlone_of_error hcontent, update?_of_error hcontent]
    exact ⟨rfl, rfl, hs⟩
  | ok content =>
    rw [hcontent] at hread
    obtain ⟨ht, hkind⟩ := transform_of_gives hask mode content hs
    by_cases hwrite : (transform ask mode content s).1.changed ∧ ¬ dryRun
    · have hdone : done = _ := rewriteFileAlong_of_write hread hwrite
      obtain ⟨place, hplace, hwritten⟩ := h.exists_write_eq hcontent
        (Text.encode (transform ask mode content s).1.content)
      simp only [hwritten] at hdone
      rw [hdone, resultAlone_of_write hcontent ht hwrite,
        update?_of_write hplace hcontent ht hwrite]
      exact ⟨rfl, rfl, hkind⟩
    · have hdone : done = _ := rewriteFileAlong_of_keep hread hwrite
      rw [hdone, resultAlone_of_keep hcontent ht hwrite, update?_of_keep hcontent ht hwrite]
      exact ⟨rfl, rfl, hkind⟩

theorem rewriteAll_of_apart (hask : ask.Gives kind reply) (mode : Mode) (dryRun : Bool)
    (hapart : AreApart d (ps ++ given)) (hfree : AreIndependent reply mode dryRun d (ps ++ given))
    (hs : kind s) :
    let done := Batch.rewriteAll ask mode dryRun given (diskAfter reply mode dryRun d ps) s
    done.1.map (fun x => (x.1, x.2.result)) = resultsAlone reply mode dryRun d given ∧
      done.2.1 = diskAfter reply mode dryRun d (ps ++ given) := by
  induction given generalizing ps s with
  | nil =>
    rw [List.append_nil]
    exact ⟨rfl, rfl⟩
  | cons path given ih =>
    have hagrees := hfree.agrees (List.mem_append_right _ List.mem_cons_self)
      (List.subset_append_left ps _) fun p hp _ hplace => (hapart.locate_ne hplace).1 p hp
    obtain ⟨hresult, hdisk, hkind⟩ := rewriteFile_of_agrees hask mode dryRun hagrees hs
    have hnext : (rewriteFile ask mode dryRun path (diskAfter reply mode dryRun d ps) s).2.1
        = diskAfter reply mode dryRun d (ps ++ [path]) := by
      rw [hdisk, diskAfter_append]
      rfl
    rw [← List.singleton_append, ← List.append_assoc] at hapart hfree
    obtain ⟨hresults, hafter⟩ := ih hapart hfree hkind
    rw [← hnext] at hresults hafter
    rw [List.append_assoc, List.singleton_append] at hafter
    refine ⟨?_, hafter⟩
    simp only [Batch.rewriteAll, List.map_cons, hresult, hresults]
    rfl

theorem run_of_apart (hask : ask.Gives kind reply) (mode : Mode) (dryRun : Bool)
    (hapart : AreApart d given) (hfree : AreIndependent reply mode dryRun d given) (hs : kind s) :
    (Batch.rewriteAll ask mode dryRun given d s).1.map (fun x => (x.1, x.2.result))
        = resultsAlone reply mode dryRun d given ∧
      (Batch.run ask mode dryRun given d s).1.1
        = (Summary.gather (resultsAlone reply mode dryRun d given)).sorted ∧
      (Batch.run ask mode dryRun given d s).2.1 = diskAfter reply mode dryRun d given := by
  rw [← List.nil_append given] at hapart hfree
  obtain ⟨hresults, hdisk⟩ := rewriteAll_of_apart hask mode dryRun hapart hfree hs
  refine ⟨hresults, ?_, hdisk⟩
  rw [← hresults]
  exact Summary.summarize_eq _

end InTurn

/-- What a batch and its dry run come to: the dry run leaves the disk as it was; and if no write
fails, the batch changes just the files that it lists, and the dry run lists the same. -/
structure IsFaithful (reply : Coordinates → Reply) (mode : Mode) (d : Disk)
    (outcomes : List (Path × FileOutcome)) (summary drySummary : Summary) (after dryAfter : Disk) :
    Prop where
  dry_disk_eq : dryAfter = d
  framed : WritesSucceed outcomes → IsFramed reply mode d summary after
  summary_eq : WritesSucceed outcomes → drySummary = summary

theorem isFaithful_run {σ : Type} {ask : Lookup σ} {kind : σ → Prop} (hask : ask.Gives kind reply)
    (hapart : AreApart d given) {s : σ} (hs : kind s) (mode : Mode) :
    let real := Batch.run ask mode false given d s
    let dry := Batch.run ask mode true given d s
    IsFaithful reply mode d (Batch.rewriteAll ask mode false given d s).1 real.1.1 dry.1.1
      real.2.1 dry.2.1 := by
  intro real dry
  have hroomy : AreApart d.roomy given := hapart
  have hfree : AreIndependent reply mode false d.roomy given :=
    (Disk.isSteady_of_free rfl).areIndependent given
  obtain ⟨-, hdrySummary, hdryDisk⟩ :=
    run_of_apart hask mode true hapart (areIndependent_dryRun reply mode d given) hs
  obtain ⟨-, hsummary, hdisk⟩ := run_of_apart hask mode false hroomy hfree hs
  have hreal (h : WritesSucceed (Batch.rewriteAll ask mode false given d s).1) :
      real.1.1 = (Batch.run ask mode false given d.roomy s).1.1 ∧
        real.2.1.roomy = (Batch.run ask mode false given d.roomy s).2.1 := by
    simp only [Batch.run, rewriteAll_roomy h]
    exact ⟨rfl, rfl⟩
  constructor
  · exact hdryDisk.trans (diskAfter_dryRun reply mode d given)
  · intro hwrites
    obtain ⟨hsame, hafter⟩ := hreal hwrites
    rw [hsame, hsummary]
    exact isFramed_of_roomy hapart (writes_rewriteAll ask mode false given d s)
      (hafter.trans hdisk)
  · intro hwrites
    rw [(hreal hwrites).1, hsummary, hdrySummary, resultsAlone_dryRun]

theorem isFaithful_of_reaches (hdistinct : AreDistinct d given) {cache : Cache}
    (hcache : cache.IsTruthful reply) {limit : Nat} {real dry : Pool}
    (hreal : Pool.Reaches reply mode false limit (.start d cache given) real) (hover : real.IsOver)
    (hdry : Pool.Reaches reply mode true limit (.start d cache given) dry) (hdryOver : dry.IsOver) :
    IsFaithful reply mode d real.finished (Batch.summarize real.finished)
      (Batch.summarize dry.finished) real.shared.disk dry.shared.disk := by
  have hdryTrack := hdry.isOnTrack hdistinct (areIndependent_dryRun reply mode d given) hcache
  have hroomy : AreDistinct d.roomy given := ⟨hdistinct.path, hdistinct.file⟩
  have hfree : AreIndependent reply mode false d.roomy given :=
    (Disk.isSteady_of_free rfl).areIndependent given
  have htrack (h : WritesSucceed real.finished) :
      real.roomy.IsOnTrack reply mode false d.roomy given := by
    refine Pool.Reaches.isOnTrack hroomy hfree hcache (hreal.roomy ?_)
    rw [Pool.outcomes, hover.2]
    exact h
  constructor
  · rw [hdryTrack.disk_eq_of_isOver hdistinct hdryOver, diskAfter_dryRun]
  · intro hwrites
    have hsummary := (htrack hwrites).summarize_eq hroomy hover
    rw [show Batch.summarize real.finished = _ from hsummary]
    exact isFramed_of_roomy hdistinct.file hreal.writes_eq
      ((htrack hwrites).disk_eq_of_isOver hroomy hover)
  · intro hwrites
    rw [hdryTrack.summarize_eq hdistinct hdryOver, resultsAlone_dryRun]
    exact ((htrack hwrites).summarize_eq hroomy hover).symm

/-- A batch of files in different places changes the ones that it lists as changed, each into its
transformation; and its dry run changes nothing and lists the same. This holds of one file after
another, and, if the paths also differ from each other, of every schedule. -/
theorem isFaithful_batch {σ : Type} {ask : Lookup σ} {kind : σ → Prop} (hask : ask.Gives kind reply)
    (hapart : AreApart d given) {s : σ} (hs : kind s) (mode : Mode) :
    (let real := Batch.run ask mode false given d s
    let dry := Batch.run ask mode true given d s
    IsFaithful reply mode d (Batch.rewriteAll ask mode false given d s).1 real.1.1 dry.1.1
      real.2.1 dry.2.1) ∧
    ((given.Pairwise fun p q => p.components ≠ q.components) →
      ∀ {limit : Nat} {cache : Cache} {real dry : Pool}, cache.IsTruthful reply →
        Pool.Reaches reply mode false limit (.start d cache given) real → real.IsOver →
        Pool.Reaches reply mode true limit (.start d cache given) dry → dry.IsOver →
        IsFaithful reply mode d real.finished (Batch.summarize real.finished)
          (Batch.summarize dry.finished) real.shared.disk dry.shared.disk) := by
  refine ⟨isFaithful_run hask hapart hs mode, ?_⟩
  intro hpath limit cache real dry hcache hreal hover hdry hdryOver
  exact isFaithful_of_reaches ⟨hpath, hapart⟩ hcache hreal hover hdry hdryOver

theorem writesSucceed_rewriteAll {σ : Type} {ask : Lookup σ} {kind : σ → Prop}
    (hask : ask.Gives kind reply) (hapart : AreApart d given) {s : σ} (hs : kind s) (mode : Mode)
    (h : d.writes = .free) : WritesSucceed (Batch.rewriteAll ask mode false given d s).1 := by
  have hfree : AreIndependent reply mode false d given :=
      (Disk.isSteady_of_free h).areIndependent given
  obtain ⟨hresults, -⟩ := run_of_apart hask mode false hapart hfree hs
  intro x hx path cause hresult
  have hmem : (x.1, x.2.result) ∈ resultsAlone reply mode false d given := by
    rw [← hresults]
    exact List.mem_map.mpr ⟨x, hx, rfl⟩
  obtain ⟨p, -, heq⟩ := List.mem_map.mp hmem
  rw [hresult] at heq
  exact resultAlone_ne_write h p path cause (Prod.mk.inj heq).2

theorem isFaithful_batch_threePaths :
    let mode : Mode := .refresh ["acme/"] Host.default
    let d := Pool.twoFiles .free
    let real := Batch.run (.constant vnetOnly) mode false Pool.threePaths d ()
    let dry := Batch.run (.constant vnetOnly) mode true Pool.threePaths d ()
    (Lookup.constant vnetOnly).Gives (fun _ => True) vnetOnly ∧
      AreApart d Pool.threePaths ∧ ⟨"a.tf"⟩ ∈ real.1.1.changed ∧
      IsFramed vnetOnly mode d real.1.1 real.2.1 ∧ dry.1.1 = real.1.1 ∧ dry.2.1 = d := by
  intro mode d real dry
  have hask := (Lookup.isConstant_constant vnetOnly).gives
  have hapart : AreApart d Pool.threePaths := (Pool.areDistinct_threePaths .free).file
  have hwrites := writesSucceed_rewriteAll hask hapart (s := ()) trivial mode rfl
  obtain ⟨hfaithful, -⟩ := isFaithful_batch hask hapart (s := ()) trivial mode
  refine ⟨hask, hapart, ?_, hfaithful.framed hwrites, hfaithful.summary_eq hwrites,
    hfaithful.dry_disk_eq⟩
  have hfree : AreIndependent vnetOnly mode false d Pool.threePaths :=
    (Disk.isSteady_of_free rfl).areIndependent Pool.threePaths
  obtain ⟨-, hsummary, -⟩ := run_of_apart hask mode false hapart hfree (s := ()) trivial
  rw [show real.1.1 = _ from hsummary, Summary.mem_changed_iff]
  have hresult := Pool.resultAlone_twoFiles .free "a.tf" (by decide)
  refine ⟨_, List.mem_map.mpr ⟨⟨"a.tf"⟩, List.mem_cons_self, congrArg _ hresult⟩, ?_⟩
  decide +kernel

end SourceSwitch

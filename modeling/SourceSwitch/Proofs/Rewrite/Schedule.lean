import SourceSwitch.Proofs.Rewrite.Pool
import SourceSwitch.Proofs.Rewrite.Summary

namespace SourceSwitch

namespace Pool

variable {reply : Coordinates → Reply} {mode : Mode} {dryRun : Bool} {limit : Nat} {d : Disk}
  {given : List Path} {cache : Cache} {pool : Pool}

theorem reaches_work (limit : Nat) {s s' : Shared} {path : Path} {w w' : Worker}
    (h : Worker.Runs reply mode dryRun path w s w' s') (waiting : List Path)
    (before after : List (Path × Worker)) (finished : List (Path × FileOutcome))
    (answered : List Call) : ∃ answered', Reaches reply mode dryRun limit
      (Pool.mk s waiting (before ++ (path, w) :: after) finished answered)
      (Pool.mk s' waiting (before ++ (path, w') :: after) finished answered') := by
  induction h generalizing answered with
  | refl => exact ⟨answered, .refl⟩
  | @head _ _ _ _ _ _ call hstep _ ih =>
    obtain ⟨answered', hrest⟩ := ih (answered ++ call.toList)
    exact ⟨answered', .head (.work before hstep) hrest⟩

/-- A file that is taken up may be handled to its end while all others wait. -/
theorem reaches_rewriteFile (reply : Coordinates → Reply) (mode : Mode) (dryRun : Bool)
    (limit : Nat) (d : Disk) (cache : Cache) (path : Path) (waiting : List Path)
    (before after : List (Path × Worker)) (finished : List (Path × FileOutcome))
    (answered : List Call) : ∃ answered',
      let done := rewriteFile (Lookup.constant reply).cached mode dryRun path d (cache, ())
      Reaches reply mode dryRun limit
        (Pool.mk ⟨d, cache⟩ waiting (before ++ (path, .reading) :: after) finished answered)
        (Pool.mk ⟨done.2.1, done.2.2.1⟩ waiting (before ++ after) (finished ++ [(path, done.1)])
          answered') := by
  obtain ⟨answered', hwork⟩ := reaches_work limit
    (Worker.runs_rewriteFile reply mode dryRun path d cache) waiting before after finished answered
  exact ⟨answered', hwork.tail (.collect before)⟩

/-- A batch may handle its files one after another. -/
theorem reaches_rewriteAll (reply : Coordinates → Reply) (mode : Mode) (dryRun : Bool) (limit : Nat)
    (given : List Path) (d : Disk) (cache : Cache) (finished : List (Path × FileOutcome))
    (answered : List Call) : ∃ answered',
      let done := Batch.rewriteAll (Lookup.constant reply).cached mode dryRun given d
        (cache, ())
      Reaches reply mode dryRun limit (Pool.mk ⟨d, cache⟩ given [] finished answered)
        (Pool.mk ⟨done.2.1, done.2.2.1⟩ [] [] (finished ++ done.1) answered') := by
  induction given generalizing d cache finished answered with
  | nil =>
    refine ⟨answered, ?_⟩
    simp only [Batch.rewriteAll, List.append_nil]
    exact .refl
  | cons path given ih =>
    let first := rewriteFile (Lookup.constant reply).cached mode dryRun path d (cache, ())
    obtain ⟨answered₁, hfirst⟩ := reaches_rewriteFile reply mode dryRun limit d cache path given
      [] [] finished answered
    obtain ⟨answered₂, hrest⟩ :=
      ih first.2.1 first.2.2.1 (finished ++ [(path, first.1)]) answered₁
    refine ⟨answered₂, ?_⟩
    have hstart : Step reply mode dryRun limit
        (Pool.mk ⟨d, cache⟩ (path :: given) [] finished answered)
        (Pool.mk ⟨d, cache⟩ given [(path, .reading)] finished answered) :=
      .start [] (Nat.lt_of_lt_of_le Nat.zero_lt_one (Nat.le_max_right _ _))
    apply Relation.ReflTransGen.head hstart
    apply Relation.ReflTransGen.trans hfirst
    simp only [List.append_assoc] at hrest
    exact hrest

theorem exists_of_resultAlone {path : Path} {r : FileReport}
    (h : resultAlone reply mode dryRun d path = .ok r) : ∃ content,
      r.unresolved = (transform (.constant reply) mode content ()).1.unresolved := by
  have hfile := comesTo reply mode dryRun d path
  rw [h] at hfile
  generalize update? reply mode dryRun d path = new at hfile
  cases hfile with
  | @kept content _ _ ht _ => exact ⟨content, congrArg Transformation.unresolved ht⟩
  | @whole content _ _ _ ht _ _ => exact ⟨content, congrArg Transformation.unresolved ht⟩

theorem eq_of_line_unresolved {content : Text} {u v : Unresolved}
    (hu : u ∈ (readBlocks (Text.lines content)).filterMap (mode.unresolved? reply))
    (hv : v ∈ (readBlocks (Text.lines content)).filterMap (mode.unresolved? reply))
    (hline : u.line = v.line) : u = v := by
  have hlines : ((readBlocks (Text.lines content)).filterMap (mode.unresolved? reply)).Pairwise
      fun u v => u.line < v.line :=
    List.pairwise_map.mp (pairwise_line_unresolved _ (pairwise_startLine_readBlocks _))
  have hsymm : Std.Symm fun u v : Unresolved => u.line ≠ v.line := ⟨fun _ _ => Ne.symm⟩
  by_contra hne
  exact (hlines.imp Nat.ne_of_lt).forall hu hv hne hline

def resultsAlone (reply : Coordinates → Reply) (mode : Mode) (dryRun : Bool) (d : Disk)
    (given : List Path) : List (Path × Except Failure FileReport) :=
  given.map fun path => (path, resultAlone reply mode dryRun d path)

theorem isDistinct_resultsAlone (hdistinct : AreDistinct d given) :
    Summary.IsDistinct (resultsAlone reply mode dryRun d given) := by
  constructor
  · intro x hx y hy heq
    obtain ⟨p, hp, rfl⟩ := List.mem_map.mp hx
    obtain ⟨q, hq, rfl⟩ := List.mem_map.mp hy
    rw [hdistinct.eq_of_components hp hq heq]
  · intro path r hr u hu v hv hline
    obtain ⟨p, -, hp⟩ := List.mem_map.mp hr
    obtain ⟨content, hcontent⟩ := exists_of_resultAlone (Prod.mk.inj hp).2
    rw [hcontent, unresolved_transform (Lookup.isConstant_constant reply)] at hu hv
    exact eq_of_line_unresolved hu hv hline

theorem IsHonest.perm_finished (h : pool.IsHonest reply given) (hover : pool.IsOver) :
    (pool.finished.map (·.1)).Perm given := by
  have hperm := h.perm
  rw [paths, hover.1, hover.2] at hperm
  exact hperm

theorem IsOnTrack.results_perm (h : pool.IsOnTrack reply mode dryRun d given)
    (hover : pool.IsOver) :
    (pool.finished.map fun x => (x.1, x.2.result)).Perm
    (resultsAlone reply mode dryRun d given) := by
  apply List.Perm.trans _
    ((h.perm_finished hover).map fun path => (path, resultAlone reply mode dryRun d path))
  rw [List.map_map]
  apply List.Perm.of_eq
  apply List.map_congr_left
  intro x hx
  exact congrArg (Prod.mk x.1) (h.finished x hx)

theorem IsOnTrack.disk_eq_of_isOver (hdistinct : AreDistinct d given)
    (h : pool.IsOnTrack reply mode dryRun d given) (hover : pool.IsOver) :
    pool.shared.disk = diskAfter reply mode dryRun d given := by
  apply h.disk_eq_of_perm hdistinct
  rw [hover.2]
  exact h.perm_finished hover

theorem IsOnTrack.summarize_eq (hdistinct : AreDistinct d given)
    (h : pool.IsOnTrack reply mode dryRun d given) (hover : pool.IsOver) :
    Batch.summarize pool.finished
      = (Summary.gather (resultsAlone reply mode dryRun d given)).sorted := by
  rw [Summary.summarize_eq]
  exact (Summary.sorted_gather_perm (h.results_perm hover).symm
    (isDistinct_resultsAlone hdistinct)).symm

/-- The batch has come to the same as its files one after another. -/
structure IsAsOneByOne (reply : Coordinates → Reply) (mode : Mode) (dryRun : Bool) (d : Disk)
    (cache : Cache) (given : List Path) (pool : Pool) : Prop where
  disk_eq : pool.shared.disk = (Batch.run (Lookup.constant reply).cached mode dryRun given d
    (cache, ())).2.1
  summary_eq : Batch.summarize pool.finished = (Batch.run (Lookup.constant reply).cached mode
    dryRun given d (cache, ())).1.1
  /-- Each file has come to what it comes to without the others. -/
  alone : ∀ x ∈ pool.finished, x.2.result = resultAlone reply mode dryRun d x.1

theorem IsOnTrack.isAsOneByOne (hdistinct : AreDistinct d given)
    (hfree : AreIndependent reply mode dryRun d given) (hcache : cache.IsTruthful reply)
    (h : pool.IsOnTrack reply mode dryRun d given) (hover : pool.IsOver) :
    pool.IsAsOneByOne reply mode dryRun d cache given := by
  obtain ⟨answered, hone⟩ := reaches_rewriteAll reply mode dryRun 1 given d cache [] []
  have hone := Reaches.isOnTrack hdistinct hfree hcache hone
  constructor
  · rw [h.disk_eq_of_isOver hdistinct hover]
    exact (hone.disk_eq_of_isOver hdistinct ⟨rfl, rfl⟩).symm
  · rw [h.summarize_eq hdistinct hover]
    exact (hone.summarize_eq hdistinct ⟨rfl, rfl⟩).symm
  · exact h.finished

theorem IsHonest.perm_summarize (h : pool.IsHonest reply given) (hover : pool.IsOver) :
    (Batch.summarize pool.finished).paths.Perm given := by
  rw [Summary.summarize_eq]
  apply (Summary.perm_paths _).trans
  rw [List.map_map]
  exact h.perm_finished hover

/-- Whatever order the workers' steps fall in, a batch ends, each lookup gets the registry's answer,
and each path stands once among the changed, the unchanged and the failed ones. If the files are
different ones, and what is written into one does not change how another is written, disk and
summary are as if the files had been handled one after another. -/
theorem isAsOneByOne_of_reaches (hcache : cache.IsTruthful reply) (mode : Mode) (dryRun : Bool)
    (limit : Nat) :
    (WellFounded fun next pool => Step reply mode dryRun limit pool next) ∧
    ∀ pool, Reaches reply mode dryRun limit (start d cache given) pool →
      (∀ x ∈ pool.answered, x.reply.answer = (reply x.coordinates).answer) ∧
      (¬ pool.IsOver → ∃ next, Step reply mode dryRun limit pool next) ∧
      (pool.IsOver → (Batch.summarize pool.finished).paths.Perm given) ∧
      (AreDistinct d given → AreIndependent reply mode dryRun d given → pool.IsOver →
        pool.IsAsOneByOne reply mode dryRun d cache given) := by
  refine ⟨wellFounded_step reply mode dryRun limit, ?_⟩
  intro pool hreaches
  have hhonest := hreaches.isHonest hcache
  refine ⟨hhonest.answered, exists_step, hhonest.perm_summarize, ?_⟩
  intro hdistinct hfree hover
  exact (hreaches.isOnTrack hdistinct hfree hcache).isAsOneByOne hdistinct hfree hcache hover

def twoFiles (rule : Disk.WriteRule) : Disk :=
  ⟨.folder [("a.tf", .file (Text.encode publishedContent)),
    ("b.tf", .file (Text.encode publishedContent))], [], rule⟩

def threePaths : List Path := ["a.tf".toList, "b.tf", "c.tf"].map Path.mk

/-- The second file may only be read. -/
def sealing : Disk.WriteRule := fun _ place _ =>
  if place = ["b.tf"] then .refused .denied else .whole

variable (rule : Disk.WriteRule)

theorem locate_twoFiles {name : Text} (hsteps : (⟨name⟩ : Path).steps = [.name name])
    {place : List Text} (h : (twoFiles rule).locate ⟨name⟩ = .ok place) : place = [name] := by
  have hstart : (if (⟨name⟩ : Path).isAbsolute then ([] : List Text) else (twoFiles rule).current)
      = [] := ite_self _
  have hlink : ∀ target, [("a.tf".toList, Tree.file (Text.encode publishedContent)),
      ("b.tf".toList, .file (Text.encode publishedContent))].lookup name ≠ some (.link target) := by
    intro target
    simp only [List.lookup_cons, List.lookup_nil]
    cases name == "a.tf".toList <;> cases name == "b.tf".toList <;> exact nofun
  rw [Disk.locate, Disk.locateFrom, Disk.walkFrom, hstart, hsteps] at h
  split_ifs at h
  exact Disk.walk_name rfl hlink h

theorem areDistinct_threePaths : AreDistinct (twoFiles rule) threePaths := by
  have hapart {name other : Text} (hname : (⟨name⟩ : Path).steps = [.name name])
      (hother : (⟨other⟩ : Path).steps = [.name other]) (hne : name ≠ other) (place : List Text)
      (h : (twoFiles rule).locate ⟨name⟩ = .ok place) :
      (twoFiles rule).locate ⟨other⟩ ≠ .ok place := by
    intro h'
    rw [locate_twoFiles rule hname h] at h'
    exact hne (List.head_eq_of_cons_eq (locate_twoFiles rule hother h'))
  have hsteps : ∀ name ∈ ["a.tf".toList, "b.tf", "c.tf"], (⟨name⟩ : Path).steps = [.name name] := by
    decide
  have hnames : ["a.tf".toList, "b.tf", "c.tf"].Pairwise (· ≠ ·) := by decide
  constructor
  · decide
  · apply List.pairwise_map.mpr
    apply hnames.imp_of_mem
    intro name other hname hother hne
    exact hapart (hsteps name hname) (hsteps other hother) hne

theorem resultAlone_twoFiles (name : Text) (hname : name ∈ ["a.tf".toList, "b.tf"]) :
    let t := (transform (.constant vnetOnly) (.refresh ["acme/"] Host.default)
        publishedContent ()).1
    resultAlone vnetOnly (.refresh ["acme/"] Host.default) false (twoFiles rule) ⟨name⟩
      = (FileOutcome.written (.refresh ["acme/"] Host.default) ⟨name⟩ t
          (rule (twoFiles rule).root [name] (Text.encode t.content)).result).result := by
  intro t
  have hfile : ((twoFiles rule).root.file? [name]) = some (Text.encode publishedContent) := by
    rcases List.mem_pair.mp hname with rfl | rfl <;> rfl
  have hplace : (twoFiles rule).locate ⟨name⟩ = .ok [name] := by
    rcases List.mem_pair.mp hname with rfl | rfl <;>
      exact Disk.locate_entry (by decide) (by decide) (by decide) (by decide) rfl rfl nofun
  have hread := Disk.read_of_locate hplace
  rw [hfile] at hread
  have hcontent : (twoFiles rule).readText ⟨name⟩ = .ok publishedContent := by
    simp only [Disk.readText, hread, bind, Except.bind, Text.decode?_encode]
  have hchanged : t.changed := by decide +kernel
  rw [resultAlone_of_write hcontent rfl ⟨hchanged, Bool.false_ne_true⟩,
    Disk.course_of_locate hplace hfile]
  rfl

/-- One file is rewritten, one cannot be written and one cannot be read. -/
theorem isAsOneByOne_of_reaches_crossed :
    let mode : Mode := .refresh ["acme/"] Host.default
    let d := twoFiles sealing
    Cache.empty.IsTruthful vnetOnly ∧ AreDistinct d threePaths ∧
    AreIndependent vnetOnly mode false d threePaths ∧
    ∃ pool, Reaches vnetOnly mode false 2 (start d .empty threePaths) pool ∧
      pool.finished.map (·.1) = [⟨"b.tf"⟩, ⟨"c.tf"⟩, ⟨"a.tf"⟩] ∧
      (∀ x ∈ pool.answered, x.reply.answer = (vnetOnly x.coordinates).answer) ∧ pool.IsOver ∧
      (Batch.summarize pool.finished).paths.Perm threePaths ∧
      pool.IsAsOneByOne vnetOnly mode false d .empty threePaths ∧
      (∀ x ∈ pool.finished, x.1 = ⟨"b.tf"⟩ → x.2.result = .error (.write ⟨"b.tf"⟩ .denied)) ∧
      ∀ x ∈ pool.finished, x.1 = ⟨"a.tf"⟩ → ∃ r, x.2.result = .ok r ∧ r.changed := by
  intro mode d
  have hdistinct := areDistinct_threePaths sealing
  have hcache := Cache.isTruthful_empty vnetOnly
  have hsteady : d.IsSteady := fun _ _ _ _ => rfl
  have hfree : AreIndependent vnetOnly mode false d threePaths := hsteady.areIndependent threePaths
  refine ⟨hcache, hdistinct, hfree, ?_⟩
  -- The first two files are taken up together, and the first one is done last.
  obtain ⟨answered₁, hb⟩ := reaches_rewriteFile vnetOnly mode false 2 d .empty ⟨"b.tf"⟩
    [⟨"c.tf"⟩] [(⟨"a.tf"⟩, .reading)] [] [] []
  obtain ⟨answered₂, hc⟩ := reaches_rewriteFile vnetOnly mode false 2 _ _ ⟨"c.tf"⟩ []
    [(⟨"a.tf"⟩, .reading)] [] _ answered₁
  obtain ⟨answered₃, ha⟩ := reaches_rewriteFile vnetOnly mode false 2 _ _ ⟨"a.tf"⟩ [] [] [] _
    answered₂
  have hreaches : Reaches vnetOnly mode false 2 (start d .empty threePaths) _ :=
    .head (.start _ (by decide)) (.head (.start _ (by decide)) (hb.trans
      (.head (.start _ (by decide)) (hc.trans ha))))
  obtain ⟨hanswered, -, hperm, hone⟩ :=
    (isAsOneByOne_of_reaches hcache mode false 2).2 _ hreaches
  have hone := hone hdistinct hfree ⟨rfl, rfl⟩
  refine ⟨_, hreaches, rfl, hanswered, ⟨rfl, rfl⟩, hperm ⟨rfl, rfl⟩, hone, ?_, ?_⟩
  · intro x hx hpath
    rw [hone.alone x hx, hpath, resultAlone_twoFiles sealing "b.tf" (by decide)]
    rfl
  · intro x hx hpath
    rw [hone.alone x hx, hpath, resultAlone_twoFiles sealing "a.tf" (by decide)]
    exact ⟨_, rfl, by decide +kernel⟩

end Pool

end SourceSwitch

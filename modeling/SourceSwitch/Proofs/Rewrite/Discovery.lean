import SourceSwitch.Proofs.Files.Walk
import SourceSwitch.Proofs.Files.Writing
import SourceSwitch.Proofs.Rewrite.Summary
import SourceSwitch.Rewrite.Discovery

namespace SourceSwitch.Discovery

/-- A regular file of the name stands at the place, and no folder between the root and the file is
one of a tool. -/
structure IsModuleFile (t : Tree) (name : Text) (place : List Text) : Prop where
  isFile : ∃ content, t.get? place = some (.file content)
  last : place.getLast? = some name
  apart : ∀ folder ∈ place.dropLast, folder ≠ ".git".toList ∧ folder ≠ ".terraform".toList

/-- The paths are those of the files of the name below the root, in the order of components. -/
structure IsExact (root : Path) (t : Tree) (name : Text) (files : List Path) : Prop where
  increasing : files.Pairwise fun p q => compare p.components q.components = .lt
  mem_iff : ∀ p, p ∈ files ↔ ∃ place, IsModuleFile t name place ∧ p = root.below place
  components_eq : ∀ place, IsModuleFile t name place →
    (root.below place).components = root.components ++ place.map .name

variable {root : Path} {t : Tree} {name : Text} {files files' : List Path} {place : List Text}
  {v w : Visit} {visits : List Visit}

theorem IsExact.nodup (h : IsExact root t name files) : files.Nodup := by
  apply h.increasing.imp
  rintro p q hlt rfl
  have hself : compare p.components p.components = .eq := Std.ReflCmp.compare_self
  rw [hself] at hlt
  cases hlt

theorem IsExact.unique (h : IsExact root t name files) (h' : IsExact root t name files') :
    files = files' := by
  apply List.Perm.eq_of_pairwise _ h.increasing h'.increasing
  · apply (List.perm_ext_iff_of_nodup h.nodup h'.nodup).mpr
    intro p
    rw [h.mem_iff, h'.mem_iff]
  · intro p q _ _ hpq hqp
    exact absurd hqp (Std.OrientedCmp.not_lt_of_lt hpq)

theorem not_isTool_iff (folder : Text) :
    ¬ isTool folder ↔ folder ≠ ".git".toList ∧ folder ≠ ".terraform".toList := by
  simp [isTool, toolFolders]

theorem isSkipped_entry (v : Visit) (name : Text) (t : Tree) :
    isSkipped (v.entry name t) = (t.isFolder && isTool name) := by
  simp [isSkipped, Visit.entry]

theorem isFolder_of_isFile (h : t.isFile) : t.isFolder = false := by
  cases t with
  | file content => rfl
  | link | folder => cases h

/-- Only the folders on the way can keep a file out. -/
theorem reaches_of_at? (hv : isSkipped v = false) (h : v.at? place = some w) (hw : w.node.isFile)
    (hplace : ∀ folder ∈ place.dropLast, ¬ isTool folder) : Visit.Reaches isSkipped v w := by
  induction place generalizing v with
  | nil =>
    obtain rfl : v = w := Option.some.inj h
    exact .refl hv
  | cons name place ih =>
    obtain ⟨entries, t, hnode, hmem, h⟩ := Visit.exists_of_at?_cons h
    cases place with
    | nil =>
      obtain rfl : v.entry name t = w := Option.some.inj h
      have hentry : isSkipped (v.entry name t) = false := by
        rw [isSkipped_entry, isFolder_of_isFile (t := t) hw, Bool.false_and]
      exact .entry hv hnode hmem (.refl hentry)
    | cons next place =>
      rw [List.dropLast_cons_cons, List.forall_mem_cons] at hplace
      have hentry : isSkipped (v.entry name t) = false := by
        rw [isSkipped_entry, Bool.eq_false_iff.mpr hplace.1, Bool.and_false]
      exact .entry hv hnode hmem (ih hentry h hplace.2)

theorem exists_of_reaches (h : Visit.Reaches isSkipped v w) (hw : w.node.isFile)
    (hproper : v.node.IsProper) :
    ∃ place, v.at? place = some w ∧ ∀ folder ∈ place.dropLast, ¬ isTool folder := by
  induction h with
  | refl _ => exact ⟨[], Visit.at?_nil _, by simp⟩
  | @entry v w entries name t _ hnode hmem h ih =>
    rw [hnode] at hproper
    obtain ⟨place, hplace, hfolders⟩ := ih hw (hproper.entry hmem).2
    refine ⟨name :: place, ?_, ?_⟩
    · exact (Visit.at?_cons hnode (hproper.lookup_iff.mpr hmem) place).trans hplace
    · cases place with
      | nil => simp
      | cons next place =>
        -- What has entries is a folder, and it was not skipped.
        obtain ⟨inner, _, hinner, -, -⟩ := Visit.exists_of_at?_cons hplace
        obtain rfl : t = .folder inner := hinner
        have hentry := h.not_skipped
        rw [isSkipped_entry] at hentry
        rw [List.dropLast_cons_cons, List.forall_mem_cons]
        exact ⟨Bool.eq_false_iff.mp hentry, hfolders⟩

section Picked

variable {entries : List (Text × Tree)}

theorem exists_reaches_iff (hproper : (Tree.folder entries).IsProper) (p : Path) :
    (∃ v, Visit.Reaches isSkipped (start root (.folder entries)) v ∧ isWanted name v ∧
      v.path = p) ↔
      ∃ place, IsModuleFile (.folder entries) name place ∧ p = root.below place := by
  constructor
  · rintro ⟨v, hreaches, hwanted, rfl⟩
    obtain ⟨hfile, hname⟩ := Bool.and_eq_true_iff.mp hwanted
    obtain ⟨place, hplace, hfolders⟩ := exists_of_reaches hreaches hfile hproper
    obtain ⟨t, ht, rfl⟩ := Option.map_eq_some_iff.mp hplace
    cases t with
    | link | folder => cases hfile
    | file content =>
      have hapart := fun folder hmem => (not_isTool_iff folder).mp (hfolders folder hmem)
      refine ⟨place, ⟨⟨content, ht⟩, ?_, hapart⟩, rfl⟩
      cases hlast : place.getLast? with
      | none =>
        obtain rfl := List.getLast?_eq_none_iff.mp hlast
        cases ht
      | some last =>
        rw [hlast] at hname
        exact congrArg some (of_decide_eq_true hname)
  · rintro ⟨place, ⟨⟨content, ht⟩, hlast, hapart⟩, rfl⟩
    have hfolders := fun folder hmem => (not_isTool_iff folder).mpr (hapart folder hmem)
    let v : Visit := ⟨root.below place, 0 + place.length, name, .file content⟩
    have hplace : (start root (.folder entries)).at? place = some v := by
      simp only [Visit.at?, start, ht, hlast, Option.map_some, Option.getD_some, v]
    have hwanted : isWanted name v = true := by simp [isWanted, Tree.isFile, v]
    exact ⟨v, reaches_of_at? rfl hplace rfl hfolders, hwanted, rfl⟩

theorem isExact_pick (hproper : (Tree.folder entries).IsProper) (hroot : root.text ≠ [])
    (hwalk : Visit.IsWalk isSkipped (start root (.folder entries)) visits) (name : Text) :
    IsExact root (.folder entries) name (pick name visits) := by
  have hdistinct : ((visits.filter (isWanted name)).map Visit.path).Pairwise
      fun p q => p.components ≠ q.components := by
    apply List.pairwise_map.mpr
    apply (hwalk.nodup.filter _).imp_of_mem
    intro v w hv hw hne hcomponents
    have hv' := (hwalk.mem_iff v).mp (List.mem_filter.mp hv).1
    have hw' := (hwalk.mem_iff w).mp (List.mem_filter.mp hw).1
    exact hne (hv'.eq_of_components hw' hproper hroot hcomponents)
  constructor
  · have hsorted := pairwise_mergeSort_isLE (compare : Path → Path → Ordering)
      ((visits.filter (isWanted name)).map Visit.path)
    have hsortedDistinct :=
      ((List.mergeSort_perm _ Path.le).pairwise_iff fun h => Ne.symm h).mpr hdistinct
    apply (hsorted.and hsortedDistinct).imp
    rintro p q ⟨hle, hne⟩
    rcases Ordering.isLE_iff_eq_lt_or_eq_eq.mp hle with hlt | heq
    · exact hlt
    · exact absurd (Path.components_eq_of_compare heq) hne
  · intro p
    rw [← exists_reaches_iff hproper]
    simp only [pick, List.mem_mergeSort, List.mem_map, List.mem_filter, hwalk.mem_iff, and_assoc]
  · rintro place ⟨⟨content, ht⟩, -, -⟩
    exact Path.components_below hroot (hproper.isEntryName ht)

end Picked

theorem text_ne_nil_of_node {d : Disk} (h : d.node root = .ok t) : root.text ≠ [] := by
  intro hroot
  rw [Disk.node, Disk.locate, if_pos hroot] at h
  cases h

theorem paths_run {d : Disk} {entries : List (Text × Tree)}
    (h : d.node root = .ok (.folder entries)) (name : Text) :
    (run d root name).paths
      = pick name ((start root (.folder entries)).walk isSkipped) := by
  have hnode : rootNode? d root = .ok (some (.folder entries)) := by
    rw [rootNode?, h]
    rfl
  simp only [run, Discovery.visits, hnode]

/-- Every walk over the folder that the root leads to gives the same paths, and they are exactly
those of the files of the name. -/
theorem run_isExact {d : Disk} {entries : List (Text × Tree)}
    (hroot : d.node root = .ok (.folder entries)) (hproper : (Tree.folder entries).IsProper)
    (name : Text) :
    IsExact root (.folder entries) name (run d root name).paths ∧
      ∀ visits, Visit.IsWalk isSkipped (start root (.folder entries)) visits →
        pick name visits = (run d root name).paths := by
  have htext := text_ne_nil_of_node hroot
  have hwalk : Visit.IsWalk isSkipped (start root (.folder entries))
      ((start root (.folder entries)).walk isSkipped) := Visit.isWalk_walk hproper htext
  have hexact := isExact_pick hproper htext hwalk name
  rw [paths_run hroot]
  refine ⟨hexact, ?_⟩
  intro visits hvisits
  exact (isExact_pick hproper htext hvisits name).unique hexact

def toolEntries : List (Text × Tree) :=
  [("main.tf", .link ⟨"a/main.tf"⟩), ("a-b", .folder [("main.tf", .file .empty)]),
    (".git", .file .empty),
    ("a", .folder [(".terraform", .folder [("main.tf", .file .empty)]), ("main.tf", .file .empty)])]

/-- They stand in a folder that is itself called like one of a tool. -/
def toolDisk : Disk := ⟨.folder [(".git", .folder toolEntries)], [], .free⟩

theorem node_toolDisk : toolDisk.node ⟨".git"⟩ = .ok (.folder toolEntries) := by
  have hplace : toolDisk.locate ⟨".git"⟩ = .ok [".git"] :=
    Disk.locate_entry (by decide) (by decide) (by decide) (by decide) rfl rfl nofun
  rw [Disk.node, hplace]
  rfl

theorem isProper_toolEntries : (Tree.folder toolEntries).IsProper := by
  have hsingle {name : Text} (hname : Path.IsEntryName name) {u : Tree} (hu : u.IsProper) :
      (Tree.folder [(name, u)]).IsProper :=
    .folder (by simp) (by simpa using hname) (by simpa using hu)
  have htool : (Tree.folder [(".terraform", .folder [("main.tf", .file .empty)]),
      ("main.tf", .file .empty)]).IsProper := by
    refine .folder (by decide) (by decide) ?_
    simp only [List.forall_mem_cons]
    exact ⟨hsingle (by decide) .file, .file, by simp⟩
  refine .folder (by decide) (by decide) ?_
  simp only [toolEntries, List.forall_mem_cons]
  exact ⟨.link, hsingle (by decide) .file, .file, htool, by simp⟩

theorem run_isExact_toolDisk :
    toolDisk.node ⟨".git"⟩ = .ok (.folder toolEntries) ∧ (Tree.folder toolEntries).IsProper ∧
      IsExact ⟨".git"⟩ (.folder toolEntries) "main.tf"
        (run toolDisk ⟨".git"⟩ "main.tf").paths ∧
      ⟨".git/a/main.tf"⟩ ∈ (run toolDisk ⟨".git"⟩ "main.tf").paths := by
  obtain ⟨hexact, -⟩ := run_isExact node_toolDisk isProper_toolEntries "main.tf"
  have hfile : IsModuleFile (.folder toolEntries) "main.tf" ["a", "main.tf"] :=
    ⟨⟨.empty, rfl⟩, rfl, by decide⟩
  exact ⟨node_toolDisk, isProper_toolEntries, hexact,
    (hexact.mem_iff _).mpr ⟨["a", "main.tf"], hfile, by decide⟩⟩

end SourceSwitch.Discovery

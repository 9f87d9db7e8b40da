import SourceSwitch.Proofs.Files.Writing

namespace SourceSwitch

open Files (Fault)

namespace Tree

mutual

def skeleton : Tree → Tree
  | file _ => file .empty
  | link target => link target
  | folder entries => folder (skeletonIn entries)

def skeletonIn : List (Text × Tree) → List (Text × Tree)
  | [] => []
  | (name, t) :: rest => (name, t.skeleton) :: skeletonIn rest

end

variable {t u : Tree} {name : Text} {entries : List (Text × Tree)} {place : List Text}
  {old content : ByteArray}

theorem lookup_skeletonIn (name : Text) (entries : List (Text × Tree)) :
    (skeletonIn entries).lookup name = (entries.lookup name).map skeleton := by
  induction entries with
  | nil => rfl
  | cons e rest ih =>
    obtain ⟨own, t⟩ := e
    rw [skeletonIn, List.lookup_cons, List.lookup_cons, ih]
    cases name == own <;> rfl

theorem get?_skeleton (t : Tree) (place : List Text) :
    t.skeleton.get? place = (t.get? place).map skeleton := by
  induction place generalizing t with
  | nil => cases t <;> rfl
  | cons name rest ih =>
    cases t with
    | file | link => rfl
    | folder entries =>
      rw [skeleton, get?, get?, lookup_skeletonIn]
      cases entries.lookup name with
      | none => rfl
      | some t => exact ih t

theorem setEntry_of_lookup (h : entries.lookup name = some t) :
    setEntry name t entries = entries := by
  induction entries with
  | nil => cases h
  | cons e rest ih =>
    obtain ⟨own, u⟩ := e
    rw [setEntry]
    by_cases hown : own = name
    · subst hown
      rw [List.lookup_cons_self] at h
      rw [if_pos rfl, Option.some.inj h]
    · rw [List.lookup_cons, beq_eq_false_iff_ne.mpr (Ne.symm hown)] at h
      rw [if_neg hown, ih h]

theorem setEntry_setEntry (name : Text) (t u : Tree) (entries : List (Text × Tree)) :
    setEntry name u (setEntry name t entries) = setEntry name u entries := by
  induction entries with
  | nil => simp [setEntry]
  | cons e rest ih =>
    by_cases hown : e.1 = name <;> simp [setEntry, hown, ih]

/-- New entries would be added in the order in which they come, so one of the two is there. -/
theorem setEntry_comm {other : Text} (hne : name ≠ other) (h : (entries.lookup name).isSome)
    (t u : Tree) : setEntry other u (setEntry name t entries)
      = setEntry name t (setEntry other u entries) := by
  induction entries with
  | nil => cases h
  | cons e rest ih =>
    obtain ⟨own, old⟩ := e
    by_cases hname : own = name
    · simp [setEntry, hname, hne]
    · rw [List.lookup_cons, beq_eq_false_iff_ne.mpr (Ne.symm hname)] at h
      by_cases hother : own = other <;> simp [setEntry, hname, hother, Ne.symm hne, ih h]

theorem skeletonIn_setEntry (name : Text) (t : Tree) (entries : List (Text × Tree)) :
    skeletonIn (setEntry name t entries) = setEntry name t.skeleton (skeletonIn entries) := by
  induction entries with
  | nil => rfl
  | cons e rest ih =>
    obtain ⟨own, old⟩ := e
    by_cases hown : own = name <;> simp [setEntry, skeletonIn, hown, ih]

theorem exists_of_file?_cons (h : t.file? (name :: place) = some old) :
    ∃ entries u, t = folder entries ∧ entries.lookup name = some u ∧ u.file? place = some old := by
  cases t with
  | file | link => cases h
  | folder entries =>
    rw [file?_folder_cons, Option.bind_eq_some_iff] at h
    obtain ⟨u, hu, h⟩ := h
    exact ⟨entries, u, rfl, hu, h⟩

theorem put_folder_cons (h : entries.lookup name = some u) (rest : List Text) (new : Tree) :
    (folder entries).put (name :: rest) new = folder (setEntry name (u.put rest new) entries) := by
  rw [put, h, Option.getD_some]

theorem skeleton_put (h : t.file? place = some old) (content : ByteArray) :
    (t.put place (file content)).skeleton = t.skeleton := by
  induction place generalizing t with
  | nil =>
    obtain rfl : t = file old := Option.some.inj (file?_eq_some_iff.mp h)
    rfl
  | cons name rest ih =>
    obtain ⟨entries, u, rfl, hu, h⟩ := exists_of_file?_cons h
    rw [put_folder_cons hu, skeleton, skeletonIn_setEntry, ih h, skeleton, setEntry_of_lookup]
    rw [lookup_skeletonIn, hu]
    rfl

theorem put_of_file? (h : t.file? place = some old) : t.put place (file old) = t := by
  induction place generalizing t with
  | nil =>
    obtain rfl : t = file old := Option.some.inj (file?_eq_some_iff.mp h)
    rfl
  | cons name rest ih =>
    obtain ⟨entries, u, rfl, hu, h⟩ := exists_of_file?_cons h
    rw [put_folder_cons hu, ih h, setEntry_of_lookup hu]

theorem put_put (h : t.file? place = some old) (content new : ByteArray) :
    (t.put place (file content)).put place (file new) = t.put place (file new) := by
  induction place generalizing t with
  | nil =>
    obtain rfl : t = file old := Option.some.inj (file?_eq_some_iff.mp h)
    rfl
  | cons name rest ih =>
    obtain ⟨entries, u, rfl, hu, h⟩ := exists_of_file?_cons h
    have hset : (setEntry name (u.put rest (file content)) entries).lookup name
        = some (u.put rest (file content)) := by
      rw [lookup_setEntry, if_pos rfl]
    rw [put_folder_cons hu, put_folder_cons hset, ih h, setEntry_setEntry, ← put_folder_cons hu]

theorem put_comm {other : List Text} {otherOld otherContent : ByteArray} (hne : place ≠ other)
    (h : t.file? place = some old) (hother : t.file? other = some otherOld) :
    (t.put place (file content)).put other (file otherContent)
      = (t.put other (file otherContent)).put place (file content) := by
  induction place generalizing t other with
  | nil =>
    obtain rfl : t = file old := Option.some.inj (file?_eq_some_iff.mp h)
    cases other with
    | nil => exact absurd rfl hne
    | cons => cases hother
  | cons name rest ih =>
    obtain ⟨entries, u, rfl, hu, h⟩ := exists_of_file?_cons h
    cases other with
    | nil => cases hother
    | cons otherName otherRest =>
      obtain ⟨_, v, ⟨⟩, hv, hother⟩ := exists_of_file?_cons hother
      have hlookup (own : Text) (x : Tree) : (setEntry own x entries).lookup own = some x := by
        rw [lookup_setEntry, if_pos rfl]
      by_cases hname : name = otherName
      · subst hname
        obtain rfl : u = v := Option.some.inj (hu.symm.trans hv)
        have hrest : rest ≠ otherRest := fun heq => hne (congrArg _ heq)
        rw [put_folder_cons hu, put_folder_cons hu, put_folder_cons (hlookup _ _),
          put_folder_cons (hlookup _ _), setEntry_setEntry, setEntry_setEntry, ih hrest h hother]
      · have hu' : (setEntry otherName (v.put otherRest (file otherContent)) entries).lookup name
            = some u := by
          rw [lookup_setEntry, if_neg hname, hu]
        have hv' : (setEntry name (u.put rest (file content)) entries).lookup otherName
            = some v := by
          rw [lookup_setEntry, if_neg (Ne.symm hname), hv]
        rw [put_folder_cons hu, put_folder_cons hv, put_folder_cons hu', put_folder_cons hv',
          setEntry_comm hname]
        rw [hu]
        rfl

end Tree

namespace Disk

variable {d e : Disk} {p : Path} {place : List Text} {old content : ByteArray}

/-- The disk with every file emptied: what paths are followed through. -/
def frame (d : Disk) : Disk := { d with root := d.root.skeleton }

theorem walk_skeleton (root : Tree) (last : LastName) (links : Nat) (place : List Text)
    (steps : List Path.Component) :
    walk root.skeleton last links place steps = walk root last links place steps := by
  induction links, place, steps using walk.induct root last with
  | case1 => simp only [walk]
  | case2 _ _ _ _ hfolder ih | case3 _ _ _ _ hfolder ih | case4 _ _ _ _ hfolder ih =>
    simpa only [walk, Tree.get?_skeleton, hfolder, Option.map_some, Tree.skeleton] using ih
  | case5 _ _ _ _ hfolder _ hlength =>
    simp only [walk, Tree.get?_skeleton, hfolder, Option.map_some, Tree.skeleton, if_pos hlength]
  | case6 _ _ _ _ hfolder _ hlength hlookup | case7 _ _ _ _ hfolder _ hlength hlookup =>
    simp only [walk, Tree.get?_skeleton, hfolder, Option.map_some, Tree.skeleton, if_neg hlength,
      Tree.lookup_skeletonIn, hlookup, Option.map_none]
  | case8 _ _ _ _ hfolder _ hlength _ hlookup htaken =>
    simp only [walk, Tree.get?_skeleton, hfolder, Option.map_some, Tree.skeleton, if_neg hlength,
      Tree.lookup_skeletonIn, hlookup, if_pos htaken]
  | case9 _ _ _ hfolder _ hlength _ hlookup htaken =>
    simp only [walk, Tree.get?_skeleton, hfolder, Option.map_some, Tree.skeleton, if_neg hlength,
      Tree.lookup_skeletonIn, hlookup, if_neg htaken]
  | case10 _ _ _ hfolder _ hlength _ hlookup htaken _ ih =>
    simp only [walk, Tree.get?_skeleton, hfolder, Option.map_some, Tree.skeleton, if_neg hlength,
      Tree.lookup_skeletonIn, hlookup, if_neg htaken]
    exact ih
  | case11 _ _ _ _ hfolder _ hlength t hlink hlookup ih =>
    simp only [walk, Tree.get?_skeleton, hfolder, Option.map_some, Tree.skeleton, if_neg hlength,
      Tree.lookup_skeletonIn, hlookup]
    cases t with
    | file | folder => exact ih
    | link target => exact absurd rfl (hlink target)
  | case12 _ _ _ _ t hfolder hnode =>
    simp only [walk, Tree.get?_skeleton, hnode, Option.map_some]
    cases t with
    | file | link => rfl
    | folder entries => exact absurd rfl (hfolder entries)
  | case13 _ _ _ _ hnone => simp only [walk, Tree.get?_skeleton, hnone, Option.map_none]

theorem locate_frame (d : Disk) (p : Path) : d.frame.locate p = d.locate p := by
  simp only [locate, locateFrom, walkFrom, frame, walk_skeleton]

theorem locate_congr (h : e.frame = d.frame) (p : Path) : e.locate p = d.locate p := by
  rw [← locate_frame, h, locate_frame]

theorem locateFile_frame (d : Disk) (p : Path) : d.frame.locateFile p = d.locateFile p := by
  have hfrom : d.frame.locateFrom .created p p.steps = d.locateFrom .created p p.steps := by
    simp only [locateFrom, walkFrom, frame, walk_skeleton]
  rw [locateFile, locateFile, hfrom]
  cases d.locateFrom .created p p.steps with
  | error => rfl
  | ok place =>
    simp only [bind, Except.bind, frame, Tree.get?_skeleton]
    cases d.root.get? place with
    | none => rfl
    | some t => cases t <;> rfl

theorem locateFile_congr (h : e.frame = d.frame) (p : Path) : e.locateFile p = d.locateFile p := by
  rw [← locateFile_frame, h, locateFile_frame]

def IsSteady (d : Disk) : Prop :=
  ∀ t t' place content, d.writes t place content = d.writes t' place content

theorem IsSteady.course_congr (hsteady : d.IsSteady) (h : e.frame = d.frame) (p : Path)
    (content : ByteArray) : e.course p content = d.course p content := by
  have hwrites : e.writes = d.writes := by
    change e.frame.writes = d.frame.writes
    rw [h]
  rw [course, course, locateFile_congr h, hwrites]
  cases d.locateFile p with
  | error => rfl
  | ok place => exact hsteady _ _ place content

theorem read_of_locate (hplace : d.locate p = .ok place) : d.read p
    = match d.root.file? place with
      | some content => .ok content
      | none => .error (if (d.frame.root.get? place).isSome then .isFolder else .notFound) := by
  simp only [read, node, hplace, bind, Except.bind, frame, Tree.get?_skeleton, Tree.file?]
  cases d.root.get? place with
  | none => rfl
  | some t => cases t <;> rfl

/-- A path is read alike on disks that differ in other files only. -/
theorem read_congr (hframe : e.frame = d.frame)
    (hfile : ∀ place, d.locate p = .ok place → e.root.file? place = d.root.file? place) :
    e.read p = d.read p := by
  have hlocate := locate_congr hframe p
  cases hplace : d.locate p with
  | error fault =>
    rw [hplace] at hlocate
    simp only [read, node, hplace, hlocate, bind, Except.bind]
  | ok place =>
    rw [hplace] at hlocate
    rw [read_of_locate hplace, read_of_locate hlocate, hframe, hfile place hplace]

theorem readText_congr (hframe : e.frame = d.frame)
    (hfile : ∀ place, d.locate p = .ok place → e.root.file? place = d.root.file? place) :
    e.readText p = d.readText p := by
  rw [readText, readText, read_congr hframe hfile]

def replace (d : Disk) (place : List Text) (content : ByteArray) : Disk :=
  if (d.root.file? place).isSome then d.set place (.file content) else d

theorem replace_of_file? (h : d.root.file? place = some old) (content : ByteArray) :
    d.replace place content = d.set place (.file content) := by
  rw [replace, h]
  rfl

theorem replace_of_file?_eq_none (h : d.root.file? place = none) (content : ByteArray) :
    d.replace place content = d := by
  rw [replace, h]
  rfl

theorem frame_replace (d : Disk) (place : List Text) (content : ByteArray) :
    (d.replace place content).frame = d.frame := by
  cases h : d.root.file? place with
  | none => rw [replace_of_file?_eq_none h]
  | some old =>
    rw [replace_of_file? h, frame, set]
    simp only [Tree.skeleton_put h]
    rfl

theorem file?_replace_of_ne {other : List Text} (hne : other ≠ place) (d : Disk)
    (content : ByteArray) : (d.replace place content).root.file? other = d.root.file? other := by
  cases h : d.root.file? place with
  | none => rw [replace_of_file?_eq_none h]
  | some old => rw [replace_of_file? h, file?_set h, if_neg hne]

theorem replace_comm {other : List Text} (hne : place ≠ other) (d : Disk)
    (content otherContent : ByteArray) :
    (d.replace place content).replace other otherContent
      = (d.replace other otherContent).replace place content := by
  have hfile := file?_replace_of_ne (Ne.symm hne) d content
  have hfile' := file?_replace_of_ne hne d otherContent
  cases h : d.root.file? place with
  | none =>
    rw [h] at hfile'
    rw [replace_of_file?_eq_none h, replace_of_file?_eq_none hfile']
  | some old =>
    cases hother : d.root.file? other with
    | none =>
      rw [hother] at hfile
      rw [replace_of_file?_eq_none hother, replace_of_file?_eq_none hfile]
    | some otherOld =>
      rw [h] at hfile'
      rw [hother] at hfile
      rw [replace_of_file? hfile, replace_of_file? hfile', replace_of_file? h,
        replace_of_file? hother, set, set, set, set]
      simp only [Tree.put_comm hne h hother]

theorem write_eq_replace (h : d.read p = .ok old) (course : Course) (content : ByteArray) :
    ∃ place, d.locate p = .ok place ∧
      d.write course p content = (course.result, d.replace place (course.left old content)) := by
  obtain ⟨place, hplace, hold⟩ := exists_of_read h
  have hemptied := emptied_of_locate hplace hold
  refine ⟨place, hplace, ?_⟩
  rw [replace_of_file? hold]
  cases course with
  | refused fault =>
    simp only [write, Course.left, set, Tree.put_of_file? hold]
    rfl
  | cut | whole =>
    simp only [write, hemptied, Course.left, set, Tree.put_put hold]
    rfl

end Disk

end SourceSwitch

import SourceSwitch.Files.Disk

namespace SourceSwitch

open Files (Fault)

namespace Tree

def file? (t : Tree) (place : List Text) : Option ByteArray :=
  match t.get? place with
  | some (file content) => some content
  | _ => none

variable {t : Tree} {place : List Text} {old content : ByteArray}

theorem file?_eq_some_iff : t.file? place = some content ↔ t.get? place = some (file content) := by
  rw [file?]
  split <;> simp_all

theorem file?_folder_cons (entries : List (Text × Tree)) (name : Text) (rest : List Text) :
    (folder entries).file? (name :: rest) = (entries.lookup name).bind (·.file? rest) := by
  rw [file?, get?]
  cases entries.lookup name <;> rfl

theorem file?_put (h : t.file? place = some old) (content : ByteArray) (other : List Text) :
    (t.put place (file content)).file? other
      = if other = place then some content else t.file? other := by
  induction place generalizing t other with
  | nil =>
    obtain rfl : t = file old := Option.some.inj (file?_eq_some_iff.mp h)
    cases other <;> rfl
  | cons name rest ih =>
    cases t with
    | file | link => cases h
    | folder entries =>
      rw [file?_folder_cons, Option.bind_eq_some_iff] at h
      obtain ⟨t, ht, h⟩ := h
      rw [put, ht, Option.getD_some]
      cases other with
      | nil => rfl
      | cons other below =>
        rw [file?_folder_cons, file?_folder_cons, lookup_setEntry]
        by_cases hname : other = name
        · subst hname
          rw [if_pos rfl, Option.bind_some, ih h, ht, Option.bind_some]
          simp
        · simp [hname]

end Tree

namespace Disk

/-- Every file is there with the same content, and there are no others. -/
def SameFiles (d d' : Disk) : Prop := ∀ place, d'.root.file? place = d.root.file? place

variable {d : Disk} {p : Path} {place : List Text} {old content : ByteArray}

theorem SameFiles.refl (d : Disk) : d.SameFiles d := fun _ => rfl

theorem file?_set (h : d.root.file? place = some old) (content : ByteArray) (other : List Text) :
    (d.set place (.file content)).root.file? other
      = if other = place then some content else d.root.file? other :=
  Tree.file?_put h content other

/-- What is there is also found where it may be missing. -/
theorem walk_created {root : Tree} {links : Nat} {steps : List Path.Component} {found : List Text}
    (h : walk root .followed links place steps = .ok found) :
    walk root .created links place steps = .ok found := by
  -- The walks part where the last name is missing, and there the first one fails.
  induction links, place, steps using walk.induct root .followed with
  | case1 => simpa only [walk] using h
  | case2 _ _ _ _ hfolder ih | case3 _ _ _ _ hfolder ih | case4 _ _ _ _ hfolder ih =>
    simp only [walk, hfolder] at h ⊢
    exact ih h
  | case5 _ _ _ _ hfolder _ hlength =>
    simp only [walk, hfolder, if_pos hlength] at h
    cases h
  | case6 _ _ _ _ _ _ _ _ hcreated => exact absurd hcreated.2 (by decide)
  | case7 _ _ _ _ hfolder _ hlength hlookup hcreated =>
    simp only [walk, hfolder, if_neg hlength, hlookup, if_neg hcreated] at h
    cases h
  | case8 _ _ _ _ _ _ _ _ _ htaken => exact absurd htaken.2 (by decide)
  | case9 _ _ _ hfolder _ hlength _ hlookup htaken =>
    simp only [walk, hfolder, if_neg hlength, hlookup, if_neg htaken] at h
    cases h
  | case10 _ _ _ hfolder _ hlength _ hlookup htaken _ ih =>
    simp only [walk, hfolder, if_neg hlength, hlookup, if_neg htaken] at h
    simp only [walk, hfolder, if_neg hlength, hlookup, reduceCtorEq, and_false, if_false]
    exact ih h
  | case11 _ _ _ _ hfolder _ hlength t hlink hlookup ih =>
    simp only [walk, hfolder, if_neg hlength, hlookup] at h ⊢
    cases t with
    | file | folder => exact ih h
    | link target => exact absurd rfl (hlink target)
  | case12 _ _ _ _ t hfolder hnode =>
    simp only [walk, hnode] at h
    cases t with
    | file | link => cases h
    | folder entries => exact absurd rfl (hfolder entries)
  | case13 _ _ _ _ hnone =>
    simp only [walk, hnone] at h
    cases h

theorem walk_name {root : Tree} {entries : List (Text × Tree)} {links : Nat}
    {name : Text} {place found : List Text} (hfolder : root.get? place = some (.folder entries))
    (hlink : ∀ target, entries.lookup name ≠ some (.link target))
    (h : walk root .followed links place [.name name] = .ok found) :
    found = place ++ [name] := by
  rw [walk, hfolder] at h
  simp only at h
  split at h
  · cases h
  · cases hlookup : entries.lookup name with
    | none =>
      rw [hlookup] at h
      simp at h
    | some t =>
      rw [hlookup] at h
      cases t with
      | link target => exact absurd hlookup (hlink target)
      | file | folder =>
        rw [walk] at h
        exact (Except.ok.inj h).symm

theorem locate_entry {entries : List (Text × Tree)} {name : Text} {t : Tree}
    (hsteps : p.steps = [.name name]) (hrelative : ¬ p.isAbsolute)
    (htext : p.text ≠ [] ∧ ¬ p.text.contains '\x00' ∧ ¬ pathLimit < Text.byteLength p.text)
    (hname : ¬ nameLimit < Text.byteLength name)
    (hfolder : d.root.get? d.current = some (.folder entries))
    (hlookup : entries.lookup name = some t) (hlink : ∀ target, t ≠ .link target) :
    d.locate p = .ok (d.current ++ [name]) := by
  obtain ⟨hne, hnul, hlength⟩ := htext
  rw [locate, if_neg hne, locateFrom, if_neg hnul, if_neg hlength, walkFrom, if_neg hrelative,
    hsteps, walk, hfolder]
  simp only [if_neg hname, hlookup]
  cases t with
  | link target => exact absurd rfl (hlink target)
  | file | folder => rw [walk]

theorem locateFrom_created {steps : List Path.Component}
    (h : d.locateFrom .followed p steps = .ok place) : d.locateFrom .created p steps
      = .ok place := by
  rw [locateFrom] at h ⊢
  split at h
  · cases h
  · next hnul =>
    rw [if_neg hnul]
    split at h
    · cases h
    · next hlength =>
      rw [if_neg hlength]
      exact walk_created h

theorem exists_of_read (h : d.read p = .ok old) :
    ∃ place, d.locate p = .ok place ∧ d.root.file? place = some old := by
  simp only [read, node] at h
  cases hplace : d.locate p with
  | error e => rw [hplace] at h; cases h
  | ok place =>
    rw [hplace] at h
    refine ⟨place, rfl, Tree.file?_eq_some_iff.mpr ?_⟩
    cases hnode : d.root.get? place with
    | none => simp [bind, Except.bind, hnode] at h
    | some t =>
      cases t with
      | file content =>
        simp [bind, Except.bind, hnode] at h
        rw [h]
      | link | folder => simp [bind, Except.bind, hnode] at h

theorem locateFile_of_locate (hplace : d.locate p = .ok place)
    (h : d.root.file? place = some old) : d.locateFile p = .ok place := by
  rw [locate] at hplace
  rw [locateFile]
  split at hplace
  · cases hplace
  · next hp =>
    rw [if_neg hp, locateFrom_created hplace]
    simp only [bind, Except.bind, Tree.file?_eq_some_iff.mp h]

theorem emptied_of_locate (hplace : d.locate p = .ok place) (h : d.root.file? place = some old) :
    d.emptied p = .ok (d.set place (.file .empty), place) := by
  rw [emptied, locateFile_of_locate hplace h]
  rfl

theorem course_of_locate (hplace : d.locate p = .ok place) (h : d.root.file? place = some old)
    (content : ByteArray) : d.course p content = d.writes d.root place content := by
  rw [course, locateFile_of_locate hplace h]

theorem file?_set_set (h : d.root.file? place = some old) (new content : ByteArray)
    (other : List Text) :
    ((d.set place (.file new)).set place (.file content)).root.file? other
      = if other = place then some content else d.root.file? other := by
  have hnew : (d.set place (.file new)).root.file? place = some new := by
    rw [file?_set h, if_pos rfl]
  rw [file?_set hnew, file?_set h]
  split <;> rfl

namespace Course

def result : Course → Except Fault Unit
  | refused e | cut _ e => .error e
  | whole => .ok ()

end Course

/-- A file that can be read is written in its own place, and no other file changes. -/
theorem write_of_read (h : d.read p = .ok old) (course : Course) (content : ByteArray) :
    ∃ place, d.locate p = .ok place ∧ d.root.file? place = some old ∧
      (d.write course p content).1 = course.result ∧
      ∀ other, (d.write course p content).2.root.file? other
        = if other = place then some (course.left old content) else d.root.file? other := by
  obtain ⟨place, hplace, hold⟩ := exists_of_read h
  have hemptied := emptied_of_locate hplace hold
  refine ⟨place, hplace, hold, ?_, fun other => ?_⟩
  · cases course <;> simp only [write, hemptied] <;> rfl
  · cases course with
    | refused e =>
      rw [Course.left, ← hold]
      split
      · next hother => rw [hother]; rfl
      · rfl
    | cut count e => simp only [write, hemptied, Course.left, file?_set_set hold]
    | whole => simp only [write, hemptied, Course.left, file?_set_set hold]

theorem sameFiles_write_iff (h : d.read p = .ok old) (course : Course) (content : ByteArray) :
    d.SameFiles (d.write course p content).2 ↔ course.left old content = old := by
  obtain ⟨place, -, hold, -, hfiles⟩ := write_of_read h course content
  constructor
  · intro hsame
    have hplace := hsame place
    rw [hfiles, if_pos rfl, hold] at hplace
    exact Option.some.inj hplace
  · intro hleft other
    rw [hfiles, hleft]
    split
    · next hother => rw [hother, hold]
    · rfl

end Disk

end SourceSwitch

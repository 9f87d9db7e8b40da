import SourceSwitch.Files.Path

namespace SourceSwitch

/-- A file system, with names that are Unicode texts like those of a `Path`. -/
inductive Tree where
  | file (content : ByteArray)
  | link (target : Path)
  | folder (entries : List (Text × Tree))

namespace Tree

def empty : Tree := folder []

instance : Inhabited Tree := ⟨empty⟩

/-- What stands at a place; links are not followed. -/
def get? : Tree → List Text → Option Tree
  | t, [] => some t
  | folder entries, name :: rest => (entries.lookup name).bind (get? · rest)
  | _, _ :: _ => none

def setEntry (name : Text) (t : Tree) : List (Text × Tree) → List (Text × Tree)
  | [] => [(name, t)]
  | (n, old) :: rest => if n = name then (name, t) :: rest else (n, old) :: setEntry name t rest

theorem lookup_setEntry (name other : Text) (t : Tree) (entries : List (Text × Tree)) :
    (setEntry name t entries).lookup other
      = if other = name then some t else entries.lookup other := by
  induction entries with
  | nil =>
    by_cases h : other = name
    · simp [setEntry, h]
    · simp [setEntry, List.lookup_cons, h, beq_eq_false_iff_ne.mpr h]
  | cons e rest ih =>
    obtain ⟨n, old⟩ := e
    by_cases hn : n = name
    · subst hn
      by_cases ho : other = n
      · simp [setEntry, ho]
      · simp [setEntry, List.lookup_cons, ho, beq_eq_false_iff_ne.mpr ho]
    · simp only [setEntry, hn, if_false, List.lookup_cons, ih]
      by_cases ho : other = n
      · simp [ho, hn]
      · simp [beq_eq_false_iff_ne.mpr ho]

/-- Puts a tree at a place. Folders on the way are made; what is no folder stays. -/
def put : Tree → List Text → Tree → Tree
  | _, [], new => new
  | folder entries, name :: rest, new =>
    folder (setEntry name (put ((entries.lookup name).getD empty) rest new) entries)
  | t, _ :: _, _ => t

mutual

def files (place : List Text) : Tree → List (List Text × ByteArray)
  | file content => [(place, content)]
  | folder entries => filesIn place entries
  | link _ => []

def filesIn (place : List Text) : List (Text × Tree) → List (List Text × ByteArray)
  | [] => []
  | (name, t) :: rest => files (place ++ [name]) t ++ filesIn place rest

end

mutual

/-- The places of all folders of a tree, outer ones first. -/
def folders (place : List Text) : Tree → List (List Text)
  | file _ => []
  | folder entries => place :: foldersIn place entries
  | link _ => []

def foldersIn (place : List Text) : List (Text × Tree) → List (List Text)
  | [] => []
  | (name, t) :: rest => folders (place ++ [name]) t ++ foldersIn place rest

end

def hasFolder (t : Tree) (place : List Text) : Bool :=
  match t.get? place with
  | some (folder _) => true
  | _ => false

def hasFile (t : Tree) (place : List Text) (content : ByteArray) : Bool :=
  match t.get? place with
  | some (file old) => old == content
  | _ => false

def newFolders (before t : Tree) : List (List Text) :=
  (t.folders []).filter (¬ before.hasFolder ·)

/-- The files of a tree that an earlier one does not hold, or not with the same content. -/
def newFiles (before t : Tree) : List (List Text × ByteArray) :=
  (t.files []).filter fun (place, content) => ¬ before.hasFile place content

end Tree

end SourceSwitch

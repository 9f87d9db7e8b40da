import SourceSwitch.Files.Tree
import SourceSwitch.Text.Offset
import SourceSwitch.Text.Utf8

namespace SourceSwitch

namespace Files

inductive Fault where
  | notFound | denied | occupied | notFolder | isFolder | full | nameTooLong | tooManyLinks
  | nulInPath | invalidText
deriving DecidableEq, Repr

def Fault.message : Fault → Text
  | .notFound => "No such file or directory (os error 2)"
  | .denied => "Permission denied (os error 13)"
  | .occupied => "File exists (os error 17)"
  | .notFolder => "Not a directory (os error 20)"
  | .isFolder => "Is a directory (os error 21)"
  | .full => "File too large (os error 27)"
  | .nameTooLong => "File name too long (os error 36)"
  | .tooManyLinks => "Too many levels of symbolic links (os error 40)"
  | .nulInPath => "file name contained an unexpected NUL byte"
  | .invalidText => "stream did not contain valid UTF-8"

end Files

open Files (Fault)

namespace Disk

/-- How a write goes on. -/
inductive Course where
  /-- The file is not opened. -/
  | refused (fault : Fault)
  /-- The file is emptied, and then only so many of the first bytes get into it. -/
  | cut (count : Nat) (fault : Fault)
  | whole
deriving DecidableEq, Repr

/-- What a write leaves in a file. -/
def Course.left (old content : ByteArray) : Course → ByteArray
  | refused _ => old
  | cut count _ => content.extract 0 count
  | whole => content

/-- The system's say in how a write goes on: by the tree as it is, the file's place and the
bytes. Permissions are told by the place, and the room that is left by the tree. -/
def WriteRule : Type := Tree → List Text → ByteArray → Course

def WriteRule.free : WriteRule := fun _ _ _ => .whole

/-- No byte can be written. -/
def WriteRule.full : WriteRule := fun _ _ content =>
  if content.size = 0 then .whole else .cut 0 .full

end Disk

structure Disk where
  root : Tree
  current : List Text
  writes : Disk.WriteRule

namespace Disk

/-- What is asked of a path's last name. -/
inductive LastName where
  /-- It is there, and is followed if it is a link. -/
  | followed
  /-- It is there, and is taken as it is. -/
  | taken
  /-- It is followed if it is a link, and what it leads to may be missing from its folder. -/
  | created
deriving DecidableEq, Repr

def linkLimit : Nat := 40

/-- How many bytes a name may have. -/
def nameLimit : Nat := 255

/-- How many bytes a path may have. -/
def pathLimit : Nat := 4095

def walk (root : Tree) (last : LastName) (links : Nat) (place : List Text) :
    List Path.Component → Except Fault (List Text)
  | [] => .ok place
  | step :: rest =>
    match root.get? place with
    | some (.folder entries) =>
      match step with
      | .root => walk root last links [] rest
      | .current => walk root last links place rest
      | .parent => walk root last links place.dropLast rest
      | .name name =>
        if nameLimit < Text.byteLength name then .error .nameTooLong
        else match entries.lookup name with
          | none => if rest = [] ∧ last = .created then .ok (place ++ [name]) else .error .notFound
          | some (.link target) =>
            if rest = [] ∧ last = .taken then .ok (place ++ [name])
            else match links with
              | 0 => .error .tooManyLinks
              | links + 1 =>
                walk root last links (if target.isAbsolute then [] else place)
                  (target.steps ++ rest)
          | some _ => walk root last links (place ++ [name]) rest
    | some _ => .error .notFolder
    | none => .error .notFound
termination_by steps => (links, steps.length)

def walkFrom (d : Disk) (last : LastName) (p : Path) (steps : List Path.Component) :
    Except Fault (List Text) :=
  walk d.root last linkLimit (if p.isAbsolute then [] else d.current) steps

def locateFrom (d : Disk) (last : LastName) (p : Path) (steps : List Path.Component) :
    Except Fault (List Text) :=
  if p.text.contains '\x00' then .error .nulInPath
  else if pathLimit < Text.byteLength p.text then .error .nameTooLong
  else d.walkFrom last p steps

/-- The place that a path leads to. -/
def locate (d : Disk) (p : Path) : Except Fault (List Text) :=
  if p.text = [] then .error .notFound else d.locateFrom .followed p p.steps

def node (d : Disk) (p : Path) : Except Fault Tree := do
  let place ← d.locate p
  match d.root.get? place with
  | some t => .ok t
  | none => .error .notFound

def pathExists (d : Disk) (p : Path) : Bool :=
  match d.locate p with
  | .ok _ => true
  | .error _ => false

def isFile (d : Disk) (p : Path) : Bool :=
  match d.node p with
  | .ok (.file _) => true
  | _ => false

def isFolder (d : Disk) (p : Path) : Bool :=
  match d.node p with
  | .ok (.folder _) => true
  | _ => false

/-- The path without links and dots. It is followed name by name, so its length has no limit. -/
def canonical? (d : Disk) (p : Path) : Option Path :=
  if p.text = [] ∨ p.text.contains '\x00' then none
  else (d.walkFrom .followed p p.steps).toOption.map .ofPlace

def read (d : Disk) (p : Path) : Except Fault ByteArray := do
  match ← d.node p with
  | .file content => .ok content
  | _ => .error .isFolder

def readText (d : Disk) (p : Path) : Except Fault Text := do
  match Text.decode? (← d.read p) with
  | some t => .ok t
  | none => .error .invalidText

def set (d : Disk) (place : List Text) (t : Tree) : Disk := { d with root := d.root.put place t }

/-- Where a path's last name stands, or would stand: the folder's place, and the name. -/
def locateEntry (d : Disk) (p : Path) : Except Fault (List Text × Option Text) :=
  if p.text = [] then .error .notFound
  else
    let steps := p.steps
    match (steps.reverse.dropWhile (· = .current)) with
    | .name name :: before => do
      let place ← d.locateFrom .followed p before.reverse
      match d.root.get? place with
      | some (.folder _) => .ok (place, some name)
      | some _ => .error .notFolder
      | none => .error .notFound
    | _ => do return (← d.locateFrom .followed p steps, none)

def createFolder (d : Disk) (p : Path) : Except Fault Disk := do
  match ← d.locateEntry p with
  | (_, none) => .error .occupied
  | (place, some name) =>
    if nameLimit < Text.byteLength name then .error .nameTooLong
    else match d.root.get? (place ++ [name]) with
      | some _ => .error .occupied
      | none => .ok (d.set (place ++ [name]) .empty)

def ensureFolder (d : Disk) (p : Path) : Except Fault Disk :=
  match d.createFolder p with
  | .ok d => .ok d
  | .error e => if d.isFolder p then .ok d else .error e

/-- Creates folders from the top down; `paths` starts with the innermost. Only a missing parent
makes the outer ones necessary. -/
def createFoldersOf (d : Disk) : List Path → Except Fault Disk
  | [] => .ok d
  | p :: outer =>
    if p.text = [] then .ok d
    else match d.createFolder p with
      | .ok d => .ok d
      | .error .notFound => do
        let d ← createFoldersOf d outer
        d.ensureFolder p
      | .error e => if d.isFolder p then .ok d else .error e

def createFolders (d : Disk) (p : Path) : Except Fault Disk := d.createFoldersOf p.ancestors

/-- The place of a file that is opened for writing; the file may be missing. -/
def locateFile (d : Disk) (p : Path) : Except Fault (List Text) :=
  if p.text = [] then .error .notFound
  else do
    let place ← d.locateFrom .created p p.steps
    match d.root.get? place with
    | none | some (.file _) => .ok place
    | some _ => .error .isFolder

def ensureFile (d : Disk) (p : Path) : Except Fault Disk := do
  let place ← d.locateFile p
  match d.root.get? place with
  | none => .ok (d.set place (.file .empty))
  | some _ => .ok d

def emptied (d : Disk) (p : Path) : Except Fault (Disk × List Text) := do
  let place ← d.locateFile p
  return (d.set place (.file .empty), place)

/-- The course of a write that opens the file at the end of a path. -/
def course (d : Disk) (p : Path) (content : ByteArray) : Course :=
  match d.locateFile p with
  | .ok place => d.writes d.root place content
  | .error e => .refused e

/-- Writes a file along a course. The disk is the one found afterwards, also when the write
fails. -/
def write (course : Course) (d : Disk) (p : Path) (content : ByteArray) :
    Except Fault Unit × Disk :=
  match course, d.emptied p with
  | .refused e, _ | _, .error e => (.error e, d)
  | .cut count e, .ok (d, place) => (.error e, d.set place (.file (content.extract 0 count)))
  | .whole, .ok (d, place) => (.ok (), d.set place (.file content))

end Disk

end SourceSwitch

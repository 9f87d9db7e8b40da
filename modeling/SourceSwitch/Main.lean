import SourceSwitch.CommandLine.Run
import SourceSwitch.Log.Stamp

namespace SourceSwitch.Outside

def own (t : Text) : String := String.ofList t

def pathOf (place : List Text) : String := own (Path.ofPlace place).text

def placeOf (path : String) : List Text := (path.toList.splitOn '/').filter (· ≠ [])

def realPath? (path : String) : IO (Option String) := do
  match ← (IO.FS.realPath path).toBaseIO with
  | .ok real => return some real.toString
  | .error _ => return none

/-- What stands at a real path. Folders that are never entered stay empty, unless the path was asked
for, and what cannot be read is left out. -/
partial def treeAt (asked : Bool) (path : String) : IO (Option Tree) := do
  let real ← IO.FS.realPath path
  match (← real.metadata).type with
  | .file =>
    match ← (IO.FS.readBinFile path).toBaseIO with
    | .ok content => return some (.file content)
    | .error _ => return none
  | .dir =>
    if !asked && (placeOf path).getLast?.any Discovery.isTool then return some .empty
    let mut entries := []
    for entry in ← real.readDir do
      let inner := entry.path.toString
      if let some target ← realPath? inner then
        if target = inner then
          if let some t ← treeAt false inner then entries := (entry.fileName.toList, t) :: entries
        else entries := (entry.fileName.toList, .link ⟨target.toList⟩) :: entries
    return some (.folder entries)
  | _ => return none

partial def load (root : Tree) (place : List Text) : List Path.Component → IO Tree
  | [] => do
    match ← (treeAt true (pathOf place)).toBaseIO with
    | .ok (some t) => return root.put place t
    | _ => return root
  | .root :: rest => load root [] rest
  | .current :: rest => load root place rest
  | .parent :: rest => load root place.dropLast rest
  | .name name :: rest => do
    let inner := place ++ [name]
    match ← realPath? (pathOf inner) with
    | none => return root
    | some target =>
      if target = pathOf inner then
        let root := if (root.get? inner).isSome then root else root.put inner .empty
        load root inner rest
      else load (root.put inner (.link ⟨target.toList⟩)) (placeOf target) rest

def loadPath (current : List Text) (root : Tree) (path : Path) : IO Tree :=
  load root (if path.isAbsolute then [] else current) path.steps

def pathsOfInterest (env : CommandLine.Environment) (a : CommandLine.Arguments) (root : Path) :
    List Path :=
  root.ancestors.map (·.join ".git") ++ a.paths ++ (CommandLine.credentialsFile? env).toList

/-- The part of the disk that a run may look at. -/
def disk (env : CommandLine.Environment) (words : List Text) : IO Disk := do
  let current := placeOf (← IO.currentDir).toString
  let start := Tree.empty.put current .empty
  match CommandLine.Arguments.parse env.valueOf words with
  | .error _ => return ⟨start, current, .free⟩
  | .ok a =>
    let root := (← realPath? (own a.root.text)).getD (own a.root.text)
    let paths := pathsOfInterest env a ⟨root.toList⟩
    return ⟨← paths.foldlM (loadPath current) start, current, .free⟩

def processVariables : IO (List (Text × Text)) := do
  match ← (IO.FS.readFile "/proc/self/environ").toBaseIO with
  | .error _ => return []
  | .ok block =>
    return (block.toList.splitOn '\x00').map fun entry =>
      (entry.takeWhile (· ≠ '='), (entry.dropWhile (· ≠ '=')).drop 1)

/-- The present moment, which is when the process's own files come up. -/
def now : IO Log.Moment := do
  let time := (← (← IO.FS.realPath "/proc/self/environ").metadata).modified
  return ⟨time.sec.toNat, time.nsec.toNat / 1000⟩

def environment : IO CommandLine.Environment := do
  let known ← processVariables
  return ⟨(known.lookup ·), (← now).text⟩

def save (before after : Tree) : IO Unit := do
  for place in before.newFolders after do
    IO.FS.createDirAll (pathOf place)
  for (place, content) in before.newFiles after do
    IO.FS.writeBinFile (pathOf place) content

/-- A library that builds requests as they are ordered, and reaches no host. -/
def offline : Http Unit where
  build order := .ok ⟨order.url, (order.bearer.map ("Bearer ".toList ++ ·)).toList⟩
  send request s := (.error ⟨"error sending request for url (" ++ request.url ++ ")"⟩, s)

def run (args : List String) : IO UInt32 := do
  let words := args.map String.toList
  let env ← environment
  let disk ← disk env words
  let exit := CommandLine.run env offline words disk ()
  save disk.root exit.disk.root
  (← IO.getStdout).putStr (own exit.stdout)
  (← IO.getStderr).putStr (own exit.stderr)
  return exit.code.toUInt32

end SourceSwitch.Outside

def main (args : List String) : IO UInt32 := SourceSwitch.Outside.run args

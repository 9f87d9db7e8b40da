import SourceSwitch.Files.Disk
import SourceSwitch.Files.Walk
import SourceSwitch.Log.Event
import SourceSwitch.Text.Number

namespace SourceSwitch.Discovery

/-- Folders of tools, which are not entered below the root. -/
def toolFolders : List Text := [".git", ".terraform"]

def isTool (name : Text) : Bool := toolFolders.contains name

/-- A folder of a tool. The root is none, whatever its name. -/
def isSkipped (v : Visit) : Bool := 0 < v.depth && v.node.isFolder && isTool v.name

def isWanted (name : Text) (v : Visit) : Bool := v.node.isFile && v.name = name

def pick (name : Text) (visits : List Visit) : List Path :=
  ((visits.filter (isWanted name)).map Visit.path).mergeSort Path.le

structure Found where
  paths : List Path
  events : List Log.Event

def unreadable (root : Path) (fault : Files.Fault) : List Log.Event :=
  [.warn .discovery ("Skipping unreadable entry: IO error for operation on " ++ root.text ++ ": "
    ++ fault.message)]

def rootName (root : Path) : Text := root.fileName?.getD root.text

def start (root : Path) (t : Tree) : Visit := ⟨root, 0, rootName root, t⟩

/-- What stands at a root. A link is followed if it leads to a folder. -/
def rootNode? (d : Disk) (root : Path) : Except Files.Fault (Option Tree) := do
  match ← d.node root with
  | .folder entries => return some (.folder entries)
  | _ => return (d.locateFrom .taken root root.steps).toOption.bind d.root.get?

def visits (d : Disk) (root : Path) : List Visit × List Log.Event :=
  match rootNode? d root with
  | .error fault => ([], unreadable root fault)
  | .ok none => ([], [])
  | .ok (some t) => ((start root t).walk isSkipped, [])

/-- All files of a name under a root, in the order of their paths. -/
def run (d : Disk) (root : Path) (name : Text) : Found :=
  let (visits, events) := visits d root
  let paths := pick name visits
  ⟨paths, events ++ [.debug .discovery ("Found " ++ Text.ofNat paths.length ++ " " ++ name
    ++ " file(s) under " ++ root.text)]⟩

end SourceSwitch.Discovery

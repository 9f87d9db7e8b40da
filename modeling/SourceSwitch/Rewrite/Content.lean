import SourceSwitch.Block.Layout
import SourceSwitch.Block.Reader
import SourceSwitch.Rewrite.Plan
import SourceSwitch.Text.Lines

namespace SourceSwitch

/-- A declaration with its lines as they stand and what is to become of them. -/
structure Edit where
  block : ModuleBlock
  before : List Text
  verdict : Verdict
  events : List Log.Event

namespace Edit

def lines (e : Edit) : List Text :=
  match e.verdict with
  | .rewrite source version => e.block.render source version
  | .keep | .unresolved _ => e.before

def isChange (e : Edit) : Bool := e.lines ≠ e.before

def unresolved? (e : Edit) : Option Unresolved :=
  match e.verdict with
  | .unresolved entry => some entry
  | .keep | .rewrite .. => none

def log (e : Edit) : List Log.Event :=
  if e.isChange then e.events ++ [.debug .rewriting ("Rewriting module" ++ e.block.label)]
  else e.events

/-- The edits for declarations of a file's lines, asking the registry in their order. -/
def plan {σ : Type} (ask : Lookup σ) (mode : Mode) (lines : List Text) :
    List ModuleBlock → σ → List Edit × σ
  | [], s => ([], s)
  | b :: rest, s =>
    let ((verdict, events), s) := (mode.plan b).run ask b s
    let (edits, s) := plan ask mode lines rest s
    (⟨b, (lines.drop b.firstIndex).take b.height, verdict, events⟩ :: edits, s)

/-- Puts the edits' lines into the lines from index `cursor` on. -/
def splice (cursor : Nat) (lines : List Text) : List Edit → List Text
  | [] => lines
  | e :: rest =>
    lines.take (e.block.firstIndex - cursor) ++ e.lines
      ++ splice e.block.endLine (lines.drop (e.block.endLine - cursor)) rest

end Edit

structure Transformation where
  content : Text
  changed : Bool
  unresolved : List Unresolved
  events : List Log.Event
deriving DecidableEq, Repr

/-- Joins lines with an ending, which also closes the last one if the text asks for it. -/
def joinLines (ending : Text) (closed : Bool) (lines : List Text) : Text :=
  ending.intercalate lines ++ if closed then ending else []

/-- The ending for all lines of a rewritten text. -/
def chosenEnding (content : Text) : Text :=
  if Text.hasCrlf content then Text.Ending.crlf.text else Text.Ending.lf.text

/-- Rewrites a content. Declarations without a release stay as they are. -/
def transform {σ : Type} (ask : Lookup σ) (mode : Mode) (content : Text) (s : σ) :
    Transformation × σ :=
  let lines := Text.lines content
  let (edits, s) := Edit.plan ask mode lines (readBlocks lines) s
  ({ content := joinLines (chosenEnding content) (Text.endsLine content) (Edit.splice 0 lines edits)
     changed := edits.any Edit.isChange
     unresolved := edits.filterMap Edit.unresolved?
     events := edits.flatMap Edit.log }, s)

end SourceSwitch

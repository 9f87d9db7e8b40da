import SourceSwitch.Block.Attribute
import SourceSwitch.Block.Basic
import SourceSwitch.Bracket.Tally

namespace SourceSwitch

open SourceSwitch.Bracket (Carry Tally)

namespace ModuleBlock

def ofHeader (number : Nat) (line : Text) (h : Header) : ModuleBlock where
  name := h.name
  startLine := number
  endLine := number
  indent := h.indent
  header := line
  source := none
  commentedSource := none
  version := none
  body := []
  trailer := none

def comment? (line : Text) (commentAt : Option Nat) : Option Text := do
  let offset ← commentAt
  let (_, tail) ← Text.splitAt? offset line
  Text.nonempty? (Text.trim tail)

def keepComment (line : Text) (commentAt : Option Nat) (b : ModuleBlock) : ModuleBlock :=
  match comment? line commentAt with
  | some tail => b.keep tail
  | none => b

/-- Takes a line at the declaration's own level: an attribute, or body content. -/
def absorb (line : Text) (commentAt : Option Nat) (b : ModuleBlock) : ModuleBlock :=
  match Attribute.ofLine? line with
  | some (.source value) => { b with source := some value }.keepComment line commentAt
  | some (.version value) => { b with version := some value }.keepComment line commentAt
  | some (.commentedSource value) => { b with commentedSource := some value }
  | some .commentedVersion => b
  | none => b.keep line

def take (depth : Int) (tally : Tally) (line : Text) (b : ModuleBlock) : ModuleBlock :=
  if depth = 1 ∧ ¬ tally.verbatim then b.absorb line tally.commentAt else b.keep line

def cut (tally : Tally) (line : Text) : Text × Text :=
  match tally.closedAt.bind (Text.splitAt? · line) with
  | some (code, rest) => (code, rest.drop 1)
  | none => ([], [])

def close (number : Nat) (depth : Int) (tally : Tally) (line : Text) (b : ModuleBlock) :
    ModuleBlock :=
  let (code, trailer) := cut tally line
  let b := if Text.isBlankText code then b else b.take depth tally (Text.trimEnd code)
  { b with endLine := number, trailer := Text.nonempty? (Text.trim trailer) }

end ModuleBlock

namespace Reader

/-- What is known before a line: the carry, and the declaration that is open with its depth. -/
structure State where
  carry : Carry
  pending : Option (Int × ModuleBlock)
deriving DecidableEq, Repr

def State.initial : State := ⟨.code, none⟩

def step (number : Nat) (line : Text) (s : State) : State × Option ModuleBlock :=
  match s.pending with
  | none =>
    let (tally, carry) := s.carry.scan line
    match if tally.verbatim then none else Header.ofLine? line with
    | some h => (⟨carry, some (tally.net, .ofHeader number line h)⟩, none)
    | none => (⟨carry, none⟩, none)
  | some (depth, b) =>
    let (tally, carry) := s.carry.scanAtDepth depth line
    if depth + tally.net ≤ 0 then (⟨carry, none⟩, some (b.close number depth tally line))
    else (⟨carry, some (depth + tally.net, b.take depth tally line)⟩, none)

/-- The declarations of numbered lines, and the state behind the last line. -/
def run (number : Nat) (s : State) : List Text → List ModuleBlock × State
  | [] => ([], s)
  | line :: rest =>
    let (s, found) := step number line s
    let (blocks, s) := run (number + 1) s rest
    (found.toList ++ blocks, s)

end Reader

/-- The module declarations of a list of lines, in order. One that is never closed is not among
them. -/
def readBlocks (lines : List Text) : List ModuleBlock := (Reader.run 1 .initial lines).1

end SourceSwitch

import SourceSwitch.Bracket.Mark

namespace SourceSwitch.Bracket

structure Tally where
  opens : Nat
  closes : Nat
  /-- The first code of the line is a closing bracket. -/
  leadingClose : Bool
  /-- The line is entered inside a comment or a here-document and is kept as it is. -/
  verbatim : Bool
  /-- Byte offset of the first comment. -/
  commentAt : Option Nat
  /-- Byte offset of the closing bracket that brings the depth at entry to zero. -/
  closedAt : Option Nat
deriving DecidableEq, Repr

namespace Tally

def net (t : Tally) : Int := t.opens - t.closes

/-- The first closing bracket at which a depth falls to zero. -/
def closing? (depth : Int) : List (Nat × Mark) → Option Nat
  | [] => none
  | (_, .opening) :: ms => closing? (depth + 1) ms
  | (offset, .closing) :: ms => if depth = 1 then some offset else closing? (depth - 1) ms
  | (_, .code) :: ms => closing? depth ms
  | (_, .comment) :: ms => closing? depth ms

/-- The tally of a line's marks; without a depth at entry no end is looked for. -/
def ofMarks (verbatim : Bool) (depth : Option Int) (ms : List (Nat × Mark)) : Tally where
  opens := ms.countP (·.2 = .opening)
  closes := ms.countP (·.2 = .closing)
  leadingClose := (ms.find? (·.2 ≠ .comment)).any (·.2 = .closing)
  verbatim := verbatim
  commentAt := (ms.find? (·.2 = .comment)).map (·.1)
  closedAt := depth.bind (closing? · ms)

end Tally

namespace Carry

def step (depth : Option Int) (line : Text) : Carry → Tally × Carry
  | .heredoc marker =>
    (.ofMarks true none [], if Text.trim line = marker then .code else .heredoc marker)
  | .comment =>
    let (ms, carry) := marks .comment 0 line
    (.ofMarks true depth ms, carry)
  | .code =>
    let (ms, carry) := marks .code 0 line
    (.ofMarks false depth ms, carry)

def scan (carry : Carry) (line : Text) : Tally × Carry := carry.step none line

def scanAtDepth (carry : Carry) (depth : Int) (line : Text) : Tally × Carry :=
  carry.step (some depth) line

end Carry

end SourceSwitch.Bracket

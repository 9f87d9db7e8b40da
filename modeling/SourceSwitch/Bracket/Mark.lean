import SourceSwitch.Text.Offset

namespace SourceSwitch.Bracket

/-- What a line hands on to the next. -/
inductive Carry where
  | code
  | comment
  /-- Inside a here-document, up to the line that is the marker. -/
  | heredoc (marker : Text)
deriving DecidableEq, Repr, Inhabited

inductive Mark where
  | opening
  | closing
  /-- Any other character of code; a string counts by its first quote. -/
  | code
  | comment
deriving DecidableEq, Repr

/-- What a character is read as. The last three stand for one character, already looked at. -/
inductive Region where
  | code | quoted | comment | escape | opener | closer
deriving DecidableEq, Repr

def Region.carry : Region → Carry
  | .comment | .opener => .comment
  | _ => .code

inductive Move where
  | go (mark : Option Mark) (next : Region)
  | stop (mark : Option Mark) (carry : Carry)
deriving DecidableEq, Repr

def isOpening (c : Char) : Bool := c = '{' || c = '[' || c = '('

def isClosing (c : Char) : Bool := c = '}' || c = ']' || c = ')'

def isMarkerStart (c : Char) : Bool := c.isAlpha || c = '_'

def isMarkerChar (c : Char) : Bool := c.isAlphanum || c = '_' || c = '-'

/-- The name of a here-document whose opener the text is: `<<NAME` or `<<-NAME`, then blanks. -/
def marker? (t : Text) : Option Text := do
  let t ← Text.after? "<<" t
  let t := (Text.after? "-" t).getD t
  let name := t.takeWhile isMarkerChar
  if name.head?.any isMarkerStart && (t.dropWhile isMarkerChar).all Text.isBlank then some name
  else none

def codeMark? (c : Char) : Option Mark :=
  if isOpening c then some .opening
  else if isClosing c then some .closing
  else if Text.isBlank c then none
  else some .code

def readCode (c : Char) (rest : Text) : Move :=
  if c = '#' ∨ c = '/' ∧ rest.head? = some '/' then .stop (some .comment) .code
  else if c = '/' ∧ rest.head? = some '*' then .go (some .comment) .opener
  else if c = '"' then .go (some .code) .quoted
  else match marker? (c :: rest) with
    | some name => .stop none (.heredoc name)
    | none => .go (codeMark? c) .code

def read (region : Region) (c : Char) (rest : Text) : Move :=
  match region with
  | .code => readCode c rest
  | .quoted =>
    if c = '\\' then .go none .escape else if c = '"' then .go none .code else .go none .quoted
  | .comment =>
    if c = '*' ∧ rest.head? = some '/' then .go none .closer else .go none .comment
  | .escape => .go none .quoted
  | .opener => .go none .comment
  | .closer => .go none .code

/-- The marks of the rest of a line that starts at byte `offset`, and what the line hands on. -/
def marks (region : Region) (offset : Nat) : Text → List (Nat × Mark) × Carry
  | [] => ([], region.carry)
  | c :: rest =>
    match read region c rest with
    | .stop mark carry => (mark.toList.map (offset, ·), carry)
    | .go mark next =>
      let (found, carry) := marks next (offset + c.utf8Size) rest
      (mark.toList.map (offset, ·) ++ found, carry)

end SourceSwitch.Bracket

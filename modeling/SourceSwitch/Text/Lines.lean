import SourceSwitch.Text.Basic

namespace SourceSwitch.Text

inductive Ending where
  | lf | crlf | none
deriving DecidableEq, Repr

def Ending.text : Ending → Text
  | .lf => ['\n']
  | .crlf => ['\r', '\n']
  | .none => []

structure Line where
  body : Text
  ending : Ending
deriving DecidableEq, Repr

namespace Line

def text (l : Line) : Text := l.body ++ l.ending.text

/-- Puts a character in front of split lines; a carriage return joins the line feed after it. -/
def push (c : Char) : List Line → List Line
  | [] => if c = '\n' then [⟨[], .lf⟩] else [⟨[c], .none⟩]
  | l :: ls =>
    if c = '\n' then ⟨[], .lf⟩ :: l :: ls
    else if c = '\r' ∧ l.body = [] ∧ l.ending = .lf then ⟨[], .crlf⟩ :: ls
    else ⟨c :: l.body, l.ending⟩ :: ls

def split (t : Text) : List Line := t.foldr push []

def join (ls : List Line) : Text := ls.flatMap text

theorem join_push (c : Char) (ls : List Line) : join (push c ls) = c :: join ls := by
  cases ls with
  | nil =>
    by_cases h : c = '\n' <;> simp [push, h, join, text, Ending.text]
  | cons l ls =>
    by_cases h : c = '\n'
    · simp [push, h, join, text, Ending.text]
    by_cases h' : c = '\r' ∧ l.body = [] ∧ l.ending = .lf
    · simp [push, h', join, text, Ending.text]
    · simp only [push, h, h', if_false]
      simp [join, text]

theorem join_split (t : Text) : join (split t) = t := by
  induction t with
  | nil => rfl
  | cons c t ih => rw [split, List.foldr_cons, join_push]; exact congrArg (c :: ·) ih

end Line

/-- The lines of a text without their endings; a final line feed opens no further line. -/
def lines (t : Text) : List Text := (Line.split t).map Line.body

def hasCrlf (t : Text) : Bool := (Line.split t).any (·.ending == .crlf)

def endsLine (t : Text) : Bool := t.getLast? == some '\n'

end SourceSwitch.Text

import SourceSwitch.Log.Event
import SourceSwitch.Text.Alphanumeric
import SourceSwitch.Text.Number
import SourceSwitch.Text.Offset

namespace SourceSwitch.Log

/-- A level, or nothing at all. -/
abbrev Threshold := Option Level

namespace Threshold

def named : List (Text × Threshold) :=
  [("off", none), ("error", some .error), ("warn", some .warn), ("info", some .info),
    ("debug", some .debug), ("trace", some .trace)]

/-- A threshold by its number, or by its name in upper or lower case. -/
def ofText? (t : Text) : Option Threshold :=
  ((Text.readCount? t).bind (named[·]?)).map (·.2) <|> named.lookup (t.map Char.toLower)

end Threshold

structure FieldPattern where
  name : Text
  value : Option Text
deriving DecidableEq, Repr

/-- The value ends at a further `=`. -/
def FieldPattern.ofText (t : Text) : FieldPattern :=
  ⟨t.takeWhile (· ≠ '='), ((t.dropWhile (· ≠ '=')).tail?).map (·.takeWhile (· ≠ '='))⟩

structure Directive where
  target : Option Text
  /-- The name of a span around the event. -/
  span : Option Text
  field : Option FieldPattern
  threshold : Threshold
deriving DecidableEq, Repr

namespace Directive

def ofLevel (threshold : Threshold) : Directive := ⟨none, none, none, threshold⟩

def ofTarget (target : Text) (threshold : Threshold) : Directive :=
  ⟨some target, none, none, threshold⟩

/-- The field that events have. -/
def messageField : Text := "message"

/-- Events stand in no span, and their message has no value that could be compared. -/
def isFor (d : Directive) (e : Event) : Bool :=
  d.span.isNone && d.field.all (fun f => f.value.isNone && f.name = messageField)
    && d.target.all (·.isPrefixOf e.origin.target)

/-- How specific a directive is: first by the length of its target, then by its field. -/
def weight (d : Directive) : Nat × Nat :=
  ((d.target.map (·.length + 1)).getD 0, d.field.toList.length)

def isAtLeast (d : Directive) (other : Directive) : Bool :=
  other.weight.1 < d.weight.1 || other.weight.1 = d.weight.1 && other.weight.2 ≤ d.weight.2

def startsTarget (c : Char) : Bool := Text.isAlphanumeric c || c = '_' || c = '-' || c = ':'

/-- What stands in a text between two byte offsets. -/
def piece? (t : Text) (start stop : Nat) : Option Text := do
  let (_, rest) ← Text.splitAt? start t
  let (piece, _) ← Text.splitAt? (stop - start) rest
  some piece

/-- The level from an offset on. Without one everything passes. -/
def levelFrom? (t : Text) (start : Nat) : Option Threshold := do
  match ← Text.splitAt? start t with
  | (_, []) => some (some .trace)
  | (_, level) => Threshold.ofText? level

/-- What may follow at an offset behind a closing bracket: nothing, or a level. -/
def ending? (t : Text) (start : Nat) : Text → Option Threshold
  | [] => some (some .trace)
  | '=' :: _ => levelFrom? t (start + 1)
  | _ => none

/-- A directive without `=` and brackets is a level if it reads as one, or else a target. -/
def ofWord (t : Text) : Directive :=
  match Threshold.ofText? t with
  | some threshold => ofLevel threshold
  | none => ofTarget t (some .trace)

def bracketed? (t : Text) (target : Option Text) (start : Nat) (rest : Text) :
    Option Directive := do
  let name := rest.takeWhile fun c => c ≠ ']' && c ≠ '{'
  let stop := start + Text.byteLength name
  let span ← piece? t start stop
  match rest.drop name.length with
  | ']' :: tail => return ⟨target, some span, none, ← ending? t (stop + 1) tail⟩
  | '{' :: rest =>
    let field := rest.takeWhile (· ≠ '}')
    let fieldStop := stop + 1 + Text.byteLength field
    guard (field ≠ [])
    match rest.drop field.length with
    | '}' :: ']' :: tail =>
      let field ← piece? t (stop + 1) fieldStop
      let threshold ← ending? t (fieldStop + 2) tail
      return ⟨target, Text.nonempty? span, some (.ofText field), threshold⟩
    | _ => none
  | _ => none

/-- Reads a directive. Its parts are found in the text without outer blanks, and then cut at the
same offsets out of the text with them. -/
def ofText? (t : Text) : Option Directive := do
  let trimmed := Text.trim t
  let head := trimmed.takeWhile fun c => c ≠ '=' && c ≠ '['
  let stop := Text.byteLength head
  guard (head.head?.all startsTarget)
  match trimmed.drop head.length with
  | '[' :: rest =>
    let target ← piece? t 0 stop
    bracketed? t (if head = [] then none else some target) (stop + 1) rest
  | rest =>
    guard (head ≠ [])
    if rest = [] then some (ofWord t)
    else return ofTarget (← piece? t 0 stop) (← levelFrom? t (stop + 1))

end Directive

abbrev Filter := List Directive

namespace Filter

def parse? (t : Text) : Option Filter :=
  ((t.splitOn ',').filter (· ≠ [])).mapM Directive.ofText?

def default : Filter := [.ofLevel (some .warn), .ofTarget "tf_bounce" (some .info)]

/-- The filter of a setting; one that cannot be read, or is missing, gives the default. -/
def ofSetting (setting : Option Text) : Filter := (setting.bind parse?).getD default

/-- The directive that counts for an event; of two that are equally specific the later one. -/
def deciding? (f : Filter) (e : Event) : Option Directive :=
  (f.filter (·.isFor e)).foldl
    (fun best d => if best.all d.isAtLeast then some d else best) none

def passes (f : Filter) (e : Event) : Bool :=
  ((f.deciding? e).bind (·.threshold)).any fun level => e.level.rank ≤ level.rank

end Filter

end SourceSwitch.Log

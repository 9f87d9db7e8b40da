import SourceSwitch.Json.Value
import SourceSwitch.Text.Number

namespace SourceSwitch.Json

inductive Lexeme where
  | arrayOpen | arrayClose | objectOpen | objectClose | comma | colon
  | scalar (v : Value)

/-- What is open around a value, with the values before it in reverse. -/
inductive Frame where
  | array (items : List Value)
  | object (members : List (Option Text × Value)) (key : Option Text)

inductive Expect where
  | value (around : List Frame)
  | firstItem (around : List Frame)
  | key (members : List (Option Text × Value)) (around : List Frame)
  | firstKey (around : List Frame)
  | colon (key : Option Text) (members : List (Option Text × Value)) (around : List Frame)
  | done (v : Value) (around : List Frame)

namespace Expect

def begin (around : List Frame) : Lexeme → Option Expect
  | .scalar v => some (done v around)
  | .arrayOpen => some (firstItem around)
  | .objectOpen => some (firstKey around)
  | _ => none

def step : Expect → Lexeme → Option Expect
  | value around, l => begin around l
  | firstItem around, .arrayClose => some (done (.array []) around)
  | firstItem around, l => begin (.array [] :: around) l
  | firstKey around, .objectClose => some (done (.object []) around)
  | firstKey around, .scalar (.string k) => some (colon k [] around)
  | key members around, .scalar (.string k) => some (colon k members around)
  | colon k members around, .colon => some (value (.object members k :: around))
  | done v (.array items :: around), .comma => some (value (.array (v :: items) :: around))
  | done v (.array items :: around), .arrayClose =>
    some (done (.array (v :: items).reverse) around)
  | done v (.object members k :: around), .comma => some (key ((k, v) :: members) around)
  | done v (.object members k :: around), .objectClose =>
    some (done (.object ((k, v) :: members).reverse) around)
  | _, _ => none

end Expect

inductive Digits where
  | minus | zero | whole | point | fraction | exponent | exponentSign | exponentDigits
deriving DecidableEq

namespace Digits

def isComplete : Digits → Bool
  | zero | whole | fraction | exponentDigits => true
  | minus | point | exponent | exponentSign => false

def next? (phase : Digits) (c : Char) : Option Digits :=
  match phase with
  | minus => if c = '0' then some zero else if c.isDigit then some whole else none
  | zero => tail c
  | whole => if c.isDigit then some whole else tail c
  | point => if c.isDigit then some fraction else none
  | fraction =>
    if c.isDigit then some fraction else if c = 'e' || c = 'E' then some exponent else none
  | exponent =>
    if c.isDigit then some exponentDigits
    else if c = '+' || c = '-' then some exponentSign else none
  | exponentSign | exponentDigits => if c.isDigit then some exponentDigits else none
where
  tail (c : Char) : Option Digits :=
    if c = '.' then some point else if c = 'e' || c = 'E' then some exponent else none

end Digits

/-- The lexeme that is being spelt; texts and pieces so far are in reverse. -/
inductive Spelling where
  | between
  | word (rest : Text) (v : Value)
  | number (phase : Digits) (digits : Text)
  | string (pieces : List Piece)
  | escape (pieces : List Piece)
  | unit (pieces : List Piece) (missing : Nat) (n : Nat)

structure Reading where
  spelling : Spelling
  expect : Expect

namespace Reading

/-- The character that a one-letter escape stands for. -/
def escaped? (c : Char) : Option Char :=
  match c with
  | '"' => some '"'
  | '\\' => some '\\'
  | '/' => some '/'
  | 'b' => some '\x08'
  | 'f' => some '\x0c'
  | 'n' => some '\n'
  | 'r' => some '\r'
  | 't' => some '\t'
  | _ => none

def feed (e : Expect) (l : Lexeme) : Option Reading := (e.step l).map (⟨.between, ·⟩)

def start (e : Expect) (c : Char) : Option Reading :=
  match c with
  | ' ' | '\t' | '\n' | '\r' => some ⟨.between, e⟩
  | '[' => feed e .arrayOpen
  | ']' => feed e .arrayClose
  | '{' => feed e .objectOpen
  | '}' => feed e .objectClose
  | ',' => feed e .comma
  | ':' => feed e .colon
  | '"' => some ⟨.string [], e⟩
  | 't' => some ⟨.word "rue" (.bool true), e⟩
  | 'f' => some ⟨.word "alse" (.bool false), e⟩
  | 'n' => some ⟨.word "ull" .null, e⟩
  | '-' => some ⟨.number .minus ['-'], e⟩
  | '0' => some ⟨.number .zero ['0'], e⟩
  | c => if c.isDigit then some ⟨.number .whole [c], e⟩ else none

/-- A complete number ends at the first character that cannot go on with it. -/
def endNumber (phase : Digits) (digits : Text) (e : Expect) : Option Expect :=
  if phase.isComplete then e.step (.scalar (.number digits.reverse)) else none

def step (r : Reading) (b : UInt8) : Option Reading :=
  let c := Char.ofUInt8 b
  match r.spelling with
  | .between => start r.expect c
  | .word [] v => do start (← r.expect.step (.scalar v)) c
  | .word (w :: rest) v => if w = c then some ⟨.word rest v, r.expect⟩ else none
  | .number phase digits =>
    match phase.next? c with
    | some phase => some ⟨.number phase (c :: digits), r.expect⟩
    | none => do start (← endNumber phase digits r.expect) c
  | .string pieces =>
    if c = '"' then feed r.expect (.scalar (.string (Piece.text? pieces.reverse)))
    else if c = '\\' then some ⟨.escape pieces, r.expect⟩
    else if c.toNat < 0x20 then none
    else some ⟨.string (.byte b :: pieces), r.expect⟩
  | .escape pieces =>
    if c = 'u' then some ⟨.unit pieces 4 0, r.expect⟩
    else (escaped? c).map fun x => ⟨.string (.byte x.toUInt8 :: pieces), r.expect⟩
  | .unit pieces missing n => do
    let digit ← Text.hexDigit? c
    let n := 16 * n + digit
    if missing ≤ 1 then some ⟨.string (.unit n :: pieces), r.expect⟩
    else some ⟨.unit pieces (missing - 1) n, r.expect⟩

/-- The document's value, if the text may end here. -/
def finish (r : Reading) : Option Value := do
  let e ← match r.spelling with
    | .between => some r.expect
    | .word [] v => r.expect.step (.scalar v)
    | .number phase digits => endNumber phase digits r.expect
    | _ => none
  match e with
  | .done v [] => some v
  | _ => none

end Reading

/-- The value of a document, or nothing if it is not well formed. -/
def read? (bytes : ByteArray) : Option Value := do
  let r ← bytes.toList.foldlM Reading.step ⟨.between, .value []⟩
  r.finish

end SourceSwitch.Json

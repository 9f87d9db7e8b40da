import SourceSwitch.Json.Quoted
import SourceSwitch.Log.Event

namespace SourceSwitch.Log

inductive Format where
  | text | json
deriving DecidableEq, Repr

namespace Line

/-- Control characters with which a terminal could be steered. -/
def escapeChar (c : Char) : Text :=
  match c with
  | '\x1b' => "\\x1b"
  | '\x07' => "\\x07"
  | '\x08' => "\\x08"
  | '\x0c' => "\\x0c"
  | '\x7f' => "\\x7f"
  | c =>
    if 0x80 ≤ c.toNat && c.toNat < 0xA0 then r"\u{" ++ Json.hexDigits c.toNat ++ r"}" else [c]

def paint (colour : String) (t : Text) : Text := "\x1b[" ++ colour ++ "m" ++ t ++ "\x1b[0m"

def colour : Level → String
  | .error => "31"
  | .warn => "33"
  | .info => "32"
  | .debug => "34"
  | .trace => "35"

def padded (l : Level) : Text := List.replicate (5 - l.name.length) ' ' ++ l.name

def plain (stamp : Text) (e : Event) : Text :=
  stamp ++ " " ++ padded e.level ++ " " ++ e.message.flatMap escapeChar ++ "\n"

def coloured (stamp : Text) (e : Event) : Text :=
  paint "2" stamp ++ " " ++ paint (colour e.level) (padded e.level) ++ " "
    ++ e.message.flatMap escapeChar ++ "\n"

def json (stamp : Text) (e : Event) : Text :=
  r#"{"timestamp":"# ++ Json.quote stamp ++ r#","level":"# ++ Json.quote e.level.name
    ++ r#","fields":{"message":"# ++ Json.quote e.message ++ r"}}" ++ "\n"

/-- An event as it is logged; a terminal gets colours. -/
def render (format : Format) (terminal : Bool) (stamp : Text) (e : Event) : Text :=
  match format with
  | .json => json stamp e
  | .text => if terminal then coloured stamp e else plain stamp e

end Line

end SourceSwitch.Log

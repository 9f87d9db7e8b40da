import SourceSwitch.Text.Basic

namespace SourceSwitch.Json

def hexDigits (n : Nat) : Text := Nat.toDigits 16 n

/-- A character between quotes. Control characters are escaped, by one letter where there is one. -/
def quoteChar (c : Char) : Text :=
  match c with
  | '"' => "\\\""
  | '\\' => "\\\\"
  | '\x08' => "\\b"
  | '\x0c' => "\\f"
  | '\n' => "\\n"
  | '\r' => "\\r"
  | '\t' => "\\t"
  | c =>
    if c.toNat < 0x10 then "\\u000" ++ hexDigits c.toNat
    else if c.toNat < 0x20 then "\\u00" ++ hexDigits c.toNat
    else [c]

def quote (t : Text) : Text := ['"'] ++ t.flatMap quoteChar ++ ['"']

end SourceSwitch.Json

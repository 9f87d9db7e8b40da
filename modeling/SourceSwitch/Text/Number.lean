import SourceSwitch.Text.Basic

namespace SourceSwitch.Text

def ofNat (n : Nat) : Text := Nat.toDigits 10 n

def decimalValue (t : Text) : Nat := Nat.ofDigitChars 10 t 0

def readDecimal? (t : Text) : Option Nat :=
  if t ≠ [] ∧ t.all Char.isDigit then some (decimalValue t) else none

/-- A word has 64 bits. -/
def wordLimit : Nat := UInt64.size

def readWord? (t : Text) : Option Nat := (readDecimal? t).filter (· < wordLimit)

/-- A count may have a plus sign. -/
def readCount? (t : Text) : Option Nat := readWord? ((after? "+" t).getD t)

def hexDigit? (c : Char) : Option Nat :=
  if c.isDigit then some (c.toNat - '0'.toNat)
  else if 'a' ≤ c && c ≤ 'f' then some (c.toNat - 'a'.toNat + 10)
  else if 'A' ≤ c && c ≤ 'F' then some (c.toNat - 'A'.toNat + 10)
  else none

theorem ofNat_ne_nil (n : Nat) : ofNat n ≠ [] := Nat.toDigits_ne_nil

theorem isDigit_of_mem_ofNat {n : Nat} {c : Char} (h : c ∈ ofNat n) : c.isDigit :=
  Nat.isDigit_of_mem_toDigits (by decide) (by decide) h

@[simp] theorem decimalValue_ofNat (n : Nat) : decimalValue (ofNat n) = n :=
  Nat.ofDigitChars_ten_toDigits

end SourceSwitch.Text

import SourceSwitch.Text.Number

namespace SourceSwitch.Log

structure Date where
  year : Nat
  month : Nat
  day : Nat
deriving DecidableEq, Repr

namespace Date

/-- The number of days from 1 March of the year 0 to 1 January 1970. -/
def epoch : Nat := 719468

/-- The day that lies `n` days after 1 January 1970. Years are counted from 1 March, so that a leap
day is the last of its year, in eras of 400 years. -/
def ofDays (n : Nat) : Date :=
  let era := (n + epoch) / 146097
  let dayOfEra := (n + epoch) % 146097
  let yearOfEra := (dayOfEra - dayOfEra / 1460 + dayOfEra / 36524 - dayOfEra / 146096) / 365
  let dayOfYear := dayOfEra - (365 * yearOfEra + yearOfEra / 4 - yearOfEra / 100)
  let march := (5 * dayOfYear + 2) / 153
  { year := 400 * era + yearOfEra + if march < 10 then 0 else 1
    month := if march < 10 then march + 3 else march - 9
    day := dayOfYear - (153 * march + 2) / 5 + 1 }

example : ofDays 0 = ⟨1970, 1, 1⟩ ∧ ofDays 11016 = ⟨2000, 2, 29⟩ ∧ ofDays 11017 = ⟨2000, 3, 1⟩
    ∧ ofDays 19722 = ⟨2023, 12, 31⟩ ∧ ofDays 47540 = ⟨2100, 2, 28⟩
    ∧ ofDays 47541 = ⟨2100, 3, 1⟩ := by
  decide

end Date

/-- A moment, counted from the start of 1970. -/
structure Moment where
  seconds : Nat
  microseconds : Nat
deriving DecidableEq, Repr

namespace Moment

def padded (width n : Nat) : Text :=
  List.replicate (width - (Text.ofNat n).length) '0' ++ Text.ofNat n

def text (m : Moment) : Text :=
  let date := Date.ofDays (m.seconds / 86400)
  let time := m.seconds % 86400
  padded 4 date.year ++ "-" ++ padded 2 date.month ++ "-" ++ padded 2 date.day ++ "T"
    ++ padded 2 (time / 3600) ++ ":" ++ padded 2 (time / 60 % 60) ++ ":" ++ padded 2 (time % 60)
    ++ "." ++ padded 6 m.microseconds ++ "Z"

end Moment

end SourceSwitch.Log

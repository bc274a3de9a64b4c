/-!
# Dates

Days are counted from the first of January 1970. A year is taken to begin in March, so that the day
that some years have more stands at its end; four hundred years are an era and all eras are alike.
-/

namespace Bindery

/-- A day of the calendar. -/
structure CalendarDay where
  year : Nat
  month : Nat
  day : Nat
  deriving DecidableEq, Repr

namespace CalendarDay

def eraDays : Nat := 146097

/-- The days from the beginning of the first era to the day from which days are counted. -/
def epochDays : Nat := 719468

/-- The day that is some days after the first of January 1970. -/
def ofDays (days : Nat) : CalendarDay :=
  let shifted := days + epochDays
  let era := shifted / eraDays
  let dayOfEra := shifted % eraDays
  let yearOfEra :=
    (dayOfEra + dayOfEra / 36524 - dayOfEra / 1460 - dayOfEra / (eraDays - 1)) / 365
  let dayOfYear := dayOfEra - (365 * yearOfEra + yearOfEra / 4 - yearOfEra / 100)
  let monthFromMarch := (5 * dayOfYear + 2) / 153
  let day := dayOfYear - (153 * monthFromMarch + 2) / 5 + 1
  let month := if monthFromMarch < 10 then monthFromMarch + 3 else monthFromMarch - 9
  { year := 400 * era + yearOfEra + (if month ≤ 2 then 1 else 0), month, day }

example : ofDays 0 = ⟨1970, 1, 1⟩ := by decide

example : ofDays 19358 = ⟨2023, 1, 1⟩ ∧ ofDays 19782 = ⟨2024, 2, 29⟩ := by decide

end CalendarDay

namespace Timestamp

def padded (width n : Nat) : String :=
  let digits := toString n
  String.ofList (List.replicate (width - digits.length) '0') ++ digits

/-- The text of a second after the beginning of 1970. -/
def text (seconds : Nat) : String :=
  let d := CalendarDay.ofDays (seconds / 86400)
  let rest := seconds % 86400
  padded 4 d.year ++ "-" ++ padded 2 d.month ++ "-" ++ padded 2 d.day ++ "T" ++
    padded 2 (rest / 3600) ++ ":" ++ padded 2 (rest / 60 % 60) ++ ":" ++ padded 2 (rest % 60) ++ "Z"

end Timestamp

end Bindery

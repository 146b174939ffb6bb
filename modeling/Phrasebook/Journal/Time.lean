import Phrasebook.Journal

/-!
# Times in a log file

A time as log lines show it: day, clock and thousandths of a second.
-/

namespace Phrasebook

/-- A number with zeros in front up to a width. -/
def Text.padded (width number : Nat) : Text :=
  let digits := Text.ofNat number
  List.replicate (width - digits.length) '0' ++ digits

namespace Journal

/-- A day of the calendar. -/
structure Day where
  year : Nat
  month : Nat
  day : Nat
  deriving Repr, DecidableEq

/-- The day that is some days after the first of January 1970. Years are counted from
March on, so that the leap day comes last, in rounds of 400 years. -/
def Day.ofNumber (number : Nat) : Day :=
  let shifted := number + 719468
  let round := shifted / 146097
  let inRound := shifted % 146097
  let yearInRound :=
    (inRound - inRound / 1460 + inRound / 36524 - inRound / 146096) / 365
  let inYear := inRound - (365 * yearInRound + yearInRound / 4 - yearInRound / 100)
  let fromMarch := (5 * inYear + 2) / 153
  let month := if fromMarch < 10 then fromMarch + 3 else fromMarch - 9
  { year := yearInRound + round * 400 + (if month ≤ 2 then 1 else 0),
    month,
    day := inYear - (153 * fromMarch + 2) / 5 + 1 }

/-- The time that is some seconds and thousandths after the start of 1970. -/
def stamp (seconds thousandths : Nat) : Text :=
  let day := Day.ofNumber (seconds / 86400)
  let clock := seconds % 86400
  Text.padded 4 day.year ++ '-' :: Text.padded 2 day.month ++ '-' :: Text.padded 2 day.day ++
    ' ' :: Text.padded 2 (clock / 3600) ++ ':' :: Text.padded 2 (clock / 60 % 60) ++
    ':' :: Text.padded 2 (clock % 60) ++ ',' :: Text.padded 3 thousandths

end Journal

end Phrasebook

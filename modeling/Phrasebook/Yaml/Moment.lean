import Phrasebook.Text.Digit

/-!
# Days and times

A day, or a time on a day, as a scalar writes it, and why some of them do not
exist.
-/

namespace Phrasebook.Yaml

/-- The time zone of a time. -/
structure Offset where
  negative : Bool
  hours : Nat
  minutes : Nat
  deriving Repr, DecidableEq

/-- A time of a day. -/
structure Clock where
  hour : Nat
  minute : Nat
  second : Nat
  offset : Option Offset := none
  deriving Repr, DecidableEq

/-- A day, or a time on a day. -/
structure Moment where
  year : Nat
  month : Nat
  day : Nat
  clock : Option Clock := none
  deriving Repr, DecidableEq

namespace Moment

/-- A number of at least `least` and at most `most` digits, and the rest. -/
def number? (least most : Nat) (text : Text) : Option (Nat × Text) :=
  let digits := (text.take most).takeWhile Char.isDigit
  if digits.length < least then none
  else some (Text.numberOf digits, text.drop digits.length)

/-- The rest of a text behind a character. -/
def past? (char : Char) : Text → Option Text
  | [] => none
  | head :: tail => if head == char then some tail else none

/-- A time zone that fills a text. -/
def offset? : Text → Option Offset
  | [] => none
  | sign :: text => do
    guard (sign == '+' || sign == '-')
    let (hours, rest) ← number? 1 2 text
    if rest.isEmpty then return ⟨sign == '-', hours, 0⟩
    let (minutes, last) ← number? 2 2 (← past? ':' rest)
    guard last.isEmpty
    return ⟨sign == '-', hours, minutes⟩

/-- A space or a tab. -/
def isGap (char : Char) : Bool :=
  char == ' ' || char == '\t'

/-- A time that fills a text. -/
def clock? (text : Text) : Option Clock := do
  let (hour, afterHour) ← number? 1 2 text
  let (minute, afterMinute) ← number? 2 2 (← past? ':' afterHour)
  let (second, afterSecond) ← number? 2 2 (← past? ':' afterMinute)
  let rest := match afterSecond with
    | '.' :: fraction => fraction.dropWhile Char.isDigit
    | _ => afterSecond
  let zone := rest.dropWhile isGap
  if rest.isEmpty || zone == ['Z'] then return { hour, minute, second }
  else return { hour, minute, second, offset := some (← offset? zone) }

/-- What stands between a day and a time. -/
def afterDay? : Text → Option Text
  | 'T' :: rest => some rest
  | 't' :: rest => some rest
  | ' ' :: rest => some (rest.dropWhile isGap)
  | '\t' :: rest => some (rest.dropWhile isGap)
  | _ => none

/-- The day or time that a text writes. -/
def ofText? (text : Text) : Option Moment := do
  let (year, afterYear) ← number? 4 4 text
  let (month, afterMonth) ← number? 1 2 (← past? '-' afterYear)
  let (day, rest) ← number? 1 2 (← past? '-' afterMonth)
  if rest.isEmpty then return { year, month, day }
  else return { year, month, day, clock := some (← clock? (← afterDay? rest)) }

/-- Whether a text without a tag writes a day or a time: a day alone has all its
digits then. -/
def isPlain (text : Text) : Bool :=
  (ofText? text).any fun moment => moment.clock.isSome || text.length == 10

/-- Whether a year has a day more. -/
def isLeap (year : Nat) : Bool :=
  year % 4 == 0 && (year % 100 != 0 || year % 400 == 0)

/-- The number of days of a month. -/
def daysIn (year month : Nat) : Nat :=
  if month == 2 then (if isLeap year then 29 else 28)
  else if [4, 6, 9, 11].contains month then 30
  else 31

/-- A stretch of time in words. -/
def stretch (days : Int) (seconds : Nat) : Text :=
  let parts :=
    (if days == 0 then [] else ["days=".toList ++ Text.ofInt days]) ++
      (if seconds == 0 then [] else ["seconds=".toList ++ Text.ofNat seconds])
  "datetime.timedelta(".toList ++ Text.join [',', ' '] parts ++ [')']

/-- Why a time zone does not exist. -/
def offsetFault? (offset : Offset) : Option Text :=
  let total : Int := (offset.hours * 3600 + offset.minutes * 60 : Nat)
  if total < 86400 then none
  else
    let seconds := if offset.negative then -total else total
    some ("offset must be a timedelta strictly between -timedelta(hours=24) and ".toList ++
      "timedelta(hours=24), not ".toList ++
      stretch (seconds.fdiv 86400) (seconds.fmod 86400).toNat ++ ['.'])

/-- Why a day or time does not exist. -/
def fault? (moment : Moment) : Option Text :=
  (moment.clock.bind fun clock => clock.offset.bind offsetFault?).or
    (if moment.year == 0 then some "year 0 is out of range".toList
    else if moment.month == 0 || 12 < moment.month then some "month must be in 1..12".toList
    else if moment.day == 0 || daysIn moment.year moment.month < moment.day then
      some "day is out of range for month".toList
    else
      moment.clock.bind fun clock =>
        if 23 < clock.hour then some "hour must be in 0..23".toList
        else if 59 < clock.minute then some "minute must be in 0..59".toList
        else if 59 < clock.second then some "second must be in 0..59".toList
        else none)

end Moment

end Phrasebook.Yaml

import TypeIgnore.Text.Number

/-!
# Times

A time is a date, a time of day and the offset of its clock from UTC, as RFC 3339 writes it:
`2026-01-31T08:05:09.25+01:00`.

* `Timestamp.text` — a time written; an offset of zero is `Z`, and no zeros end the fraction;
* `Timestamp.ofText?` — a time read. Any ASCII character may stand between date and time, and digits after the ninth
  of the fraction do not count. A second 60 is allowed as the last of a month in UTC and reads as the end of the
  second 59.
-/

namespace TypeIgnore

structure Timestamp where
  year : Nat
  /-- From 1 on. -/
  month : Nat
  /-- From 1 on. -/
  day : Nat
  hour : Nat := 0
  minute : Nat := 0
  second : Nat := 0
  nanosecond : Nat := 0
  /-- In minutes; positive for clocks that are ahead of UTC. -/
  offset : Int := 0
  deriving DecidableEq, Repr

namespace Timestamp

/-! ## Calendar -/

def isLeapYear (year : Nat) : Bool := year % 4 == 0 && (year % 100 != 0 || year % 400 == 0)

def monthLength (year month : Nat) : Nat :=
  if month = 2 then if isLeapYear year then 29 else 28
  else if month = 4 ∨ month = 6 ∨ month = 9 ∨ month = 11 then 30
  else 31

/-- The parts of the time are in their ranges. -/
def isValid (t : Timestamp) : Bool :=
  t.year ≤ 9999 && 1 ≤ t.month && t.month ≤ 12 && 1 ≤ t.day && t.day ≤ monthLength t.year t.month &&
    t.hour ≤ 23 && t.minute ≤ 59 && t.second ≤ 59 && t.nanosecond ≤ 999999999 && t.offset.natAbs < 24 * 60

/-- In UTC the time lies in the last minute of a month. As offsets are shorter than a day, the last minute of the day
after is out of reach. -/
def inLastMinute (t : Timestamp) : Bool :=
  let minute : Int := (60 * t.hour + t.minute : Nat) - t.offset
  if minute = 24 * 60 - 1 then t.day = monthLength t.year t.month
  else if minute = -1 then t.day = 1
  else false

/-- The day that comes `days` days after 1970-01-01. Years are counted from March on, so that the day added in leap
years is the last of its year; then 400 years have 146097 days each, and months have a fixed place in their year. -/
def ofDays (days : Nat) : Timestamp :=
  let shifted := days + 719468
  let era := shifted / 146097
  let inEra := shifted % 146097
  let yearOfEra := (inEra - inEra / 1460 + inEra / 36524 - inEra / 146096) / 365
  let inYear := inEra - (365 * yearOfEra + yearOfEra / 4 - yearOfEra / 100)
  let monthFromMarch := (5 * inYear + 2) / 153
  let month := if monthFromMarch < 10 then monthFromMarch + 3 else monthFromMarch - 9
  { year := yearOfEra + 400 * era + if month ≤ 2 then 1 else 0
    month
    day := inYear - (153 * monthFromMarch + 2) / 5 + 1 }

/-- The time in UTC that comes so many seconds after the start of 1970. -/
def ofSeconds (seconds nanosecond : Nat) : Timestamp :=
  let inDay := seconds % 86400
  { ofDays (seconds / 86400) with
    hour := inDay / 3600
    minute := inDay / 60 % 60
    second := inDay % 60
    nanosecond }

/-! ## Writing -/

/-- A fraction of a second, with at most nine digits and no zeros at its end. -/
def fractionText (nanosecond : Nat) : Text :=
  if nanosecond = 0 then []
  else '.' :: (Text.spanEnd (· == '0') (Text.ofNatPadded 9 nanosecond)).1

def offsetText (offset : Int) : Text :=
  if offset = 0 then "Z"
  else
    (if offset < 0 then "-" else "+").toList ++ Text.ofNatPadded 2 (offset.natAbs / 60) ++ ":" ++
      Text.ofNatPadded 2 (offset.natAbs % 60)

def text (t : Timestamp) : Text :=
  Text.ofNatPadded 4 t.year ++ "-" ++ Text.ofNatPadded 2 t.month ++ "-" ++ Text.ofNatPadded 2 t.day ++ "T" ++
    Text.ofNatPadded 2 t.hour ++ ":" ++ Text.ofNatPadded 2 t.minute ++ ":" ++ Text.ofNatPadded 2 t.second ++
    fractionText t.nanosecond ++ offsetText t.offset

/-! ## Reading -/

/-- The number that exactly `width` digits at the start of `t` write, and what follows them. -/
def digits? (width : Nat) (t : Text) : Option (Nat × Text) :=
  let digits := t.take width
  if digits.length = width ∧ digits.all Text.isPlainDigit then some (Text.digitsValue digits, t.drop width) else none

/-- The nanoseconds of a fraction, and what follows it. -/
def fraction? : Text → Option (Nat × Text)
  | '.' :: t =>
    match t.takeWhile Text.isPlainDigit with
    | [] => none
    | digits =>
      let kept := digits.take 9
      some (Text.digitsValue kept * Nat.pow 10 (9 - kept.length), t.dropWhile Text.isPlainDigit)
  | t => some (0, t)

/-- The offset that the whole of `t` writes. -/
def offset? : Text → Option Int
  | ['Z'] | ['z'] => some 0
  | c :: t => do
    if c ≠ '+' ∧ c ≠ '-' then none
    let (hours, t) ← digits? 2 t
    let (minutes, t) ← digits? 2 (← Text.after? ":" t)
    if t.isEmpty ∧ hours ≤ 23 ∧ minutes ≤ 59 then
      let offset : Int := (60 * hours + minutes : Nat)
      some (if c = '-' then -offset else offset)
    else none
  | [] => none

/-- Year, month and day, and what follows them. -/
def date? (t : Text) : Option (Nat × Nat × Nat × Text) := do
  let (year, t) ← digits? 4 t
  let (month, t) ← digits? 2 (← Text.after? "-" t)
  let (day, t) ← digits? 2 (← Text.after? "-" t)
  return (year, month, day, t)

/-- Hour, minute and second, and what follows them. -/
def clock? (t : Text) : Option (Nat × Nat × Nat × Text) := do
  let (hour, t) ← digits? 2 t
  let (minute, t) ← digits? 2 (← Text.after? ":" t)
  let (second, t) ← digits? 2 (← Text.after? ":" t)
  return (hour, minute, second, t)

/-- `t` after the character between date and time. -/
def afterSeparator? : Text → Option Text
  | c :: t => if c.toNat < 128 then some t else none
  | [] => none

/-- The time with the second 60 as the end of the second before it. -/
def settle? (t : Timestamp) : Option Timestamp :=
  if t.second = 60 then
    let t := { t with second := 59, nanosecond := 999999999 }
    if t.isValid && t.inLastMinute then some t else none
  else if t.isValid then some t
  else none

def ofText? (t : Text) : Option Timestamp := do
  let (year, month, day, t) ← date? t
  let (hour, minute, second, t) ← clock? (← afterSeparator? t)
  let (nanosecond, t) ← fraction? t
  let offset ← offset? t
  settle? { year, month, day, hour, minute, second, nanosecond, offset }

end Timestamp

end TypeIgnore

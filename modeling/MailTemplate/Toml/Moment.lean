import MailTemplate.Number.Decimal

/-!
Dates and times of day. A time may lack its seconds, and only a time that follows a date may state
its distance from universal time. Several texts are read as the same moment; it is written with a
capital letter between date and time, with the digits of its fraction that count, and with a sign
before its distance.
-/

namespace MailTemplate

structure Date where
  year : Nat
  month : Nat
  day : Nat
  deriving DecidableEq, Repr

structure TimeOfDay where
  hour : Nat
  minute : Nat
  second : Option Nat
  nanosecond : Option Nat
  deriving DecidableEq, Repr

inductive Zone where
  | universal
  | ahead (minutes : Int)
  deriving DecidableEq, Repr

inductive Moment where
  | dateOnly (date : Date)
  | timeOnly (time : TimeOfDay)
  | dateTime (date : Date) (time : TimeOfDay) (zone : Option Zone)
  deriving DecidableEq, Repr

def readFixed? (count : Nat) (text : Text) : Option (Nat × Text) :=
  let (digits, rest) := Decimal.takeDigits text
  if digits.length = count then some (Decimal.digitsValue digits, rest) else none

def writeFixed (count value : Nat) : Text :=
  (Nat.toDigits 10 value).leftpad count '0'

def readHourMinute? (text : Text) : Option ((Nat × Nat) × Text) := do
  let (hour, rest) ← readFixed? 2 text
  let rest ← Text.after? [':'] rest
  let (minute, rest) ← readFixed? 2 rest
  if hour < 24 ∧ minute < 60 then some ((hour, minute), rest) else none

def writeHourMinute (hour minute : Nat) : Text :=
  writeFixed 2 hour ++ ':' :: writeFixed 2 minute

namespace Date

def isLeapYear (year : Nat) : Bool :=
  year % 4 = 0 && (year % 100 ≠ 0 || year % 400 = 0)

def daysInMonth (year month : Nat) : Nat :=
  if month = 2 then (if isLeapYear year then 29 else 28)
  else if month = 4 ∨ month = 6 ∨ month = 9 ∨ month = 11 then 30
  else 31

def read? (text : Text) : Option (Date × Text) := do
  let (year, rest) ← readFixed? 4 text
  let rest ← Text.after? ['-'] rest
  let (month, rest) ← readFixed? 2 rest
  let rest ← Text.after? ['-'] rest
  let (day, rest) ← readFixed? 2 rest
  if 0 < month ∧ month ≤ 12 ∧ 0 < day ∧ day ≤ daysInMonth year month then
    some (⟨year, month, day⟩, rest)
  else none

def text (date : Date) : Text :=
  writeFixed 4 date.year ++ '-' :: writeFixed 2 date.month ++ '-' :: writeFixed 2 date.day

end Date

namespace TimeOfDay

/-- The nanoseconds of a fraction, whose digits beyond the ninth do not count. -/
def nanosecondOf (digits : Text) : Nat :=
  Decimal.digitsValue ((digits ++ List.replicate 9 '0').take 9)

def read? (text : Text) : Option (TimeOfDay × Text) := do
  let ((hour, minute), rest) ← readHourMinute? text
  match Text.after? [':'] rest with
  | none => some (⟨hour, minute, none, none⟩, rest)
  | some rest =>
      let (second, rest) ← readFixed? 2 rest
      if 60 < second then none
      else
        match Decimal.takeFraction rest with
        | (none, rest) => some (⟨hour, minute, some second, none⟩, rest)
        | (some [], _) => none
        | (some digits, rest) =>
            some (⟨hour, minute, some second, some (nanosecondOf digits)⟩, rest)

def fractionText (nanosecond : Nat) : Text :=
  let digits := ((writeFixed 9 nanosecond).reverse.dropWhile (· = '0')).reverse
  '.' :: if digits.isEmpty then ['0'] else digits

def text (time : TimeOfDay) : Text :=
  writeHourMinute time.hour time.minute ++
    (match time.second with
      | some second => ':' :: writeFixed 2 second
      | none => []) ++
    (match time.nanosecond with
      | some nanosecond => fractionText nanosecond
      | none => [])

end TimeOfDay

namespace Zone

def ofText? : Text → Option Zone
  | [] => none
  | mark :: rest =>
      if mark = 'Z' ∨ mark = 'z' then if rest.isEmpty then some .universal else none
      else
        match readHourMinute? rest with
        | some ((hour, minute), []) =>
            let minutes : Int := (60 * hour + minute : Nat)
            if mark = '+' then some (.ahead minutes)
            else if mark = '-' then some (.ahead (-minutes))
            else none
        | _ => none

def text : Zone → Text
  | .universal => ['Z']
  | .ahead minutes =>
      (if minutes < 0 then '-' else '+') ::
        writeHourMinute (minutes.natAbs / 60) (minutes.natAbs % 60)

end Zone

namespace Moment

def afterDate? (date : Date) (text : Text) : Option Moment := do
  let (time, rest) ← TimeOfDay.read? text
  if rest.isEmpty then some (.dateTime date time none)
  else (Zone.ofText? rest).map fun zone => .dateTime date time (some zone)

def ofText? (text : Text) : Option Moment :=
  match Date.read? text with
  | some (date, []) => some (.dateOnly date)
  | some (date, mark :: rest) =>
      if mark = 'T' ∨ mark = 't' ∨ mark = ' ' then afterDate? date rest else none
  | none =>
      match TimeOfDay.read? text with
      | some (time, []) => some (.timeOnly time)
      | _ => none

def text : Moment → Text
  | .dateOnly date => date.text
  | .timeOnly time => time.text
  | .dateTime date time zone => date.text ++ 'T' :: time.text ++ (zone.map Zone.text).getD []

end Moment

end MailTemplate

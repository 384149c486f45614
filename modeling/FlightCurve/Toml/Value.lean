import FlightCurve.Number.Decimal
import FlightCurve.Number.Numeral
import FlightCurve.Text.Quoted

/-!
Values of a TOML document, and the form in which a message shows an offending one.
-/

namespace FlightCurve.Toml

structure Date where
  year : Nat
  month : Nat
  day : Nat
  deriving DecidableEq, Repr

structure Time where
  hour : Nat
  minute : Nat
  second : Nat
  microsecond : Nat
  deriving DecidableEq, Repr

/-- A value. The offset of a moment from universal time is in minutes; a local one has none. -/
inductive Value
  | bool (value : Bool)
  | int (value : Int)
  | float (value : Float)
  | text (value : String)
  | date (date : Date)
  | time (time : Time)
  | moment (date : Date) (time : Time) (offset : Option Int)
  | array (items : List Value)
  | table (entries : List (String × Value))

/-- Entries in the order in which their keys were first written. -/
abbrev Table := List (String × Value)

/-! Calendar -/

def isLeapYear (year : Nat) : Bool :=
  year % 4 = 0 && (year % 100 ≠ 0 || year % 400 = 0)

def daysInMonth (year month : Nat) : Nat :=
  if month = 2 then (if isLeapYear year then 29 else 28)
  else if month = 4 ∨ month = 6 ∨ month = 9 ∨ month = 11 then 30
  else 31

/-- Whether the calendar has the day. There is no year zero. -/
def Date.isValid (d : Date) : Bool :=
  1 ≤ d.year && 1 ≤ d.month && d.month ≤ 12 && 1 ≤ d.day && d.day ≤ daysInMonth d.year d.month

/-! Display -/

def commaSeparated : List (List Char) → List Char
  | [] => []
  | [item] => item
  | item :: rest => item ++ ',' :: ' ' :: commaSeparated rest

def numbers (ns : List Nat) : List Char := commaSeparated (ns.map Decimal.digits)

def call (name : String) (arguments : List Char) : List Char :=
  name.toList ++ '(' :: (arguments ++ [')'])

def Date.fields (d : Date) : List Nat := [d.year, d.month, d.day]

/-- Hour and minute, and the finer parts as far as one of them is not zero. -/
def Time.fields (t : Time) : List Nat :=
  if t.microsecond ≠ 0 then [t.hour, t.minute, t.second, t.microsecond]
  else if t.second ≠ 0 then [t.hour, t.minute, t.second]
  else [t.hour, t.minute]

/-- An offset of some minutes, as whole days and the seconds of the day. -/
def offsetChars (minutes : Int) : List Char :=
  if minutes = 0 then "datetime.timezone.utc".toList
  else
    let days := minutes / 1440
    let seconds := (minutes % 1440).toNat * 60
    let ofSeconds := "seconds=".toList ++ Decimal.digits seconds
    let ofDays := "days=".toList ++ Decimal.signChars (days < 0) ++ Decimal.digits days.natAbs
    call "datetime.timezone"
      (call "datetime.timedelta"
        (if days = 0 then ofSeconds
         else if seconds = 0 then ofDays
         else ofDays ++ ',' :: ' ' :: ofSeconds))

/-- Why a value is not shown: an integer in it has too many digits, or it nests too deep. -/
inductive DisplayFault
  | tooManyDigits
  | tooDeep
  deriving DecidableEq, Repr

/-- The digits of an integer, unless there are too many of them to be shown. -/
def intChars (n : Int) : Except DisplayFault (List Char) :=
  let ds := Decimal.digits n.natAbs
  if Numeral.maxDigits < ds.length then .error .tooManyDigits
  else .ok (Decimal.signChars (n < 0) ++ ds)

/-- How deep the offset of a moment nests. -/
def offsetDepth : Option Int → Nat
  | none => 0
  | some minutes => if minutes = 0 then 1 else 2

/-- The text after the time of a moment that has an offset. -/
def zoneChars : Option Int → List Char
  | none => []
  | some minutes => ", tzinfo=".toList ++ offsetChars minutes

mutual

/-- How a value is shown, from left to right, in some room. It takes up one of it, and what is
nested in it has to fit into the rest. -/
def Value.chars : Value → Nat → Except DisplayFault (List Char)
  | _, 0 => .error .tooDeep
  | .bool value, _ + 1 => .ok (if value then "True".toList else "False".toList)
  | .int value, _ + 1 => intChars value
  | .float value, _ + 1 => .ok (Decimal.chars value)
  | .text value, _ + 1 => .ok (Text.quotedChars value.toList)
  | .date date, _ + 1 => .ok (call "datetime.date" (numbers date.fields))
  | .time time, _ + 1 => .ok (call "datetime.time" (numbers time.fields))
  | .moment date time offset, room + 1 =>
      if room < offsetDepth offset then .error .tooDeep
      else
        .ok (call "datetime.datetime" (numbers (date.fields ++ time.fields) ++ zoneChars offset))
  | .array items, room + 1 => do
      let shown ← itemsChars items room
      .ok ('[' :: (commaSeparated shown ++ [']']))
  | .table entries, room + 1 => do
      let shown ← entriesChars entries room
      .ok ('\x7b' :: (commaSeparated shown ++ ['\x7d']))

def itemsChars : List Value → Nat → Except DisplayFault (List (List Char))
  | [], _ => .ok []
  | item :: rest, room => do
      let shown ← item.chars room
      let others ← itemsChars rest room
      .ok (shown :: others)

def entriesChars : List (String × Value) → Nat → Except DisplayFault (List (List Char))
  | [], _ => .ok []
  | (key, value) :: rest, room => do
      let shown ← value.chars room
      let others ← entriesChars rest room
      .ok ((Text.quotedChars key.toList ++ ':' :: ' ' :: shown) :: others)

end

/-- The room for a value that is shown. -/
def maxDisplayRoom : Nat := 988

def Value.shown (v : Value) : Except DisplayFault String :=
  (v.chars maxDisplayRoom).map String.ofList

def Value.display? (v : Value) : Option String := v.shown.toOption

end FlightCurve.Toml

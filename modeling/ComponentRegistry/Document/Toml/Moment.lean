import ComponentRegistry.Document.Parsed

/-! # Dates and times of TOML documents

A date, a time of day, or both with or without the distance from universal time. Each is read in the
notation of a document and written in the standard one.
-/

namespace ComponentRegistry.Toml

/-- Exactly two digits whose number is within bounds. -/
def twoDigits? (least greatest : Nat) (text : List Char) : Option (Nat × List Char) :=
  match text with
  | a :: b :: rest =>
    let n := decimalValue [a, b]
    if a.isDigit && b.isDigit && least ≤ n && n ≤ greatest then some (n, rest) else none
  | _ => none

/-- A certain character. -/
def expect? (c : Char) (text : List Char) : Option (List Char) :=
  match text with
  | first :: rest => if first == c then some rest else none
  | [] => none

/-- Exactly `width` decimal digits of a number. -/
def paddedText (width n : Nat) : String :=
  let digits := toString n
  "".pushn '0' (width - digits.length) ++ digits

/-- A time of day. -/
structure TimeOfDay where
  hour : Nat
  minute : Nat
  second : Nat
  /-- Millionths of a second; anything smaller is dropped. -/
  micros : Nat

namespace TimeOfDay

/-- Millionths of a second from the digits of a fraction. -/
def microsOf (digits : List Char) : Nat :=
  let shown := digits.take 6
  decimalValue (shown ++ List.replicate (6 - shown.length) '0')

/-- Read a time of day. -/
def read? (text : List Char) : Option (TimeOfDay × List Char) := do
  let (hour, rest) ← twoDigits? 0 23 text
  let rest ← expect? ':' rest
  let (minute, rest) ← twoDigits? 0 59 rest
  let rest ← expect? ':' rest
  let (second, rest) ← twoDigits? 0 59 rest
  match rest with
  | '.' :: d :: more =>
    if d.isDigit then
      pure (⟨hour, minute, second, microsOf (d :: more.takeWhile Char.isDigit)⟩,
        more.dropWhile Char.isDigit)
    else pure (⟨hour, minute, second, 0⟩, rest)
  | _ => pure (⟨hour, minute, second, 0⟩, rest)

/-- The standard notation of a time of day. A fraction is shown only when there is one. -/
def text (t : TimeOfDay) : String :=
  paddedText 2 t.hour ++ ":" ++ paddedText 2 t.minute ++ ":" ++ paddedText 2 t.second ++
    (if t.micros = 0 then "" else "." ++ paddedText 6 t.micros)

end TimeOfDay

/-- A day of the calendar. -/
structure Day where
  year : Nat
  month : Nat
  day : Nat

namespace Day

/-- Whether a year has a day more than others. -/
def isLeap (year : Nat) : Bool := (year % 4 == 0 && year % 100 != 0) || year % 400 == 0

/-- How many days a month has. -/
def daysIn (year month : Nat) : Nat :=
  if month = 2 then (if isLeap year then 29 else 28)
  else if [4, 6, 9, 11].contains month then 30
  else 31

/-- Whether the calendar has the day. -/
def exists? (d : Day) : Bool := 1 ≤ d.year && d.day ≤ daysIn d.year d.month

/-- Read what has the form of a day. -/
def read? (text : List Char) : Option (Day × List Char) := do
  let year := text.take 4
  if year.length = 4 && year.all Char.isDigit then
    let rest ← expect? '-' (text.drop 4)
    let (month, rest) ← twoDigits? 1 12 rest
    let rest ← expect? '-' rest
    let (day, rest) ← twoDigits? 1 31 rest
    pure (⟨decimalValue year, month, day⟩, rest)
  else none

/-- The standard notation of a day. -/
def text (d : Day) : String :=
  paddedText 4 d.year ++ "-" ++ paddedText 2 d.month ++ "-" ++ paddedText 2 d.day

end Day

/-- The distance from universal time in the standard notation, and what follows it; nothing is
written when no distance is given. -/
def offset (text : List Char) : String × List Char :=
  match text with
  | c :: rest =>
    if c == 'Z' || c == 'z' then ("+00:00", rest)
    else if c == '+' || c == '-' then
      let read : Option (String × List Char) := do
        let (hours, rest) ← twoDigits? 0 23 rest
        let rest ← expect? ':' rest
        let (minutes, rest) ← twoDigits? 0 59 rest
        let sign := if hours = 0 ∧ minutes = 0 then "+" else String.singleton c
        pure (sign ++ paddedText 2 hours ++ ":" ++ paddedText 2 minutes, rest)
      read.getD ("", text)
    else ("", text)
  | [] => ("", text)

/-- Whether a character may stand between a day and a time of day. -/
def joinsTime (c : Char) : Bool := c == 'T' || c == 't' || c == ' '

/-- The time of day that may follow a day, with its distance from universal time. -/
def timeAfterDay? (text : List Char) : Option (String × List Char) :=
  match text with
  | c :: rest =>
    if joinsTime c then
      (TimeOfDay.read? rest).map fun (time, rest) =>
        let (distance, rest) := offset rest
        (" " ++ time.text ++ distance, rest)
    else none
  | [] => none

/-- What begins like a date or a time of day: its standard notation and what follows, or nothing if
the calendar has no such day. -/
inductive MomentReading where
  /-- No date and no time of day. -/
  | other
  /-- A day that does not exist. -/
  | impossible
  /-- A date, a time of day, or both. -/
  | found (written : String) (rest : List Char)

/-- Read a date, a time of day, or both. -/
def moment (text : List Char) : MomentReading :=
  match Day.read? text with
  | some (day, rest) =>
    if day.exists? then
      match timeAfterDay? rest with
      | some (time, rest) => .found (day.text ++ time) rest
      | none => .found day.text rest
    else .impossible
  | none =>
    match TimeOfDay.read? text with
    | some (time, rest) => .found time.text rest
    | none => .other

end ComponentRegistry.Toml

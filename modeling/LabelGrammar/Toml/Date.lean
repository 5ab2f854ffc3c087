import LabelGrammar.Number.Digits
import LabelGrammar.Toml.Text

/-! # Dates and times of TOML

A date, a time, or both with or without the distance from universal time, as a text in normal
form: a `T` between date and time, and no more digits of a second than needed, at most nine.
-/

namespace LabelGrammar.Toml

def readField (length low high : Nat) (cs : List Char) : Option (Nat × List Char) := do
  let digits := cs.take length
  let n ←
    if digits.length == length && digits.all Char.isDigit then Digits.read? 10 digits else none
  if low ≤ n && n ≤ high then some (n, cs.drop length) else none

def readMark (mark : Char) : List Char → Option (List Char)
  | c :: cs => if c == mark then some cs else none
  | [] => none

def padded (length n : Nat) : String :=
  let digits := toString n
  "".pushn '0' (length - digits.length) ++ digits

def daysIn (year month : Nat) : Nat :=
  if month == 2 then
    if year % 4 == 0 && (year % 100 != 0 || year % 400 == 0) then 29 else 28
  else if [4, 6, 9, 11].contains month then 30
  else 31

def readDay (cs : List Char) : Option (String × List Char) := do
  let (year, cs) ← readField 4 0 9999 cs
  let (month, cs) ← readField 2 1 12 (← readMark '-' cs)
  let (day, cs) ← readField 2 1 (daysIn year month) (← readMark '-' cs)
  return (padded 4 year ++ "-" ++ padded 2 month ++ "-" ++ padded 2 day, cs)

def readSecondFraction : List Char → Option (String × List Char)
  | '.' :: cs =>
    let (digits, rest) := Digits.span cs
    let kept := ((digits.take 9).reverse.dropWhile (· == '0')).reverse
    if digits.isEmpty then none
    else some (if kept.isEmpty then "" else String.ofList ('.' :: kept), rest)
  | cs => some ("", cs)

/-- A time of day, at most in the given hour. -/
def readTime (lastHour : Nat) (cs : List Char) : Option (String × List Char) := do
  let (hour, cs) ← readField 2 0 lastHour cs
  let (minute, cs) ← readField 2 0 59 (← readMark ':' cs)
  let (second, cs) ← readField 2 0 60 (← readMark ':' cs)
  let (fraction, cs) ← readSecondFraction cs
  return (padded 2 hour ++ ":" ++ padded 2 minute ++ ":" ++ padded 2 second ++ fraction, cs)

/-- The distance from universal time, at most a day. Hours and minutes have limits of their own. -/
def readOffset (lastHour lastMinute : Nat) : Reader String
  | c :: cs =>
    if c == 'Z' || c == 'z' then some ("Z", cs)
    else if c == '+' || c == '-' then do
      let (hour, cs) ← readField 2 0 lastHour cs
      let (minute, cs) ← readField 2 0 lastMinute (← readMark ':' cs)
      let minutes := hour * 60 + minute
      let sign := if c == '-' && 0 < minutes then "-" else "+"
      if minutes ≤ 24 * 60 then
        return (sign ++ padded 2 (minutes / 60) ++ ":" ++ padded 2 (minutes % 60), cs)
      else none
    else none
  | [] => none

def isTimeMark (c : Char) : Bool := c == 'T' || c == 't' || c == ' '

def readTimeOfDay : List Char → String × List Char
  | c :: cs =>
    if isTimeMark c then
      match readTime 23 cs with
      | none => ("", c :: cs)
      | some (time, rest) =>
        match readOffset 23 59 rest with
        | none => ("T" ++ time, rest)
        | some (offset, rest) => ("T" ++ time ++ offset, rest)
    else ("", c :: cs)
  | [] => ("", [])

def readDate (cs : List Char) : Option (String × List Char) :=
  match readDay cs with
  | none => readTime 23 cs
  | some (day, rest) =>
    let (time, rest) := readTimeOfDay rest
    some (day ++ time, rest)

def readAll {α : Type} (read : Reader α) (cs : List Char) : Option α :=
  match read cs with
  | some (x, []) => some x
  | _ => none

/-- The date that is the whole of a text. Its hours may reach 24, and those and the minutes of its
distance from universal time have no limit but a day. -/
def dateOfText? (text : String) : Option String :=
  let cs := text.toList
  if cs[2]? == some ':' then readAll (readTime 24) cs
  else do
    let (day, rest) ← readDay cs
    match rest with
    | [] => return day
    | c :: rest =>
      if isTimeMark c then
        let (time, rest) ← readTime 24 rest
        let offset ← if rest.isEmpty then some "" else readAll (readOffset 99 99) rest
        return day ++ "T" ++ time ++ offset
      else none

example : dateOfText? "1979-05-27 24:32:00.50-10:75" = some "1979-05-27T24:32:00.5-11:15" := by
  decide

example : dateOfText? "07:32:00Z" = none := by decide

example : readDate "2000-02-29 07:32:00.120-00:00".toList =
    some ("2000-02-29T07:32:00.12+00:00", []) := by decide

example : readDate "1900-02-29".toList = none := by decide

end LabelGrammar.Toml

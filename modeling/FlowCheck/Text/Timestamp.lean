import FlowCheck.Text.Integer

/-!
# Points in time

A date, alone or with a time of day and a time zone. Months, days, hours, minutes and seconds have
one or two digits, years have four.
-/
namespace FlowCheck

structure Timestamp where
  year : Nat
  month : Nat
  day : Nat
  hour : Nat := 0
  minute : Nat := 0
  second : Nat := 0
  nanos : Nat := 0
  /-- The distance of the time zone from Greenwich, in minutes. -/
  offset : Int := 0
  deriving DecidableEq, Repr

namespace Timestamp

open Integer (isDigit)

def natOf (ds : List Char) : Nat := (Integer.digits? 10 ds).getD 0

/-! ### Reading -/

def daysIn (year month : Nat) : Nat :=
  if month = 2 then
    if year % 4 = 0 && (year % 100 ≠ 0 || year % 400 = 0) then 29 else 28
  else if month = 4 || month = 6 || month = 9 || month = 11 then 30
  else 31

/-- A number of one or two digits, and the rest. -/
def upToTwo? : List Char → Option (Nat × List Char)
  | a :: b :: rest =>
    if !isDigit a then none
    else if isDigit b then some (natOf [a, b], rest)
    else some (natOf [a], b :: rest)
  | [a] => if isDigit a then some (natOf [a], []) else none
  | [] => none

/-- A text after the character `c`. -/
def after? (c : Char) : List Char → Option (List Char)
  | d :: rest => if c = d then some rest else none
  | [] => none

/-- A date, and the rest. -/
def date? (cs : List Char) : Option (Timestamp × List Char) := do
  let (year, rest) := cs.span isDigit
  if year.length ≠ 4 then none
  else
    let rest ← after? '-' rest
    let (month, rest) ← upToTwo? rest
    let rest ← after? '-' rest
    let (day, rest) ← upToTwo? rest
    if 1 ≤ month && month ≤ 12 && 1 ≤ day && day ≤ daysIn (natOf year) month then
      some ({ year := natOf year, month, day }, rest)
    else none

/-- A fraction of a second in billionths, and the rest; digits beyond that are dropped. -/
def fraction : List Char → Nat × List Char
  | c :: d :: rest =>
    if (c = '.' || c = ',') && isDigit d then
      let (ds, rest) := (d :: rest).span isDigit
      (natOf ((ds ++ List.replicate 9 '0').take 9), rest)
    else (0, c :: d :: rest)
  | cs => (0, cs)

/-- A date with the time of day at the front of a text, and the rest. -/
def withTime? (t : Timestamp) (cs : List Char) : Option (Timestamp × List Char) := do
  let (hour, rest) ← upToTwo? cs
  let rest ← after? ':' rest
  let (minute, rest) ← upToTwo? rest
  let rest ← after? ':' rest
  let (second, rest) ← upToTwo? rest
  let (nanos, rest) := fraction rest
  if hour < 24 && minute < 60 && second < 60 then
    some ({ t with hour, minute, second, nanos }, rest)
  else none

/-- A time zone that takes up the whole text, in minutes. -/
def zone? : List Char → Option Int
  | ['Z'] => some 0
  | [s, a, b, ':', c, d] =>
    let hours := natOf [a, b]
    let minutes := natOf [c, d]
    if [a, b, c, d].all isDigit && hours ≤ 24 && minutes ≤ 60 then
      if s = '+' then some (hours * 60 + minutes : Nat)
      else if s = '-' then some (-(hours * 60 + minutes : Nat))
      else none
    else none
  | _ => none

/-- A date alone, a date and a time with a zone after the letter T, or without one after blanks. -/
def parse? (cs : List Char) : Option Timestamp := do
  let (t, rest) ← date? cs
  match rest with
  | [] => some t
  | sep :: rest =>
    if sep = 'T' || sep = 't' then
      let (t, rest) ← withTime? t rest
      let offset ← zone? rest
      some { t with offset }
    else if sep = ' ' then
      let (t, rest) ← withTime? t (rest.dropWhile (· = ' '))
      if rest.isEmpty then some t else none
    else none

/-- The minutes since the start of the year zero, at Greenwich. -/
def instant (t : Timestamp) : Int :=
  let days := (List.range t.year).foldl (fun n y => n + (if daysIn y 2 = 29 then 366 else 365)) 0
    + (List.range (t.month - 1)).foldl (fun n m => n + daysIn t.year (m + 1)) 0 + t.day
  ((days * 24 + t.hour) * 60 + t.minute : Nat) - t.offset

/-- Not later than another point in time. -/
def le (t u : Timestamp) : Bool :=
  if t.instant ≠ u.instant then t.instant < u.instant
  else if t.second ≠ u.second then t.second < u.second
  else t.nanos ≤ u.nanos

/-! ### Writing -/

/-- A number with zeros in front. -/
def padded (width n : Nat) : String :=
  let ds := (toString n).toList
  String.ofList (List.replicate (width - ds.length) '0' ++ ds)

/-- The digits of a fraction up to the last that is not zero. -/
def fractionText (nanos : Nat) : String :=
  if nanos = 0 then ""
  else
    let ds := (padded 9 nanos).toList
    "." ++ String.ofList (ds.reverse.dropWhile (· = '0')).reverse

def offsetText (offset : Int) : String :=
  let n := offset.natAbs
  (if offset < 0 then "-" else "+") ++ padded 2 (n / 60) ++ padded 2 (n % 60)

/-- A zone at Greenwich is called by its name, any other by its distance. -/
def zoneText (offset : Int) : String :=
  offsetText offset ++ " " ++ if offset = 0 then "UTC" else offsetText offset

def text (t : Timestamp) : String :=
  padded 4 t.year ++ "-" ++ padded 2 t.month ++ "-" ++ padded 2 t.day ++ " "
    ++ padded 2 t.hour ++ ":" ++ padded 2 t.minute ++ ":" ++ padded 2 t.second
    ++ fractionText t.nanos ++ " " ++ zoneText t.offset

end Timestamp

end FlowCheck

import TripleStore.Text.Ascii

/-!
# Moments

A moment is a date, or a date and a time of day.  Month, day and the parts of the time have one or
two digits.  Behind a `T` or a `t` the time has a zone; behind spaces it has none.
-/

namespace TripleStore.Yaml.Moment

/-- A number of one or two digits, and what follows it. -/
def number? : Text → Option (Nat × Text)
  | a :: b :: rest =>
    if !Ascii.isDigit a then none
    else if Ascii.isDigit b then some ((a.toNat - 48) * 10 + (b.toNat - 48), rest)
    else some (a.toNat - 48, b :: rest)
  | [a] => if Ascii.isDigit a then some (a.toNat - 48, []) else none
  | [] => none

/-- A number of one or two digits that is not above a limit, and what follows it. -/
def limited? (limit : Nat) (t : Text) : Option (Nat × Text) := (number? t).filter (·.1 ≤ limit)

/-- Whether a year has a leap day. -/
def isLeap (year : Nat) : Bool := year % 4 == 0 && (year % 100 != 0 || year % 400 == 0)

/-- The number of days in a month. -/
def daysIn (year month : Nat) : Nat :=
  if month = 2 then if isLeap year then 29 else 28
  else if month = 4 || month = 6 || month = 9 || month = 11 then 30
  else 31

/-- Four digits of a year, month and day between hyphens, and what follows them. -/
def afterDate? (t : Text) : Option Text := do
  let digits := t.takeWhile Ascii.isDigit
  if digits.length ≠ 4 then none
  let year := digits.foldl (fun n b => n * 10 + (b.toNat - 48)) 0
  let (month, t) ← limited? 12 (← Text.stripStart "-" (t.drop 4))
  let (day, t) ← number? (← Text.stripStart "-" t)
  if 1 ≤ month && 1 ≤ day && day ≤ daysIn year month then some t else none

/-- What follows a fraction of a second. -/
def afterFraction : Text → Text
  | point :: digit :: rest =>
    if (point = Ascii.dot || point = Ascii.comma) && Ascii.isDigit digit then
      rest.dropWhile Ascii.isDigit
    else point :: digit :: rest
  | t => t

/-- Hours, minutes and seconds between colons, and what follows them. -/
def afterTime? (t : Text) : Option Text := do
  let (_, t) ← limited? 23 t
  let (_, t) ← limited? 59 (← Text.stripStart ":" t)
  let (_, t) ← limited? 59 (← Text.stripStart ":" t)
  return afterFraction t

/-- Whether a text is a zone: a `Z`, or the hours and minutes of its distance. -/
def isZone : Text → Bool
  | [90] => true
  | [sign, a, b, Ascii.colon, c, d] =>
    (sign = Ascii.plus || sign = Ascii.minus) && [a, b, c, d].all Ascii.isDigit
      && ((number? [a, b]).any (·.1 ≤ 24)) && ((number? [c, d]).any (·.1 ≤ 60))
  | _ => false

/-- Whether a text is a moment. -/
def isMoment (t : Text) : Bool :=
  match afterDate? t with
  | none => false
  | some [] => true
  | some (b :: rest) =>
    if b = 84 || b = 116 then (afterTime? rest).any isZone
    else b = Ascii.space && (afterTime? (rest.dropWhile (· = Ascii.space))).any (·.isEmpty)

end TripleStore.Yaml.Moment

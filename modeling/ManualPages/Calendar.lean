/-! # Dates

Days of the Gregorian calendar, extended to all years between two bounds.  A page shows the month
and the year of its date. -/

namespace ManualPages

/-- The month of that number, from one. -/
def monthName : Nat → String
  | 1 => "January"
  | 2 => "February"
  | 3 => "March"
  | 4 => "April"
  | 5 => "May"
  | 6 => "June"
  | 7 => "July"
  | 8 => "August"
  | 9 => "September"
  | 10 => "October"
  | 11 => "November"
  | _ => "December"

def isLeapYear (year : Int) : Bool := year % 4 = 0 ∧ (year % 100 ≠ 0 ∨ year % 400 = 0)

def daysInMonth (year : Int) (month : Nat) : Nat :=
  match month with
  | 2 => if isLeapYear year then 29 else 28
  | 4 | 6 | 9 | 11 => 30
  | _ => 31

/-- A day of the calendar. -/
structure Date where
  year : Int
  month : Nat
  day : Nat
  month_le : 1 ≤ month ∧ month ≤ 12
  day_le : 1 ≤ day ∧ day ≤ daysInMonth year month

namespace Date

def minYear : Int := -262143

def maxYear : Int := 262142

/-- The date of that year, month and day, if there is one. -/
def ofNumbers? (year month day : Int) : Option Date :=
  if minYear ≤ year ∧ year ≤ maxYear ∧ 0 ≤ month ∧ 0 ≤ day then
    if h : (1 ≤ month.toNat ∧ month.toNat ≤ 12) ∧
        1 ≤ day.toNat ∧ day.toNat ≤ daysInMonth year month.toNat then
      some ⟨year, month.toNat, day.toNat, h.1, h.2⟩
    else none
  else none

/-- A year in at least four digits, with a sign unless it lies between 0 and 9999. -/
def yearText (year : Int) : String :=
  let digits := toString year.natAbs
  let padded := String.ofList (List.replicate (4 - digits.length) '0') ++ digits
  (if year < 0 then "-" else if 9999 < year then "+" else "") ++ padded

/-- The month and the year. -/
def text (d : Date) : String := monthName d.month ++ " " ++ yearText d.year

end Date

end ManualPages

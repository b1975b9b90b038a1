/-!
# The calendar

Which dates there are. The calendar is the Gregorian one, continued into the past, from the year one
on.
-/

namespace FlagAudit.Calendar

/-- Whether a year has a leap day. -/
def isLeapYear (year : Nat) : Bool := year % 4 == 0 && (year % 100 != 0 || year % 400 == 0)

/-- How many days a month has. -/
def daysIn (year month : Nat) : Nat :=
  if month == 2 then if isLeapYear year then 29 else 28
  else if month == 4 || month == 6 || month == 9 || month == 11 then 30 else 31

/-- Whether there is such a date. -/
def isDate (year month day : Nat) : Bool :=
  0 < year && 0 < month && month ≤ 12 && 0 < day && day ≤ daysIn year month

/-- Whether there is such a time of day. -/
def isTime (hour minute second : Nat) : Bool := hour < 24 && minute < 60 && second < 60

end FlagAudit.Calendar

/-
# Moments and their labels

A moment is a count of seconds since 1970-01-01T00:00:00Z together with the
offset of the clock that it was read from.  Labels show the moment by its hour:
the date and hour of a hash, and texts such as `2014-01-02 03:00`.  All but the
local label are in UTC, whatever the offset.
-/

import GlobeView.Calendar.Date
import GlobeView.Calendar.Redelimit

namespace GlobeView

/-- A moment, and the offset in seconds east of the clock that showed it.  A
leap second is the second before it with a thousand million nanoseconds more. -/
structure Moment where
  seconds : Int
  nanoseconds : Nat
  offset : Int
  deriving DecidableEq, Repr

/-- The date and hour parts of a hash, such as `2013/11/14` and `0900`. -/
structure DateHour where
  date : String
  hour : String
  deriving DecidableEq, Repr

namespace Moment

/-- The date that a clock shows which runs `offset` seconds ahead of UTC. -/
def dateAt (m : Moment) (offset : Int) : Date :=
  Date.ofDay ((m.seconds + offset) / 86400)

/-- The hour that a clock shows which runs `offset` seconds ahead of UTC. -/
def hourAt (m : Moment) (offset : Int) : Nat :=
  ((m.seconds + offset) % 86400 / 3600).toNat

/-- Year, month and day in UTC under a delimiter. -/
def ymd (m : Moment) (delimiter : List Char) : List Char :=
  redelimit (m.dateAt 0).iso ['-'] delimiter

/-- The date and hour for a hash. -/
def toDateHour (m : Moment) : DateHour where
  date := String.ofList (m.ymd ['/'])
  hour := String.ofList (paddedDigits 2 (m.hourAt 0) ++ ['0', '0'])

/-- Date and hour on a clock that runs `offset` seconds ahead of UTC. -/
def labelAt (m : Moment) (offset : Int) : String :=
  String.ofList <|
    (m.dateAt offset).iso ++ ' ' :: (paddedDigits 2 (m.hourAt offset) ++ [':', '0', '0'])

/-- Date and hour in UTC. -/
def utcLabel (m : Moment) : String :=
  m.labelAt 0

end Moment
end GlobeView

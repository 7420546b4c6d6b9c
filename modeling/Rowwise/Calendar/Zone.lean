import Rowwise.Calendar.Instant

/-!
# Rowwise.Calendar.Zone — time zones as tables of transitions

A zone is the offset it starts with and a list of transitions in ascending order, each with the offset that holds from
then on.  `offsetAt` gives the offset in force at a second; `seconds` gives all seconds at which the zone's clocks show
a given local time, the earliest first: none in a gap, more than one in an overlap.  `resolve` picks the instant of a
local time.
-/

namespace Rowwise

/-- How far the clocks of a place are ahead of UTC, in seconds, and the abbreviation of that time. -/
structure Offset where
  seconds : Int
  name : String
deriving DecidableEq, Repr

/-- From the second `since` of UTC on, `offset` is in force. -/
structure Transition where
  since : Int
  offset : Offset
deriving DecidableEq, Repr

/-- A named table of offsets. -/
structure Zone where
  name : String
  start : Offset
  transitions : List Transition
deriving DecidableEq, Repr

/-- A stretch of time with one offset; an end that is none is open. -/
structure Span where
  since : Option Int
  before : Option Int
  offset : Offset
deriving DecidableEq, Repr

/-- True if the second lies in the span. -/
def Span.contains (s : Span) (second : Int) : Bool :=
  (match s.since with
    | none => true
    | some a => a ≤ second) &&
  (match s.before with
    | none => true
    | some b => second < b)

namespace Zone

/-- The spans of an offset that holds from `since` on and of the transitions that follow. -/
def spansFrom (since : Option Int) (offset : Offset) : List Transition → List Span
  | [] => [⟨since, none, offset⟩]
  | t :: ts => ⟨since, some t.since, offset⟩ :: spansFrom (some t.since) t.offset ts

/-- The spans of the zone in ascending order. -/
def spans (z : Zone) : List Span := spansFrom none z.start z.transitions

/-- The offset of the last transition up to `second`, or else `current`. -/
def offsetFrom (current : Offset) (second : Int) : List Transition → Offset
  | [] => current
  | t :: ts => if second < t.since then current else offsetFrom t.offset second ts

/-- The offset in force at a second of UTC. -/
def offsetAt (z : Zone) (second : Int) : Offset := offsetFrom z.start second z.transitions

/-- What the zone's clocks show. -/
def wall (z : Zone) (t : Instant) : Wall := t.wall (z.offsetAt t.seconds).seconds

/-- The seconds of UTC at which the zone's clocks show the second `shown`, the earliest first. -/
def seconds (z : Zone) (shown : Int) : List Int :=
  z.spans.filterMap fun s =>
    if s.contains (shown - s.offset.seconds) then some (shown - s.offset.seconds) else none

/-- The earliest instant with that local time, if there is one in range. -/
def earliest? (z : Zone) (w : Wall) : Option Instant :=
  match z.seconds w.second with
  | [] => none
  | s :: _ => Instant.of? s w.time.nanos

/-- The instant of a local time: the earliest one with that time; a time inside a gap is looked up an hour later. -/
def resolve (z : Zone) (w : Wall) : Option Instant :=
  match z.earliest? w with
  | some t => some t
  | none =>
    let later := w.addNanos (3600 * nanosPerSecond)
    if later.inRange then z.earliest? later else none

/-- A zone with one offset. -/
def fixed (name : String) (offset : Offset) : Zone := ⟨name, offset, []⟩

end Zone

end Rowwise

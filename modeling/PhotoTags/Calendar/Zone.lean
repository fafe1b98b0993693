import PhotoTags.Calendar.Basic

/-!
Time zones with at most one change of their offset, and the earliest instant at which the clocks of
a zone show a given local time.
-/

namespace PhotoTags

/-- Offsets are seconds east of Greenwich. A changing zone has the offset `before` until the
instant `change` and `after` from then on. -/
inductive Zone
  | fixed (offset : Int)
  | changing (change before after : Int)
  deriving DecidableEq, Repr

namespace Zone

def utc : Zone := .fixed 0

def offsetAt : Zone → Int → Int
  | .fixed offset, _ => offset
  | .changing change before after, instant => if instant < change then before else after

/-- The instants at which clocks in the zone show a local time, the earliest first. -/
def readings : Zone → Int → List Int
  | .fixed offset, clock => [clock - offset]
  | .changing change before after, clock =>
      (if clock - before < change then [clock - before] else []) ++
        (if change ≤ clock - after then [clock - after] else [])

def inRange (instant : Int) : Bool :=
  Calendar.dayNumber Calendar.firstYear 1 1 * 86400 ≤ instant &&
    instant < (Calendar.dayNumber Calendar.lastYear 12 31 + 1) * 86400

/-- The earliest instant of a local time, in seconds. There is none in a gap, nor if any instant
of that local time lies outside the range of dates. -/
def earliest (zone : Zone) (clock : Int) : Option Int :=
  let instants := zone.readings clock
  if instants.all inRange then instants.head? else none

/-- The earliest instant of a local time in milliseconds, a leap second being the second after
second 59. -/
def milliseconds (zone : Zone) (time : LocalTime) : Option Int :=
  (zone.earliest time.seconds).map fun instant =>
    instant * 1000 + if time.isLeapSecond then 1000 else 0

theorem mem_readings_iff {zone : Zone} {clock instant : Int} :
    instant ∈ zone.readings clock ↔ instant + zone.offsetAt instant = clock := by
  cases zone with
  | fixed offset =>
      simp only [readings, offsetAt, List.mem_singleton]
      omega
  | changing change before after =>
      simp only [readings, offsetAt, List.mem_append]
      split <;> split <;> split <;> simp <;> omega

end Zone

end PhotoTags

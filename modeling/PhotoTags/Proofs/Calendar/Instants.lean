import Mathlib.Data.Set.Basic
import Mathlib.Order.Bounds.Defs
import PhotoTags.Typed
import PhotoTags.Proofs.Calendar.Counting
import PhotoTags.Proofs.Calendar.Spelling

/-!
The instant of a date tag. Of the seconds in which the clocks of a zone show its time it is the first
one, and there is none only where clocks are put forward over that time.
-/

namespace PhotoTags.Zone

def clockAt (zone : Zone) (instant : Int) : LocalTime :=
  LocalTime.ofSeconds (instant + zone.offsetAt instant)

/-- What they show in that second, or in the leap second behind it. -/
def readingAt (zone : Zone) (instant : Int) (leap : Bool) : LocalTime :=
  let clock := zone.clockAt instant
  { clock with second := clock.second + if leap then 1 else 0 }

def Skips : Zone → Int → Prop
  | .fixed _, _ => False
  | .changing change before after, clock => change + before ≤ clock ∧ clock < change + after

def WithinDay (zone : Zone) : Prop :=
  ∀ instant, (zone.offsetAt instant).natAbs < 86400

theorem sorted_readings (zone : Zone) (clock : Int) : (zone.readings clock).Pairwise (· < ·) := by
  cases zone with
  | fixed offset => exact List.pairwise_singleton _ _
  | changing change before after =>
      simp only [readings]
      split <;> split <;> simp
      omega

theorem readings_eq_nil_iff {zone : Zone} {clock : Int} :
    zone.readings clock = [] ↔ zone.Skips clock := by
  cases zone with
  | fixed offset => simp [readings, Skips]
  | changing change before after =>
      simp only [readings, Skips, List.append_eq_nil_iff, ite_eq_right_iff, List.cons_ne_nil,
        imp_false]
      omega

theorem isLeast_iff {zone : Zone} {clock instant : Int} :
    IsLeast {second | second + zone.offsetAt second = clock} instant ↔
      (zone.readings clock).head? = some instant := by
  have sorted := zone.sorted_readings clock
  simp only [← mem_readings_iff]
  constructor
  · rintro ⟨member, least⟩
    cases found : zone.readings clock with
    | nil => simp [found] at member
    | cons first later =>
        rw [found] at sorted
        have notAfter : instant ≤ first := least (by simp [found])
        rcases List.mem_cons.mp (found ▸ member) with same | behind
        · rw [same, List.head?_cons]
        · have before := List.rel_of_pairwise_cons sorted behind
          omega
  · intro first
    obtain ⟨later, found⟩ := List.head?_eq_some_iff.mp first
    rw [found] at sorted ⊢
    refine ⟨List.mem_cons_self .., fun second member => ?_⟩
    rcases List.mem_cons.mp member with same | behind
    · exact Int.le_of_eq same.symm
    · exact Int.le_of_lt (List.rel_of_pairwise_cons sorted behind)

section

variable {zone : Zone} {time : LocalTime} (real : time.IsReal)
include real

theorem clockAt_eq_iff {instant : Int} :
    zone.clockAt instant = time.counted ↔ instant + zone.offsetAt instant = time.seconds := by
  rw [clockAt]
  constructor
  · intro shown
    rw [← LocalTime.seconds_ofSeconds (instant + zone.offsetAt instant), shown,
      LocalTime.seconds_counted]
  · intro shown
    rw [shown, LocalTime.ofSeconds_seconds real]

theorem isLeast_clockAt_iff {instant : Int} :
    IsLeast {second | zone.clockAt second = time.counted} instant ↔
      (zone.readings time.seconds).head? = some instant := by
  simp only [clockAt_eq_iff real, isLeast_iff]

theorem readingAt_eq {instant : Int} (shown : zone.clockAt instant = time.counted) :
    zone.readingAt instant time.isLeapSecond = time := by
  have second : min time.second 59 + (if time.isLeapSecond then 1 else 0) = time.second := by
    have last := real.second_le
    simp only [LocalTime.isLeapSecond, beq_iff_eq]
    split <;> omega
  rw [readingAt, shown]
  simp only [LocalTime.counted, second]

end

theorem inRange_of_between {early late instant : Int} (first : inRange early = true)
    (last : inRange late = true) (behind : early ≤ instant) (before : instant ≤ late) :
    inRange instant = true := by
  simp only [inRange, Bool.and_eq_true, decide_eq_true_eq] at first last ⊢
  omega

theorem milliseconds_eq {zone : Zone} {time : LocalTime} (near : zone.WithinDay)
    (dayBefore : inRange (time.seconds - 86400) = true)
    (dayBehind : inRange (time.seconds + 86400) = true) :
    zone.milliseconds time = (zone.readings time.seconds).head?.map fun instant =>
      instant * 1000 + if time.isLeapSecond then 1000 else 0 := by
  have inside : (zone.readings time.seconds).all inRange = true := by
    rw [List.all_eq_true]
    intro instant member
    have shown := mem_readings_iff.mp member
    have offset := near instant
    exact inRange_of_between dayBefore dayBehind (by omega) (by omega)
  rw [milliseconds, earliest, inside]
  rfl

theorem milliseconds_utc {time : LocalTime} (real : time.IsReal) : utc.milliseconds time =
    some (1000 * time.seconds + if time.isLeapSecond then 1000 else 0) := by
  have own : utc.readings time.seconds = [time.seconds] := by simp [utc, readings]
  have inside := LocalTime.inRange_seconds real
  rw [milliseconds, earliest, own]
  simp [inside, Int.mul_comm]

end PhotoTags.Zone

namespace PhotoTags.Attributes

section

variable {attributes : Attributes} {value : String} {time : LocalTime}
  (stored : attributes.get? "DateTime" = some value) (read : localTime? value = some time)
include stored read

theorem milliseconds?_eq (zone : Zone) : attributes.milliseconds? zone = zone.milliseconds time := by
  rw [milliseconds?, stored, Option.bind_some, read, Option.bind_some]

/-- The time of the date tag is that of the first instant at which the clocks of the zone show it,
and there is one unless clocks are put forward over it. -/
theorem milliseconds?_earliest {zone : Zone} (near : zone.WithinDay)
    (dayBefore : Zone.inRange (time.seconds - 86400) = true)
    (dayBehind : Zone.inRange (time.seconds + 86400) = true) :
    (∀ milliseconds, attributes.milliseconds? zone = some milliseconds ↔
      ∃ instant, IsLeast {second | zone.clockAt second = time.counted} instant ∧
        zone.readingAt instant time.isLeapSecond = time ∧
        milliseconds = 1000 * instant + if time.isLeapSecond then 1000 else 0) ∧
    ((∃ milliseconds, attributes.milliseconds? zone = some milliseconds) ↔
      ∃ second, zone.clockAt second = time.counted) ∧
    (attributes.milliseconds? zone = none ↔ zone.Skips time.seconds) := by
  have real : time.IsReal := (Calendar.read?_eq_some_iff.mp read).2
  rw [milliseconds?_eq stored read, Zone.milliseconds_eq near dayBefore dayBehind]
  refine ⟨?least, ?shown, ?skipped⟩
  case least =>
    intro milliseconds
    rw [Option.map_eq_some_iff]
    refine exists_congr fun instant => ?_
    rw [← Zone.isLeast_clockAt_iff real, Int.mul_comm 1000, eq_comm (b := milliseconds)]
    exact and_congr_right fun least => (and_iff_right (Zone.readingAt_eq real least.1)).symm
  case shown =>
    simp only [Zone.clockAt_eq_iff real, ← Zone.mem_readings_iff]
    cases zone.readings time.seconds with
    | nil => simp
    | cons first later => simp
  case skipped => rw [Option.map_eq_none_iff, List.head?_eq_none_iff, Zone.readings_eq_nil_iff]

end

theorem milliseconds?_earliest_of_leap_second :
    ∃ instant, IsLeast {second | (Zone.changing 1483225200 3600 0).clockAt second =
        ⟨2016, 12, 31, 23, 59, 59⟩} instant ∧
      (empty.set "DateTime" "2016:12:31 23:59:60").milliseconds? (.changing 1483225200 3600 0) =
        some (1000 * instant + 1000) := by
  have stored : (empty.set "DateTime" "2016:12:31 23:59:60").get? "DateTime" =
      some "2016:12:31 23:59:60" := by
    decide
  have read : localTime? "2016:12:31 23:59:60" = some ⟨2016, 12, 31, 23, 59, 60⟩ := by decide
  have near : (Zone.changing 1483225200 3600 0).WithinDay := by
    intro instant
    rw [Zone.offsetAt]
    split <;> decide
  have earliest := milliseconds?_earliest stored read near (by decide) (by decide)
  obtain ⟨milliseconds, given⟩ := earliest.2.1.mpr ⟨1483225199, by decide⟩
  obtain ⟨instant, least, -, rfl⟩ := (earliest.1 milliseconds).mp given
  exact ⟨instant, least, given⟩

end PhotoTags.Attributes

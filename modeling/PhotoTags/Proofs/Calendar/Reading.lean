import PhotoTags.Typed
import PhotoTags.Proofs.Calendar.Counting
import PhotoTags.Proofs.Calendar.Writing

/-!
Reading date tags. The values that are read are the texts that say a time of the calendar, in lenient
ways too; every time of the calendar is read back from its writing, and nothing else is.
-/

namespace PhotoTags.Attributes

/-- The texts of times that clocks can show are read, those times are the ones that counting seconds
leads to, and what is written of a time is read as that time exactly if a clock can show it. -/
theorem localTime?_iff_shown :
    (∀ value time, localTime? value = some time ↔
      Calendar.Layout.colons.Spells none value.toList time ∧ time.IsReal) ∧
    (∀ time : LocalTime, time.IsReal ↔ time.second ≤ 60 ∧
      ∃ instant, Zone.inRange instant = true ∧ LocalTime.ofSeconds instant = time.counted) ∧
    ∀ time, localTime? (String.ofList (Calendar.Layout.colons.write time)) = some time ↔
      time.IsReal := by
  refine ⟨fun value time => Calendar.read?_eq_some_iff, fun time => LocalTime.isReal_iff, ?_⟩
  intro time
  rw [localTime?, String.toList_ofList]
  constructor
  · exact fun read => (Calendar.read?_eq_some_iff.mp read).2
  · exact Calendar.read?_write rfl

example : localTime? " -044: 3:15 \t12:0:60" = some ⟨-44, 3, 15, 12, 0, 60⟩ := by decide

end PhotoTags.Attributes

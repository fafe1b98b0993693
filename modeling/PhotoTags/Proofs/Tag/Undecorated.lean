import PhotoTags.Tag.Plain
import PhotoTags.Proofs.Calendar.Instants
import PhotoTags.Proofs.Calendar.Timestamp
import PhotoTags.Proofs.Calendar.Writing

/-!
Texts without the decorations of values that are shown. A time that is shown with an offset or with
dashes is read from the plain text as it was shown; a plain text has no decoration left, so that it
stays as it is when it is made plain again.
-/

namespace PhotoTags.Tag

theorem mem_of_isInteger {text : List Char} (integer : isInteger text = true) {c : Char}
    (member : c ∈ text) : c.isDigit = true ∨ c = '-' := by
  unfold isInteger at integer
  split at integer
  · rename_i digits
    rcases List.mem_cons.mp member with sign | digit
    · exact .inr sign
    · exact .inl (((Text.isDigits_iff digits).mp integer).2 c digit)
  · exact .inl (((Text.isDigits_iff text).mp integer).2 c member)

theorem exists_of_isQuotient {text : List Char} (quotient : isQuotient text = true) :
    '/' ∈ text ∧ ∀ c ∈ text, c.isDigit = true ∨ c = '-' ∨ c = '/' := by
  unfold isQuotient at quotient
  split at quotient
  · simp at quotient
  · rename_i numerator denominator cut
    obtain ⟨rfl, -⟩ := Text.cutAt_eq_some_iff.mp cut
    rw [Bool.and_eq_true] at quotient
    refine ⟨by simp, fun c member => ?_⟩
    rcases List.mem_append.mp member with first | rest
    · exact (mem_of_isInteger quotient.1 first).imp_right .inl
    · rcases List.mem_cons.mp rest with mark | second
      · exact .inr (.inr mark)
      · exact (mem_of_isInteger quotient.2 second).imp_right .inl

theorem decorated?_eq_some_iff {text quotient : List Char} :
    decorated? text = some quotient ↔
      isQuotient quotient = true ∧ ∃ behind, text = quotient ++ ' ' :: '(' :: behind := by
  constructor
  · intro found
    unfold decorated? at found
    split at found
    · rename_i before behind cut
      obtain ⟨isRatio, same⟩ := Option.ite_none_right_eq_some.mp found
      obtain rfl := Option.some.inj same
      exact ⟨isRatio, behind, (Text.cutAt_eq_some_iff.mp cut).1⟩
    · simp at found
  · rintro ⟨isRatio, behind, rfl⟩
    have noSpace : ' ' ∉ quotient := fun member =>
      absurd ((exists_of_isQuotient isRatio).2 ' ' member) (by decide)
    rw [decorated?, Text.cutAt_eq_some_iff.mpr ⟨rfl, noSpace⟩]
    exact if_pos isRatio

def TellsTime (text : List Char) (time : LocalTime) : Prop :=
  (∃ offset, Calendar.TimestampText text time offset) ∨
    ∃ layout ∈ [Calendar.Layout.dashes, Calendar.Layout.dashesT], layout.Spells none text time

section

variable {text : List Char} {time : LocalTime}

theorem clock?_eq_some_iff : clock? text = some time ↔ TellsTime text time ∧ time.IsReal := by
  constructor
  · intro found
    unfold clock? at found
    split at found
    · rename_i offset read
      obtain rfl := Option.some.inj found
      obtain ⟨stamp, real⟩ := Calendar.timestamp?_eq_some_iff.mp read
      exact ⟨.inl ⟨offset, stamp⟩, real⟩
    · split at found
      · rename_i read
        obtain rfl := Option.some.inj found
        obtain ⟨spells, real⟩ := Calendar.read?_eq_some_iff.mp read
        exact ⟨.inr ⟨_, by simp, spells⟩, real⟩
      · obtain ⟨spells, real⟩ := Calendar.read?_eq_some_iff.mp found
        exact ⟨.inr ⟨_, by simp, spells⟩, real⟩
  · rintro ⟨⟨offset, stamp⟩ | ⟨layout, listed, spells⟩, real⟩
    · rw [clock?, Calendar.timestamp?_eq_some_iff.mpr ⟨stamp, real⟩]
    · have noStamp : Calendar.timestamp? text = none :=
        Option.eq_none_iff_forall_not_mem.mpr fun _ read => by
          have stamp := (Calendar.timestamp?_eq_some_iff.mp read).1
          rcases List.mem_pair.mp listed with rfl | rfl
          · exact stamp.not_spells (by simp [Calendar.Layout.dashes]) spells
          · exact stamp.not_spells (by simp [Calendar.Layout.dashesT]) spells
      have read := Calendar.read?_eq_some_iff.mpr ⟨spells, real⟩
      rw [clock?, noStamp]
      rcases List.mem_pair.mp listed with rfl | rfl
      · rw [read]
      · have noDashes : Calendar.Layout.dashes.read? text = none :=
          Option.eq_none_iff_forall_not_mem.mpr fun _ other => by
            have noLetter : 'T' ∉ text := (Calendar.read?_eq_some_iff.mp other).1.not_mem rfl rfl
              (by decide) (by decide)
            exact noLetter (spells.timeMark_mem 'T' rfl)
        rw [noDashes, read]

theorem TellsTime.slash_not_mem (tells : TellsTime text time) : '/' ∉ text := by
  rcases tells with ⟨offset, stamp⟩ | ⟨layout, listed, spells⟩
  · exact fun member => absurd (stamp.mem member) (by decide)
  · rcases List.mem_pair.mp listed with rfl | rfl
    · exact spells.not_mem rfl rfl (by decide) (by decide)
    · exact spells.not_mem rfl rfl (by decide) (by decide)

theorem TellsTime.dash_mem (tells : TellsTime text time) : '-' ∈ text := by
  rcases tells with ⟨offset, stamp⟩ | ⟨layout, listed, spells⟩
  · exact stamp.dash_mem
  · rcases List.mem_pair.mp listed with rfl | rfl
    · exact spells.dateMark_mem
    · exact spells.dateMark_mem

theorem TellsTime.count_colon (tells : TellsTime text time) : text.count ':' ≤ 3 := by
  rcases tells with ⟨offset, stamp⟩ | ⟨layout, listed, spells⟩
  · rcases stamp.count_colon with ⟨two, -⟩ | three <;> omega
  · rw [spells.count_colon]
    rcases List.mem_pair.mp listed with rfl | rfl <;> decide

theorem undecorated_of_tellsTime (tells : TellsTime text time) (real : time.IsReal) :
    undecorated text = Calendar.Layout.colons.write time := by
  have noQuotient : decorated? text = none :=
    Option.eq_none_iff_forall_not_mem.mpr fun quotient found => by
      obtain ⟨isRatio, behind, rfl⟩ := decorated?_eq_some_iff.mp found
      have slash := (exists_of_isQuotient isRatio).1
      exact tells.slash_not_mem (List.mem_append_left _ slash)
  rw [undecorated, noQuotient, clock?_eq_some_iff.mpr ⟨tells, real⟩]

end

/-- A time that is shown as a timestamp or with dashes is kept when the text is made plain: its year,
month, day, hour, minute and second are read back as they were written, and a date tag with the plain
text has an instant. -/
theorem undecorated_keeps_time {text : List Char} {time : LocalTime}
    (shown : (∃ offset, Calendar.timestamp? text = some (time, offset)) ∨
      ∃ layout ∈ [Calendar.Layout.dashes, Calendar.Layout.dashesT], layout.read? text = some time) :
    TellsTime text time ∧
    Attributes.localTime? (String.ofList (undecorated text)) = some time ∧
    ∀ attributes : Attributes,
      attributes.get? "DateTime" = some (String.ofList (undecorated text)) →
      (∀ zone, attributes.milliseconds? zone = zone.milliseconds time) ∧
      (attributes.typedIn .utc).milliseconds =
        some (1000 * time.seconds + if time.isLeapSecond then 1000 else 0) := by
  obtain ⟨tells, real⟩ : TellsTime text time ∧ time.IsReal := by
    rcases shown with ⟨offset, stamp⟩ | ⟨layout, listed, read⟩
    · obtain ⟨stampText, real⟩ := Calendar.timestamp?_eq_some_iff.mp stamp
      exact ⟨.inl ⟨offset, stampText⟩, real⟩
    · obtain ⟨spells, real⟩ := Calendar.read?_eq_some_iff.mp read
      exact ⟨.inr ⟨layout, listed, spells⟩, real⟩
  have plain : Attributes.localTime? (String.ofList (undecorated text)) = some time := by
    rw [undecorated_of_tellsTime tells real, Attributes.localTime?, String.toList_ofList]
    exact Calendar.read?_write rfl real
  refine ⟨tells, plain, fun attributes stored => ?_⟩
  have held := Attributes.milliseconds?_eq stored plain
  exact ⟨held, (held .utc).trans (Zone.milliseconds_utc real)⟩

theorem undecorated_keeps_time_before_leap_second_ends :
    Attributes.localTime? (String.ofList
      (undecorated "2016-12-31t23:59:60.25−08:00".toList)) =
        some ⟨2016, 12, 31, 23, 59, 60⟩ :=
  (undecorated_keeps_time (.inl ⟨-480, by decide⟩)).2.1

theorem decorated?_of_isQuotient {text : List Char} (isRatio : isQuotient text = true) :
    decorated? text = none ∧ clock? text = none := by
  obtain ⟨slash, plain⟩ := exists_of_isQuotient isRatio
  constructor
  · refine Option.eq_none_iff_forall_not_mem.mpr fun quotient found => ?_
    obtain ⟨-, behind, rfl⟩ := decorated?_eq_some_iff.mp found
    exact absurd (plain ' ' (by simp)) (by decide)
  · refine Option.eq_none_iff_forall_not_mem.mpr fun time found => ?_
    exact (clock?_eq_some_iff.mp found).1.slash_not_mem slash

/-- The layout of date tags has four colons, so that its texts tell no time in any other way. -/
theorem decorated?_colons_write {time : LocalTime} (real : time.IsReal) :
    decorated? (Calendar.Layout.colons.write time) = none ∧
      clock? (Calendar.Layout.colons.write time) = none := by
  have spells : Calendar.Layout.colons.Spells none (Calendar.Layout.colons.write time) time :=
    Calendar.spells_write rfl real none
  constructor
  · refine Option.eq_none_iff_forall_not_mem.mpr fun quotient found => ?_
    obtain ⟨isRatio, behind, same⟩ := decorated?_eq_some_iff.mp found
    have noSlash : '/' ∉ Calendar.Layout.colons.write time :=
      spells.not_mem rfl rfl (by decide) (by decide)
    rw [same] at noSlash
    exact noSlash (List.mem_append_left _ (exists_of_isQuotient isRatio).1)
  · refine Option.eq_none_iff_forall_not_mem.mpr fun other found => ?_
    have few := (clock?_eq_some_iff.mp found).1.count_colon
    rw [spells.count_colon] at few
    exact absurd few (by decide)

theorem decorated?_undecorated (text : List Char) :
    decorated? (undecorated text) = none ∧ clock? (undecorated text) = none := by
  unfold undecorated
  split
  · rename_i quotient found
    exact decorated?_of_isQuotient (decorated?_eq_some_iff.mp found).1
  · rename_i noQuotient
    split
    · rename_i time found
      exact decorated?_colons_write (clock?_eq_some_iff.mp found).2
    · rename_i noClock
      exact ⟨noQuotient, noClock⟩

theorem undecorated_eq_self {text : List Char} (noQuotient : decorated? text = none)
    (noClock : clock? text = none) : undecorated text = text := by
  rw [undecorated, noQuotient, noClock]

/-- The plain texts are those that neither are a decorated quotient nor tell a time with dashes, and
making a text plain leads to one of them at once. -/
theorem undecorated_undecorated (text : List Char) :
    undecorated (undecorated text) = undecorated text ∧
      (undecorated text = text ↔ decorated? text = none ∧ clock? text = none) := by
  obtain ⟨noQuotient, noClock⟩ := decorated?_undecorated text
  refine ⟨undecorated_eq_self noQuotient noClock, ?_, ?_⟩
  · intro same
    rw [same] at noQuotient noClock
    exact ⟨noQuotient, noClock⟩
  · rintro ⟨isNoQuotient, isNoClock⟩
    exact undecorated_eq_self isNoQuotient isNoClock

end PhotoTags.Tag

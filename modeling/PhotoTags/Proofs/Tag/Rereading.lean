import PhotoTags.Proofs.Tag.Canonical

/-!
Texts that an image shows, read again after they were written back. The quotation marks around a text
are taken away after the blanks around it, so that the blanks inside the marks are left and go only
the next time; any other text comes back as it was.
-/

namespace PhotoTags.Tag

theorem bare_of_isQuotient {text : List Char} (isRatio : isQuotient text = true) : Bare text := by
  obtain ⟨slash, plain⟩ := exists_of_isQuotient isRatio
  refine ⟨List.ne_nil_of_mem slash, Text.bounded_of_forall fun c member => ?_,
    Text.bounded_of_forall fun c member => beq_eq_false_iff_ne.mpr ?_⟩
  · rcases plain c member with digit | rfl | rfl
    · exact Calendar.not_isBlank_of_isDigit digit
    · decide
    · decide
  · rcases plain c member with digit | rfl | rfl
    · exact Calendar.ne_of_isDigit digit rfl
    · decide
    · decide

theorem undecorated_eq_or_bare (text : List Char) :
    undecorated text = text ∨ Bare (undecorated text) := by
  unfold undecorated
  split
  · rename_i quotient found
    exact .inr (bare_of_isQuotient (decorated?_eq_some_iff.mp found).1)
  · split
    · exact .inr (bare_write .colons _)
    · exact .inl rfl

section

variable {shown text : List Char}

/-- A plain text is read again as it is if and only if no blanks are around it. -/
theorem plain?_again_iff (read : plain? shown = some text) :
    plain? text = some text ↔ Text.Bounded Text.isBlank text := by
  obtain ⟨bare, stripped, nonempty, rfl⟩ := exists_of_plain? read
  constructor
  · intro same
    obtain ⟨again, strippedAgain, -, whole⟩ := exists_of_plain? same
    rcases undecorated_eq_or_bare again with kept | isBare
    · -- Nothing was taken away the second time, so that the blanks were not either.
      rw [kept] at whole
      rw [← whole] at strippedAgain
      have shorter := (Text.stripWhile_sublist (· == '\x22') (Text.trim (undecorated bare))).length_le
      rw [← strippedAgain] at shorter
      have trimmed := (Text.stripWhile_sublist Text.isBlank (undecorated bare)).eq_of_length_le shorter
      have bounded := Text.bounded_stripWhile Text.isBlank (undecorated bare)
      rwa [trimmed] at bounded
    · rw [whole]
      exact isBare.blanks
  · intro blanks
    have isBare : Bare (undecorated bare) := by
      rcases undecorated_eq_or_bare bare with kept | isBare
      · rw [kept] at blanks ⊢
        exact ⟨nonempty, blanks, stripped ▸ Text.bounded_stripWhile _ _⟩
      · exact isBare
    rw [isBare.plain?_eq, (undecorated_undecorated bare).1]

/-- Without quotation marks around the text no blanks can be left. -/
theorem bounded_of_unquoted (read : plain? shown = some text)
    (unquoted : Text.Bounded (· == '\x22') (Text.trim shown)) :
    Text.Bounded Text.isBlank text := by
  obtain ⟨bare, stripped, -, rfl⟩ := exists_of_plain? read
  rcases undecorated_eq_or_bare bare with kept | isBare
  · rw [kept, stripped, unquoted.stripWhile_eq]
    exact Text.bounded_stripWhile Text.isBlank shown
  · exact isBare.blanks

theorem nul_not_mem_undecorated (visible : '\x00' ∉ text) : '\x00' ∉ undecorated text := by
  unfold undecorated
  split
  · rename_i quotient found
    obtain ⟨-, behind, rfl⟩ := decorated?_eq_some_iff.mp found
    exact fun member => visible (List.mem_append_left _ member)
  · split
    · rename_i time found
      exact nul_not_mem_colons_write (clock?_eq_some_iff.mp found).2
    · exact visible

theorem nul_not_mem_of_plain? (read : plain? shown = some text) (visible : '\x00' ∉ shown) :
    '\x00' ∉ text := by
  obtain ⟨bare, rfl, -, rfl⟩ := exists_of_plain? read
  refine nul_not_mem_undecorated fun member => visible ?_
  exact ((Text.stripWhile_sublist _ _).trans (Text.stripWhile_sublist _ _)).mem member

end

/-- A text that is shown for a field, made plain and written into the field again is shown there as it
was written. It is read as it was if and only if no blanks are around it, and none are if there were
no quotation marks around what was shown first. -/
theorem text_settled_iff {tag : Tag} (format : tag.format = .text)
    (undated : tag.id ∉ Tiff.dateIds) {order : Tiff.ByteOrder} {zone : Option (List Char)}
    {type : Tiff.FieldType} {count : Nat} {bytes : Bytes} {shown text : List Char}
    (held : Tiff.Datum.ofValue? order zone tag.id type count bytes = some (.text shown))
    (read : plain? shown = some text) :
    tag.format.value? (String.ofList text) = some (.text text) ∧
      (∀ order, (fieldOf tag (.text text)).datum? order = some (.text text)) ∧
      (plain? text = some text ↔ Text.Bounded Text.isBlank text) ∧
      (Text.Bounded (· == '\x22') (Text.trim shown) → Text.Bounded Text.isBlank text) := by
  have visible : '\x00' ∉ text := by
    rw [← Tiff.heldText_of_ofValue? held] at read
    exact nul_not_mem_of_plain? read (Tiff.nul_not_mem_heldText bytes)
  refine ⟨value?_text format text, fun order => ?_, plain?_again_iff read, bounded_of_unquoted read⟩
  rw [Tiff.datum?_text (Tiff.sound_text text) order undated rfl, heldText_field visible]

theorem text_settled_foo :
    let make : Tag := ⟨"Make", 0x010F, .main, .text⟩
    let bytes : Bytes := [0x20, 0x46, 0x4F, 0x4F, 0x20, 0]
    Tiff.Datum.ofValue? .big none make.id .ascii 6 bytes = some (.text " FOO ".toList) ∧
      plain? "FOO".toList = some "FOO".toList ∧
      (fieldOf make (.text "FOO".toList)).datum? .big = some (.text "FOO".toList) := by
  intro make bytes
  have held : Tiff.Datum.ofValue? .big none make.id .ascii 6 bytes =
      some (.text " FOO ".toList) := by decide
  have isText : make.format = .text := rfl
  have read : plain? " FOO ".toList = some "FOO".toList := by decide
  obtain ⟨-, rewritten, settled, unquoted⟩ := text_settled_iff isText (by decide) held read
  have noMarks : Text.Bounded (· == '\x22') (Text.trim " FOO ".toList) := by
    refine Text.bounded_of_forall fun c member => beq_eq_false_iff_ne.mpr ?_
    rintro rfl
    exact absurd member (by decide)
  exact ⟨held, settled.mpr (unquoted noMarks), rewritten .big⟩

/-- Blanks inside quotation marks go one reading later than the marks, and a text of such blanks
alone goes altogether. -/
theorem text_unsettled_in_quotes :
    plain? "\x22 FOO \x22".toList = some " FOO ".toList ∧
      plain? " FOO ".toList = some "FOO".toList ∧
      plain? "\x22 \x22".toList = some " ".toList ∧ plain? " ".toList = none := by
  decide

end PhotoTags.Tag

import PhotoTags.Image.Plan
import PhotoTags.Proofs.Tag.Plain
import PhotoTags.Proofs.Text.Fields
import PhotoTags.Proofs.Tiff.Datum

/-!
Canonical texts of tags: those that a tag's value shows again after it was written. A text becomes a
value, the bytes of the value become a datum, and the datum is shown as the text.
-/

namespace PhotoTags.Tag

open Text (bound16 bound32)

theorem trim_eq_of_bare {text : List Char} (bare : Bare text) : Text.trim text = text :=
  bare.blanks.stripWhile_eq

theorem bare_decimal (number : Nat) : Bare (Text.decimal number) :=
  bare_of_digits (decimal_ne_nil number) isDigit_of_mem_decimal

theorem bare_quotientText (ratio : Nat × Nat) : Bare (Image.quotientText ratio) := by
  obtain ⟨first, starts, digit⟩ := head?_quotientText ratio
  have nonempty := decimal_ne_nil ratio.2
  have lastDigit := isDigit_of_mem_decimal _ (List.getLast_mem nonempty)
  refine bare_of_ends starts ?_ (Calendar.not_isBlank_of_isDigit digit)
    (Calendar.ne_of_isDigit digit rfl) (Calendar.not_isBlank_of_isDigit lastDigit)
    (Calendar.ne_of_isDigit lastDigit rfl)
  simp [Image.quotientText, List.getLast?_append, List.getLast?_cons,
    List.getLast?_eq_some_getLast nonempty]

theorem comma_not_mem_quotientText (ratio : Nat × Nat) : ',' ∉ Image.quotientText ratio :=
  not_mem_quotientText ratio (by decide) (by decide)

def FitsWords (ratio : Nat × Nat) : Prop :=
  ratio.1 < bound32 ∧ ratio.2 < bound32

instance (ratio : Nat × Nat) : Decidable (FitsWords ratio) :=
  inferInstanceAs (Decidable (_ ∧ _))

theorem quotient?_quotientText {ratio : Nat × Nat} (fits : FitsWords ratio) :
    quotient? (Image.quotientText ratio) = some ratio := by
  rw [quotient?, cutAt_quotientText]
  simp only [trim_eq_of_bare (bare_decimal _), Text.unsigned?_decimal _ _ fits.1,
    Text.unsigned?_decimal _ _ fits.2]

theorem parts?_single {α : Type} {read? : List Char → Option α} {text : List Char} {value : α}
    (noComma : ',' ∉ text) (bare : Bare text) (read : read? text = some value) :
    parts? read? text = some [value] := by
  simp [parts?, Text.fields_of_not_mem noComma, trim_eq_of_bare bare, read]

theorem parts?_coordinateText {coordinate : Tiff.Coordinate} (degrees : FitsWords coordinate.degrees)
    (minutes : FitsWords coordinate.minutes) (seconds : FitsWords coordinate.seconds) :
    parts? quotient? (Image.coordinateText coordinate) =
      some [coordinate.degrees, coordinate.minutes, coordinate.seconds] := by
  rw [parts?, Image.coordinateText, List.append_assoc, List.cons_append,
    Text.fields_append (comma_not_mem_quotientText _),
    Text.fields_append (comma_not_mem_quotientText _),
    Text.fields_of_not_mem (comma_not_mem_quotientText _)]
  simp [trim_eq_of_bare (bare_quotientText _), quotient?_quotientText, degrees, minutes, seconds]

def IsPrintable (c : Char) : Prop :=
  0x20 ≤ c.toNat ∧ c.toNat < 0x7F

instance (c : Char) : Decidable (IsPrintable c) :=
  inferInstanceAs (Decidable (_ ∧ _))

def references : Nat → List Char
  | 1 => ['N', 'S']
  | 3 => ['E', 'W']
  | _ => []

inductive Canonical (tag : Tag) : List Char → Prop
  | short {number : Nat} (format : tag.format = .short) (bound : number < bound16) :
      Canonical tag (Text.decimal number)
  | long {number : Nat} (format : tag.format = .long) (bound : number < bound32) :
      Canonical tag (Text.decimal number)
  | ratio {ratio : Nat × Nat} (format : tag.format = .rational) (group : tag.group ≠ .gps)
      (fits : FitsWords ratio) : Canonical tag (Image.quotientText ratio)
  | coordinate {coordinate : Tiff.Coordinate} (format : tag.format = .rational)
      (group : tag.group = .gps) (degrees : FitsWords coordinate.degrees)
      (minutes : FitsWords coordinate.minutes) (seconds : FitsWords coordinate.seconds) :
      Canonical tag (Image.coordinateText coordinate)
  | reference {c : Char} (format : tag.format = .text) (group : tag.group = .gps)
      (letter : c ∈ references tag.id) : Canonical tag [c]
  | time {time : LocalTime} (dated : tag.id ∈ Tiff.dateIds) (real : time.IsReal)
      (after : 0 ≤ time.year) (early : time.year ≤ 9999) :
      Canonical tag (Calendar.Layout.colons.write time)
  | text {text : List Char} (format : tag.format = .text) (group : tag.group ≠ .gps)
      (undated : tag.id ∉ Tiff.dateIds) (printable : ∀ c ∈ text, IsPrintable c)
      (unchanged : plain? text = some text) : Canonical tag text

theorem nul_not_mem_of_isPrintable {text : List Char} (printable : ∀ c ∈ text, IsPrintable c) :
    '\x00' ∉ text :=
  fun member => absurd (printable _ member) (by decide)

theorem nul_not_mem_colons_write {time : LocalTime} (real : time.IsReal) :
    '\x00' ∉ Calendar.Layout.colons.write time :=
  (Calendar.spells_write rfl real none).not_mem rfl rfl (by decide) (by decide)

def fieldOf (tag : Tag) (value : Tiff.Value) : Tiff.Field :=
  ⟨Image.directoryOf tag.group, tag.id, 0, value⟩

/-- The datum says of the tag what the text says: a reference or a coordinate directly, any other
tag's by the plain text with which it is shown. -/
inductive Tells (tag : Tag) : Tiff.Datum → List Char → Prop
  | plain {datum : Tiff.Datum} {text : List Char} (group : tag.group ≠ .gps)
      (shown : plain? datum.shown = some text) : Tells tag datum text
  | reference {c : Char} (format : tag.format = .text) (group : tag.group = .gps) :
      Tells tag (.text [c]) [c]
  | coordinate {coordinate : Tiff.Coordinate} (format : tag.format = .rational)
      (group : tag.group = .gps) :
      Tells tag (.ratios false [coordinate.degrees, coordinate.minutes, coordinate.seconds])
        (Image.coordinateText coordinate)

structure Holds (tag : Tag) (text : List Char) (value : Tiff.Value) : Prop where
  written : tag.format.value? (String.ofList text) = some value
  sound : value.Sound
  tells : ∀ order, ∃ datum, (fieldOf tag value).datum? order = some datum ∧ Tells tag datum text

section

variable {tag : Tag}

theorem holds_number {number : Nat} {type : Tiff.FieldType}
    (written : tag.format.value? (String.ofList (Text.decimal number)) = some ⟨type, [number]⟩)
    (numeric : type = .short ∨ type = .long) (within : number < Nat.pow 256 type.width)
    (group : tag.group ≠ .gps) (undated : tag.id ∉ Tiff.dateIds) :
    Holds tag (Text.decimal number) ⟨type, [number]⟩ := by
  have single : type.arity = 1 ∧ type ≠ .ascii := by
    rcases numeric with rfl | rfl <;> decide
  have sound : (fieldOf tag ⟨type, [number]⟩).value.Sound :=
    Tiff.sound_single single.1 within single.2
  refine ⟨written, sound, fun order =>
    ⟨_, Tiff.datum?_number sound order undated rfl numeric, .plain group ?_⟩⟩
  rcases numeric with rfl | rfl <;> exact plain?_decimal number

theorem parts?_decimal {bound number : Nat} (within : number < bound) :
    parts? (Text.unsigned? bound) (Text.decimal number) = some [number] :=
  parts?_single (not_mem_of_isDigit isDigit_of_mem_decimal (by decide)) (bare_decimal number)
    (Text.unsigned?_decimal _ _ within)

theorem holds_ratios {text : List Char} {ratios : List (Nat × Nat)} (format : tag.format = .rational)
    (parts : parts? quotient? text = some ratios) (nonempty : ratios ≠ [])
    (fit : ∀ ratio ∈ ratios, FitsWords ratio) (undated : tag.id ∉ Tiff.dateIds)
    (tells : Tells tag (.ratios false ratios) text) :
    Holds tag text ⟨.rational, Tiff.ratioNumbers ratios⟩ := by
  have sound : (fieldOf tag ⟨.rational, Tiff.ratioNumbers ratios⟩).value.Sound :=
    Tiff.sound_ratios nonempty fit
  refine ⟨?_, sound, fun order => ⟨_, Tiff.datum?_ratios sound order undated rfl, ?_⟩⟩
  · rw [format, Format.value?, String.toList_ofList, parts]
    rfl
  · rwa [fieldOf, Tiff.pairsOf_ratioNumbers]

theorem value?_text (format : tag.format = .text) (text : List Char) :
    tag.format.value? (String.ofList text) = some (.text text) := by
  rw [format, Format.value?, String.toList_ofList]

theorem heldText_field {text : List Char} (visible : '\x00' ∉ text) (order : Tiff.ByteOrder) :
    Tiff.heldText ((fieldOf tag (.text text)).value.bytes order) = text := by
  rw [fieldOf, Tiff.bytes_text, Tiff.heldText_text (Text.ne_zero_of_mem_utf8 visible)]

theorem holds_text {text : List Char} (format : tag.format = .text)
    (undated : tag.id ∉ Tiff.dateIds) (printable : ∀ c ∈ text, IsPrintable c)
    (tells : Tells tag (.text text) text) : Holds tag text (.text text) := by
  refine ⟨value?_text format text, Tiff.sound_text text, fun order => ⟨_, ?_, tells⟩⟩
  rw [Tiff.datum?_text (Tiff.sound_text text) order undated rfl,
    heldText_field (nul_not_mem_of_isPrintable printable)]

theorem holds_time {time : LocalTime} (format : tag.format = .text) (group : tag.group ≠ .gps)
    (dated : tag.id ∈ Tiff.dateIds) (real : time.IsReal) :
    Holds tag (Calendar.Layout.colons.write time) (.text (Calendar.Layout.colons.write time)) := by
  refine ⟨value?_text format _, Tiff.sound_text _, fun order =>
    ⟨.time time none, ?_, .plain group (plain?_dashes real)⟩⟩
  rw [Tiff.datum?_date (Tiff.sound_text _) order dated,
    heldText_field (nul_not_mem_colons_write real), Calendar.read?_write (by decide) real,
    Option.map_some]

theorem isPrintable_of_mem_references {id : Nat} {c : Char} (letter : c ∈ references id) :
    IsPrintable c := by
  unfold references at letter
  split at letter
  · rw [List.mem_cons, List.mem_singleton] at letter
    rcases letter with rfl | rfl <;> decide
  · rw [List.mem_cons, List.mem_singleton] at letter
    rcases letter with rfl | rfl <;> decide
  · simp at letter

theorem group_format_of_dated :
    ∀ tag ∈ table, tag.id ∈ Tiff.dateIds → tag.group ≠ .gps ∧ tag.format = .text := by
  decide

theorem group_of_number :
    ∀ tag ∈ table, tag.format = .short ∨ tag.format = .long → tag.group ≠ .gps := by
  decide

theorem Canonical.holds {text : List Char} (canonical : Canonical tag text)
    (listed : tag ∈ table) : ∃ value, Holds tag text value := by
  have undatedOf (other : tag.group = .gps ∨ tag.format ≠ .text) : tag.id ∉ Tiff.dateIds := by
    intro dated
    obtain ⟨group, format⟩ := group_format_of_dated tag listed dated
    exact other.elim group (fun noText => noText format)
  -- Each form of a text has its own way through the bytes, which the format of the tag decides.
  cases canonical with
  | @short number format bound =>
      have written : tag.format.value? (String.ofList (Text.decimal number)) =
          some ⟨.short, [number]⟩ := by
        rw [format, Format.value?, String.toList_ofList, parts?_decimal bound, Option.map_some]
      exact ⟨_, holds_number written (.inl rfl) bound (group_of_number tag listed (.inl format))
        (undatedOf (.inr (by simp [format])))⟩
  | @long number format bound =>
      have written : tag.format.value? (String.ofList (Text.decimal number)) =
          some ⟨.long, [number]⟩ := by
        rw [format, Format.value?, String.toList_ofList, parts?_decimal bound, Option.map_some]
      exact ⟨_, holds_number written (.inr rfl) bound (group_of_number tag listed (.inr format))
        (undatedOf (.inr (by simp [format])))⟩
  | @ratio ratio format group fits =>
      have parts := parts?_single (comma_not_mem_quotientText ratio) (bare_quotientText ratio)
        (quotient?_quotientText fits)
      exact ⟨_, holds_ratios format parts (List.cons_ne_nil _ _) (by simpa using fits)
        (undatedOf (.inr (by simp [format]))) (.plain group (plain?_ratioText ratio))⟩
  | coordinate format group degrees minutes seconds =>
      have parts := parts?_coordinateText degrees minutes seconds
      exact ⟨_, holds_ratios format parts (List.cons_ne_nil _ _)
        (by simp [degrees, minutes, seconds]) (undatedOf (.inl group)) (.coordinate format group)⟩
  | reference format group letter =>
      exact ⟨_, holds_text format (undatedOf (.inl group))
        (by simpa using isPrintable_of_mem_references letter) (.reference format group)⟩
  | time dated real _ _ =>
      obtain ⟨group, format⟩ := group_format_of_dated tag listed dated
      exact ⟨_, holds_time format group dated real⟩
  | text format group undated printable unchanged =>
      exact ⟨_, holds_text format undated printable (.plain group unchanged)⟩

end

end PhotoTags.Tag

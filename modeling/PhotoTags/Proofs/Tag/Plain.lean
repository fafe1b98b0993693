import PhotoTags.Image.Read
import PhotoTags.Proofs.Tag.Undecorated

/-!
Plain texts of values that are shown. A decimal and a quotient come back without what was put around
them, a date in the layout of date tags, and any other text as it is without the decorations.
-/

namespace PhotoTags.Text

theorem cutAt_of_not_mem {mark : Char} {text : List Char} (absent : mark ∉ text) :
    cutAt mark text = none := by
  have all : ∀ c ∈ text, (c != mark) = true := by
    intro c member
    rw [bne_iff_ne]
    rintro rfl
    exact absent member
  have nothing : text.dropWhile (· != mark) = [] :=
    List.dropWhile_eq_nil_iff.mpr all
  simp [cutAt, nothing]

structure Bounded (inClass : Char → Bool) (text : List Char) : Prop where
  first : ∀ c ∈ text.head?, inClass c = false
  last : ∀ c ∈ text.getLast?, inClass c = false

theorem dropWhile_of_head? {inClass : Char → Bool} {text : List Char}
    (first : ∀ c ∈ text.head?, inClass c = false) : text.dropWhile inClass = text := by
  cases text with
  | nil => rfl
  | cons c rest => exact List.dropWhile_cons_of_neg (by simp [first c rfl])

theorem Bounded.stripWhile_eq {inClass : Char → Bool} {text : List Char}
    (bounded : Bounded inClass text) : stripWhile inClass text = text := by
  have backwards : ∀ c ∈ text.reverse.head?, inClass c = false := by
    rw [List.head?_reverse]
    exact bounded.last
  rw [stripWhile, dropWhile_of_head? bounded.first, dropEndWhile, dropWhile_of_head? backwards,
    List.reverse_reverse]

theorem stripWhile_sublist (inClass : Char → Bool) (text : List Char) :
    (stripWhile inClass text).Sublist text := by
  have behind := List.dropWhile_sublist inClass (l := (text.dropWhile inClass).reverse)
  rw [stripWhile, dropEndWhile, List.reverse_sublist.symm, List.reverse_reverse]
  exact behind.trans (List.reverse_sublist.mpr (List.dropWhile_sublist inClass))

theorem bounded_stripWhile (inClass : Char → Bool) (text : List Char) :
    Bounded inClass (stripWhile inClass text) := by
  have outside (other : List Char) : ∀ c ∈ (other.dropWhile inClass).head?, inClass c = false := by
    intro c first
    have stopped := List.head?_dropWhile_not inClass other
    rw [Option.mem_def.mp first] at stopped
    simpa using stopped
  constructor
  · intro c first
    have front : stripWhile inClass text <+: text.dropWhile inClass := by
      rw [stripWhile, dropEndWhile, ← List.reverse_suffix, List.reverse_reverse]
      exact List.dropWhile_suffix inClass
    obtain ⟨behind, whole⟩ := front
    refine outside text c ?_
    rw [← whole, List.head?_append, Option.mem_def.mp first]
    rfl
  · rw [stripWhile, dropEndWhile, List.getLast?_reverse]
    exact outside _

theorem bounded_of_forall {inClass : Char → Bool} {text : List Char}
    (outside : ∀ c ∈ text, inClass c = false) : Bounded inClass text :=
  ⟨fun c found => outside c (List.mem_of_mem_head? found),
    fun c found => outside c (List.mem_of_mem_getLast? found)⟩

end PhotoTags.Text

namespace PhotoTags.Tag

theorem exists_of_plain? {shown text : List Char} (read : plain? shown = some text) :
    ∃ bare, bare = Text.stripWhile (· == '\x22') (Text.trim shown) ∧ bare ≠ [] ∧
      text = undecorated bare := by
  unfold plain? at read
  dsimp only at read
  split at read
  · simp at read
  · rename_i nonempty
    exact ⟨_, rfl, fun empty => nonempty (by simp [empty]), (Option.some.inj read).symm⟩

structure Bare (text : List Char) : Prop where
  nonempty : text ≠ []
  blanks : Text.Bounded Text.isBlank text
  quotes : Text.Bounded (· == '\x22') text

theorem Bare.plain?_eq {text : List Char} (bare : Bare text) :
    plain? text = some (undecorated text) := by
  have nonempty : text.isEmpty = false := List.isEmpty_eq_false_iff.mpr bare.nonempty
  rw [plain?, Text.trim, bare.blanks.stripWhile_eq, bare.quotes.stripWhile_eq]
  simp [nonempty]

theorem clock?_of_not_mem {text : List Char} (absent : '-' ∉ text) : clock? text = none :=
  Option.eq_none_iff_forall_not_mem.mpr fun _ found =>
    absent (clock?_eq_some_iff.mp found).1.dash_mem

theorem undecorated_of_not_mem {text : List Char} (noSpace : ' ' ∉ text) (noDash : '-' ∉ text) :
    undecorated text = text := by
  have noQuotient : decorated? text = none := by
    rw [decorated?, Text.cutAt_of_not_mem noSpace]
  rw [undecorated, noQuotient, clock?_of_not_mem noDash]

theorem not_mem_of_isDigit {text : List Char} (digits : ∀ c ∈ text, c.isDigit = true) {mark : Char}
    (other : mark.isDigit = false) : mark ∉ text :=
  fun member => Calendar.ne_of_isDigit (digits mark member) other rfl

theorem isDigit_of_mem_decimal {number : Nat} :
    ∀ c ∈ Text.decimal number, c.isDigit = true :=
  fun _ => Calendar.isDigit_of_mem_decimal

theorem decimal_ne_nil (number : Nat) : Text.decimal number ≠ [] :=
  Nat.toDigits_ne_nil

theorem bare_of_ends {text : List Char} {first last : Char} (starts : text.head? = some first)
    (ends : text.getLast? = some last) (firstVisible : Text.isBlank first = false)
    (firstUnquoted : first ≠ '\x22') (visible : Text.isBlank last = false)
    (unquoted : last ≠ '\x22') : Bare text := by
  refine ⟨?_, ⟨?_, ?_⟩, ⟨?_, ?_⟩⟩
  · rintro rfl
    simp at starts
  · simpa [starts] using firstVisible
  · simpa [ends] using visible
  · simpa [starts] using firstUnquoted
  · simpa [ends] using unquoted

theorem bare_of_digits {text : List Char} (nonempty : text ≠ [])
    (digits : ∀ c ∈ text, c.isDigit = true) : Bare text := by
  refine ⟨nonempty, Text.bounded_of_forall fun c member =>
    Calendar.not_isBlank_of_isDigit (digits c member), Text.bounded_of_forall fun c member => ?_⟩
  exact beq_eq_false_iff_ne.mpr (Calendar.ne_of_isDigit (digits c member) rfl)

theorem plain?_decimal (number : Nat) :
    plain? (Text.decimal number) = some (Text.decimal number) := by
  have bare := bare_of_digits (decimal_ne_nil number) isDigit_of_mem_decimal
  rw [bare.plain?_eq, undecorated_of_not_mem
    (not_mem_of_isDigit isDigit_of_mem_decimal (by decide))
    (not_mem_of_isDigit isDigit_of_mem_decimal (by decide))]

theorem isInteger_decimal (number : Nat) : isInteger (Text.decimal number) = true := by
  unfold isInteger
  split
  · rename_i digits starts
    have member : '-' ∈ Text.decimal number := by
      rw [starts]
      exact List.mem_cons_self ..
    exact absurd (isDigit_of_mem_decimal '-' member) (by decide)
  · exact Text.isDigits_decimal number

theorem cutAt_quotientText (ratio : Nat × Nat) :
    Text.cutAt '/' (Image.quotientText ratio) =
      some (Text.decimal ratio.1, Text.decimal ratio.2) :=
  Text.cutAt_eq_some_iff.mpr
    ⟨rfl, not_mem_of_isDigit isDigit_of_mem_decimal (by decide)⟩

theorem isQuotient_quotientText (ratio : Nat × Nat) :
    isQuotient (Image.quotientText ratio) = true := by
  simp [isQuotient, cutAt_quotientText, isInteger_decimal]

theorem mem_quotientText {ratio : Nat × Nat} {c : Char} (member : c ∈ Image.quotientText ratio) :
    c.isDigit = true ∨ c = '/' := by
  rcases List.mem_append.mp member with first | rest
  · exact .inl (isDigit_of_mem_decimal c first)
  · rcases List.mem_cons.mp rest with mark | second
    · exact .inr mark
    · exact .inl (isDigit_of_mem_decimal c second)

theorem ratioText_eq (ratio : Nat × Nat) :
    Tiff.Datum.ratioText false ratio = Image.quotientText ratio ++ ' ' :: '(' ::
      (Decimal.fixedText 4 (Tiff.Datum.quotient ratio.1 ratio.2) ++ [')']) := by
  simp only [Tiff.Datum.ratioText, Bool.false_eq_true, if_false, Text.signedDecimal_natCast,
    Image.quotientText, List.append_assoc, List.cons_append, List.nil_append]

theorem head?_quotientText (ratio : Nat × Nat) :
    ∃ c, (Image.quotientText ratio).head? = some c ∧ c.isDigit = true := by
  obtain ⟨c, rest, digits⟩ := List.exists_cons_of_ne_nil (decimal_ne_nil ratio.1)
  have member : c ∈ Text.decimal ratio.1 := by
    rw [digits]
    exact List.mem_cons_self ..
  refine ⟨c, ?_, isDigit_of_mem_decimal c member⟩
  rw [Image.quotientText, digits]
  rfl

theorem not_mem_quotientText (ratio : Nat × Nat) {mark : Char} (other : mark.isDigit = false)
    (noSlash : mark ≠ '/') : mark ∉ Image.quotientText ratio := by
  intro member
  rcases mem_quotientText member with digit | slash
  · exact Calendar.ne_of_isDigit digit other rfl
  · exact noSlash slash

/-- The decoration behind a quotient is taken away, whatever number it shows. -/
theorem plain?_ratioText (ratio : Nat × Nat) :
    plain? (Tiff.Datum.ratioText false ratio) = some (Image.quotientText ratio) := by
  obtain ⟨c, starts, digit⟩ := head?_quotientText ratio
  have bare : Bare (Tiff.Datum.ratioText false ratio) := by
    have ends : (Tiff.Datum.ratioText false ratio).getLast? = some ')' := by
      rw [ratioText_eq]
      simp [List.getLast?_append, List.getLast?_cons]
    refine bare_of_ends ?_ ends (Calendar.not_isBlank_of_isDigit digit)
      (Calendar.ne_of_isDigit digit rfl) (by decide) (by decide)
    rw [ratioText_eq, List.head?_append, starts]
    rfl
  have quotient := decorated?_eq_some_iff.mpr
    ⟨isQuotient_quotientText ratio, _, ratioText_eq ratio⟩
  rw [bare.plain?_eq, undecorated, quotient]

theorem exists_yearText (year : Int) : ∃ first others, Calendar.yearText year = first :: others ∧
    Text.isBlank first = false ∧ first ≠ '\x22' := by
  obtain ⟨first, others, digits, digit⟩ := Calendar.padded_eq_cons 4 year.natAbs
  unfold Calendar.yearText
  dsimp only
  split
  · exact ⟨'-', _, rfl, by decide, by decide⟩
  · split
    · exact ⟨'+', _, rfl, by decide, by decide⟩
    · exact ⟨first, others, digits, Calendar.not_isBlank_of_isDigit digit,
        Calendar.ne_of_isDigit digit rfl⟩

theorem bare_write (layout : Calendar.Layout) (time : LocalTime) : Bare (layout.write time) := by
  obtain ⟨first, others, year, visible, unquoted⟩ := exists_yearText time.year
  have secondDigits := Calendar.padded_ne_nil 2 time.second
  have lastDigit := Calendar.isDigit_of_mem_padded (List.getLast_mem secondDigits)
  refine bare_of_ends ?_ ?_ visible unquoted
    (Calendar.not_isBlank_of_isDigit lastDigit) (Calendar.ne_of_isDigit lastDigit rfl)
  · rw [Calendar.Layout.write, year]
    simp
  · rw [Calendar.Layout.write, show Calendar.twoDigits time.second =
      Calendar.padded 2 time.second from rfl, List.getLast?_append, List.getLast?_cons,
      List.getLast?_eq_some_getLast secondDigits]
    rfl

theorem plain?_dashes {time : LocalTime} (real : time.IsReal) :
    plain? (Calendar.Layout.dashes.write time) = some (Calendar.Layout.colons.write time) := by
  have tells : TellsTime (Calendar.Layout.dashes.write time) time :=
    .inr ⟨.dashes, by simp, Calendar.spells_write rfl real none⟩
  rw [(bare_write .dashes time).plain?_eq, undecorated_of_tellsTime tells real]

end PhotoTags.Tag

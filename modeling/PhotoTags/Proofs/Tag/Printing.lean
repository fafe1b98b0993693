import Mathlib.Data.List.Basic
import Mathlib.Data.List.Forall2
import PhotoTags.Proofs.Tag.Stored

/-!
Values of tags as texts, and read from them again. The texts of numeric values are a grammar: numbers
or quotients between commas, with blanks around them or without, so that no numeric value is empty.
What an image shows of a value is read as that value, and what is read from any text can be printed
and read again.
-/

namespace PhotoTags.Text

def Padded (text padded : List Char) : Prop :=
  ∃ before behind, (∀ c ∈ before, isBlank c = true) ∧ (∀ c ∈ behind, isBlank c = true) ∧
    padded = before ++ text ++ behind

theorem padded_self (text : List Char) : Padded text text :=
  ⟨[], [], by simp, by simp, by simp⟩

theorem Padded.within {text padded before behind : List Char} (around : Padded text padded)
    (blankBefore : ∀ c ∈ before, isBlank c = true) (blankBehind : ∀ c ∈ behind, isBlank c = true) :
    Padded text (before ++ padded ++ behind) := by
  obtain ⟨first, last, blankFirst, blankLast, rfl⟩ := around
  refine ⟨before ++ first, last ++ behind, ?_, ?_, by simp⟩
  · exact List.forall_mem_append.mpr ⟨blankBefore, blankFirst⟩
  · exact List.forall_mem_append.mpr ⟨blankLast, blankBehind⟩

theorem dropEndWhile_append_takeWhile (inClass : Char → Bool) (text : List Char) :
    dropEndWhile inClass text ++ (text.reverse.takeWhile inClass).reverse = text := by
  rw [dropEndWhile, ← List.reverse_append, List.takeWhile_append_dropWhile, List.reverse_reverse]

theorem padded_trim (text : List Char) : Padded (trim text) text := by
  refine ⟨text.takeWhile isBlank, ((text.dropWhile isBlank).reverse.takeWhile isBlank).reverse,
    fun c member => List.mem_takeWhile_imp member, fun c member => ?_, ?_⟩
  · exact List.mem_takeWhile_imp (List.mem_reverse.mp member)
  · rw [trim, stripWhile, List.append_assoc, dropEndWhile_append_takeWhile,
      List.takeWhile_append_dropWhile]

theorem Padded.trim_eq {text padded : List Char} (around : Padded text padded)
    (nonempty : text ≠ []) (bounded : Bounded isBlank text) : trim padded = text := by
  obtain ⟨before, behind, blankBefore, blankBehind, rfl⟩ := around
  have front : (before ++ text ++ behind).dropWhile isBlank = text ++ behind := by
    rw [List.append_assoc, List.dropWhile_append_of_pos blankBefore]
    refine dropWhile_of_head? fun c first => bounded.first c ?_
    rwa [List.head?_append_of_ne_nil _ nonempty] at first
  have back : (text ++ behind).reverse.dropWhile isBlank = text.reverse := by
    rw [List.reverse_append,
      List.dropWhile_append_of_pos fun c member => blankBehind c (List.mem_reverse.mp member)]
    refine dropWhile_of_head? fun c last => bounded.last c ?_
    rwa [List.head?_reverse] at last
  rw [trim, stripWhile, front, dropEndWhile, back, List.reverse_reverse]

theorem Padded.not_mem {text padded : List Char} (around : Padded text padded) {mark : Char}
    (visible : isBlank mark = false) (absent : mark ∉ text) : mark ∉ padded := by
  obtain ⟨before, behind, blankBefore, blankBehind, rfl⟩ := around
  intro member
  rcases List.mem_append.mp member with front | last
  · rcases List.mem_append.mp front with first | own
    · simp [blankBefore mark first] at visible
    · exact absent own
  · simp [blankBehind mark last] at visible

theorem Numeral.mem {bound number : Nat} {text : List Char} (numeral : Numeral bound text number) :
    ∀ c ∈ text, c = '+' ∨ c.isDigit = true := by
  rcases numeral.2 with plain | ⟨digits, rfl, denotes⟩
  · exact fun c member => .inr (plain.isDigit c member)
  · intro c member
    rcases List.mem_cons.mp member with sign | digit
    · exact .inl sign
    · exact .inr (denotes.isDigit c digit)

theorem Numeral.not_mem {bound number : Nat} {text : List Char}
    (numeral : Numeral bound text number) {mark : Char} (noSign : mark ≠ '+')
    (noDigit : mark.isDigit = false) : mark ∉ text := by
  intro member
  rcases numeral.mem mark member with sign | digit
  · exact noSign sign
  · simp [digit] at noDigit

theorem Numeral.bounded {bound number : Nat} {text : List Char}
    (numeral : Numeral bound text number) : Bounded isBlank text := by
  refine bounded_of_forall fun c member => ?_
  rcases numeral.mem c member with rfl | digit
  · decide
  · exact Calendar.not_isBlank_of_isDigit digit

end PhotoTags.Text

namespace PhotoTags.Tag

open Text (bound16 bound32 Numeral Padded)

def NumberText (bound : Nat) (part : List Char) (number : Nat) : Prop :=
  ∃ numeral, Numeral bound numeral number ∧ Padded numeral part

theorem unsigned?_trim_iff {bound number : Nat} {part : List Char} :
    Text.unsigned? bound (Text.trim part) = some number ↔ NumberText bound part number := by
  rw [Text.unsigned?_eq_some_iff]
  constructor
  · exact fun numeral => ⟨_, numeral, Text.padded_trim part⟩
  · rintro ⟨numeral, denotes, around⟩
    rwa [around.trim_eq denotes.ne_nil denotes.bounded]

theorem numberText_decimal {bound number : Nat} (within : number < bound) :
    NumberText bound (Text.decimal number) number :=
  ⟨_, Text.numeral_decimal within, Text.padded_self _⟩

theorem NumberText.slash_not_mem {bound number : Nat} {part : List Char}
    (text : NumberText bound part number) : '/' ∉ part := by
  obtain ⟨numeral, denotes, around⟩ := text
  exact around.not_mem (by decide) (denotes.not_mem (by decide) (by decide))

theorem NumberText.comma_not_mem {bound number : Nat} {part : List Char}
    (text : NumberText bound part number) : ',' ∉ part := by
  obtain ⟨numeral, denotes, around⟩ := text
  exact around.not_mem (by decide) (denotes.not_mem (by decide) (by decide))

theorem NumberText.lt {bound number : Nat} {part : List Char}
    (text : NumberText bound part number) : number < bound := by
  obtain ⟨numeral, denotes, -⟩ := text
  exact denotes.1

def QuotientText (part : List Char) (ratio : Nat × Nat) : Prop :=
  ∃ first second, part = first ++ '/' :: second ∧ NumberText bound32 first ratio.1 ∧
    NumberText bound32 second ratio.2

theorem quotient?_eq_some_iff {text : List Char} {ratio : Nat × Nat} :
    quotient? text = some ratio ↔ QuotientText text ratio := by
  constructor
  · intro read
    unfold quotient? at read
    split at read
    · simp at read
    · rename_i first second cut
      split at read
      · rename_i numerator denominator
        obtain rfl := Option.some.inj read
        exact ⟨first, second, (Text.cutAt_eq_some_iff.mp cut).1, unsigned?_trim_iff.mp numerator,
          unsigned?_trim_iff.mp denominator⟩
      · simp at read
  · rintro ⟨first, second, whole, numerator, denominator⟩
    have cut := Text.cutAt_eq_some_iff.mpr ⟨whole, numerator.slash_not_mem⟩
    rw [quotient?, cut]
    simp only [unsigned?_trim_iff.mpr numerator, unsigned?_trim_iff.mpr denominator]

/-- Blanks around a quotient are blanks around its numbers. -/
theorem quotientText_trim_iff {part : List Char} {ratio : Nat × Nat} :
    QuotientText (Text.trim part) ratio ↔ QuotientText part ratio := by
  constructor
  · rintro ⟨first, second, whole, ⟨numerator, denotes, around⟩, ⟨denominator, other, behind⟩⟩
    obtain ⟨before, last, blankBefore, blankLast, split⟩ := Text.padded_trim part
    have front : Padded numerator (before ++ first ++ []) := around.within blankBefore (by simp)
    have back : Padded denominator ([] ++ second ++ last) := behind.within (by simp) blankLast
    refine ⟨before ++ first, second ++ last, ?_, ⟨numerator, denotes, by simpa using front⟩,
      ⟨denominator, other, by simpa using back⟩⟩
    calc part = before ++ Text.trim part ++ last := split
      _ = (before ++ first) ++ '/' :: (second ++ last) := by rw [whole]; simp
  · rintro ⟨-, -, rfl, ⟨numerator, denotes, ⟨before, inner, blankBefore, blankInner, rfl⟩⟩,
      ⟨denominator, other, ⟨between, behind, blankBetween, blankBehind, rfl⟩⟩⟩
    have trimmed : Text.trim ((before ++ numerator ++ inner) ++
        '/' :: (between ++ denominator ++ behind)) =
        (numerator ++ inner) ++ '/' :: (between ++ denominator) := by
      refine Padded.trim_eq ⟨before, behind, blankBefore, blankBehind, by simp⟩ (by simp)
        ⟨fun c starts => denotes.bounded.first c ?_, fun c ends => other.bounded.last c ?_⟩
      · rwa [List.append_assoc, List.head?_append_of_ne_nil _ denotes.ne_nil] at starts
      · rwa [← List.cons_append, ← List.append_assoc,
          List.getLast?_append_of_ne_nil _ other.ne_nil] at ends
    refine ⟨_, _, trimmed, ⟨numerator, denotes, [], inner, by simp, blankInner, by simp⟩,
      ⟨denominator, other, between, [], blankBetween, by simp, by simp⟩⟩

theorem QuotientText.comma_not_mem {part : List Char} {ratio : Nat × Nat}
    (text : QuotientText part ratio) : ',' ∉ part := by
  obtain ⟨first, second, rfl, numerator, denominator⟩ := text
  simp [numerator.comma_not_mem, denominator.comma_not_mem]

theorem QuotientText.fitsWords {part : List Char} {ratio : Nat × Nat}
    (text : QuotientText part ratio) : FitsWords ratio := by
  obtain ⟨first, second, -, numerator, denominator⟩ := text
  exact ⟨numerator.lt, denominator.lt⟩

theorem quotientText_quotientText {ratio : Nat × Nat} (fits : FitsWords ratio) :
    QuotientText (Image.quotientText ratio) ratio :=
  quotient?_eq_some_iff.mp (quotient?_quotientText fits)

theorem mapM_eq_some_iff {α β : Type} {read? : α → Option β} {items : List α} {values : List β} :
    items.mapM read? = some values ↔
      List.Forall₂ (fun item value => read? item = some value) items values := by
  induction items generalizing values with
  | nil => simp [List.forall₂_nil_left_iff, eq_comm]
  | cons item rest ih =>
      rw [List.mapM_cons]
      cases values with
      | nil =>
          cases read? item <;> cases rest.mapM read? <;> simp [List.forall₂_nil_right_iff]
      | cons value others =>
          rw [List.forall₂_cons, ← ih]
          cases read? item <;> cases rest.mapM read? <;> simp

def ListText {α : Type} (Says : List Char → α → Prop) (text : List Char) (values : List α) : Prop :=
  ∃ parts, parts ≠ [] ∧ text = Text.joined ',' parts ∧ List.Forall₂ Says parts values

theorem parts?_eq_some_iff {α : Type} {read? : List Char → Option α} {Says : List Char → α → Prop}
    (element : ∀ {part value}, read? (Text.trim part) = some value ↔ Says part value)
    (free : ∀ {part value}, Says part value → ',' ∉ part) {text : List Char} {values : List α} :
    parts? read? text = some values ↔ ListText Says text values := by
  simp only [parts?, mapM_eq_some_iff, element]
  constructor
  · exact fun related => ⟨_, Text.fields_ne_nil ',' text, (Text.joined_fields ',' text).symm, related⟩
  · rintro ⟨parts, nonempty, rfl, related⟩
    have noComma : ∀ part ∈ parts, ',' ∉ part := by
      intro part member
      obtain ⟨place, below, rfl⟩ := List.mem_iff_getElem.mp member
      exact free (related.get below (related.length_eq ▸ below))
    rwa [Text.fields_joined nonempty noComma]

theorem ListText.ne_nil {α : Type} {Says : List Char → α → Prop} {text : List Char}
    {values : List α} (list : ListText Says text values) : values ≠ [] := by
  obtain ⟨parts, nonempty, -, related⟩ := list
  rintro rfl
  exact nonempty (List.forall₂_nil_right_iff.mp related)

theorem ListText.forall_mem {α : Type} {Says : List Char → α → Prop} {text : List Char}
    {values : List α} (list : ListText Says text values) :
    ∀ value ∈ values, ∃ part, Says part value := by
  obtain ⟨parts, -, -, related⟩ := list
  intro value member
  obtain ⟨place, below, rfl⟩ := List.mem_iff_getElem.mp member
  exact ⟨_, related.get (related.length_eq ▸ below) below⟩

theorem listText_joined {α : Type} {Says : List Char → α → Prop} {print : α → List Char}
    {values : List α} (nonempty : values ≠ []) (denoted : ∀ value ∈ values, Says (print value) value) :
    ListText Says (Text.joined ',' (values.map print)) values := by
  refine ⟨values.map print, by simpa using nonempty, rfl, ?_⟩
  rw [List.forall₂_map_left_iff]
  exact List.forall₂_same.mpr denoted

def Format.type : Format → Tiff.FieldType
  | .text => .ascii
  | .short => .short
  | .long => .long
  | .rational => .rational

def Format.bound? : Format → Option Nat
  | .short => some bound16
  | .long => some bound32
  | _ => none

inductive ValueText : Format → List Char → Tiff.Value → Prop
  | text (text : List Char) : ValueText .text text (.text text)
  | numbers {format : Format} {bound : Nat} {text : List Char} {numbers : List Nat}
      (bounded : format.bound? = some bound) (list : ListText (NumberText bound) text numbers) :
      ValueText format text ⟨format.type, numbers⟩
  | ratios {text : List Char} {ratios : List (Nat × Nat)} (list : ListText QuotientText text ratios) :
      ValueText .rational text ⟨.rational, Tiff.ratioNumbers ratios⟩

theorem parts?_unsigned?_iff {bound : Nat} {text : List Char} {numbers : List Nat} :
    parts? (Text.unsigned? bound) text = some numbers ↔ ListText (NumberText bound) text numbers :=
  parts?_eq_some_iff unsigned?_trim_iff NumberText.comma_not_mem

theorem parts?_quotient?_iff {text : List Char} {ratios : List (Nat × Nat)} :
    parts? quotient? text = some ratios ↔ ListText QuotientText text ratios :=
  parts?_eq_some_iff (quotient?_eq_some_iff.trans quotientText_trim_iff) QuotientText.comma_not_mem

theorem value?_eq_some_iff {format : Format} {text : String} {value : Tiff.Value} :
    format.value? text = some value ↔ ValueText format text.toList value := by
  constructor
  · intro read
    cases format with
    | text =>
        obtain rfl := Option.some.inj read
        exact .text _
    | short =>
        obtain ⟨numbers, parts, rfl⟩ := Option.map_eq_some_iff.mp read
        exact .numbers (show Format.bound? .short = some bound16 from rfl) (parts?_unsigned?_iff.mp parts)
    | long =>
        obtain ⟨numbers, parts, rfl⟩ := Option.map_eq_some_iff.mp read
        exact .numbers (show Format.bound? .long = some bound32 from rfl) (parts?_unsigned?_iff.mp parts)
    | rational =>
        obtain ⟨ratios, parts, rfl⟩ := Option.map_eq_some_iff.mp read
        exact .ratios (parts?_quotient?_iff.mp parts)
  · intro denoted
    generalize characters : text.toList = written at denoted
    cases denoted with
    | text => rw [Format.value?, characters]
    | @numbers format bound _ numbers bounded list =>
        cases format with
        | short =>
            obtain rfl := Option.some.inj bounded
            rw [Format.value?, characters, parts?_unsigned?_iff.mpr list]
            rfl
        | long =>
            obtain rfl := Option.some.inj bounded
            rw [Format.value?, characters, parts?_unsigned?_iff.mpr list]
            rfl
        | text => cases bounded
        | rational => cases bounded
    | ratios list =>
        rw [Format.value?, characters, parts?_quotient?_iff.mpr list]
        rfl

def printed (value : Tiff.Value) : List Char :=
  match value.type with
  | .ascii => Text.ofBytes (value.numbers.dropLast.map UInt8.ofNat)
  | .rational => Text.joined ',' ((Tiff.pairsOf value.numbers).map Image.quotientText)
  | _ => Text.joined ',' (value.numbers.map Text.decimal)

theorem printed_text (text : List Char) : printed (.text text) = text := by
  rw [printed, Tiff.Value.text, List.dropLast_concat, List.map_map]
  have bytes (byte : UInt8) : (UInt8.ofNat ∘ UInt8.toNat) byte = byte := UInt8.ofNat_toNat
  rw [List.map_id'' bytes, Text.ofBytes_utf8]

theorem ValueText.printed {format : Format} {text : List Char} {value : Tiff.Value}
    (denoted : ValueText format text value) : ValueText format (printed value) value := by
  cases denoted with
  | text =>
      rw [printed_text]
      exact .text text
  | @numbers format bound _ numbers bounded list =>
      have shape : Tag.printed ⟨format.type, numbers⟩ = Text.joined ',' (numbers.map Text.decimal) := by
        cases format <;> first | rfl | cases bounded
      rw [shape]
      refine .numbers bounded (listText_joined list.ne_nil fun number member => ?_)
      obtain ⟨part, denotes⟩ := list.forall_mem number member
      exact numberText_decimal denotes.lt
  | @ratios _ ratios list =>
      rw [Tag.printed, Tiff.pairsOf_ratioNumbers]
      refine .ratios (listText_joined list.ne_nil fun ratio member => ?_)
      obtain ⟨part, denotes⟩ := list.forall_mem ratio member
      exact quotientText_quotientText denotes.fitsWords

theorem ValueText.numbers_ne_nil {format : Format} {text : List Char} {value : Tiff.Value}
    (denoted : ValueText format text value) : value.numbers ≠ [] := by
  cases denoted with
  | text => simp [Tiff.Value.text]
  | numbers bounded list => exact list.ne_nil
  | @ratios _ ratios list =>
      obtain ⟨ratio, others, rfl⟩ := List.exists_cons_of_ne_nil list.ne_nil
      exact List.cons_ne_nil _ _

theorem undecorated_decorated (ratio : Nat × Nat) (behind : List Char) :
    undecorated (Image.quotientText ratio ++ ' ' :: '(' :: behind) = Image.quotientText ratio := by
  have quotient := decorated?_eq_some_iff.mpr ⟨isQuotient_quotientText ratio, behind, rfl⟩
  rw [undecorated, quotient]

section

variable {format : Format} {bound : Nat}

theorem value?_ofList {text : List Char} {value : Tiff.Value} (denoted : ValueText format text value) :
    format.value? (String.ofList text) = some value :=
  value?_eq_some_iff.mpr (by rwa [String.toList_ofList])

theorem value?_numbers (bounded : format.bound? = some bound) {parts : List (List Char)}
    {numbers : List Nat} (nonempty : numbers ≠ [])
    (elements : List.Forall₂ (NumberText bound) parts numbers) :
    format.value? (String.ofList (Text.joined ',' parts)) = some ⟨format.type, numbers⟩ := by
  refine value?_ofList (.numbers bounded ⟨parts, ?_, rfl, elements⟩)
  rintro rfl
  exact nonempty (List.forall₂_nil_left_iff.mp elements)

theorem value?_ratios {parts : List (List Char)} {ratios : List (Nat × Nat)} (nonempty : ratios ≠ [])
    (elements : List.Forall₂ QuotientText parts ratios) :
    Format.rational.value? (String.ofList (Text.joined ',' parts)) =
      some ⟨.rational, Tiff.ratioNumbers ratios⟩ := by
  refine value?_ofList (.ratios ⟨parts, ?_, rfl, elements⟩)
  rintro rfl
  exact nonempty (List.forall₂_nil_left_iff.mp elements)

theorem plain?_number (format : Format) (number : Nat) :
    plain? (Tiff.Datum.numbers format.type [number]).shown = some (Text.decimal number) := by
  have shown : (Tiff.Datum.numbers format.type [number]).shown = Text.decimal number := by
    cases format <;> rfl
  rw [shown, plain?_decimal]

end

/-- What is printed of a value is read as that value: a number that an image shows, a quotient with
any decoration behind it, a coordinate, a list in its printed form with any blanks around its
parts, and whatever was read before. No numeric value that is read is empty. -/
theorem printed_values_read_back :
    (∀ (format : Format) (bound : Nat), format.bound? = some bound → ∀ number < bound,
      ∃ text, plain? (Tiff.Datum.numbers format.type [number]).shown = some text ∧
        format.value? (String.ofList text) = some ⟨format.type, [number]⟩) ∧
    (∀ ratio, FitsWords ratio → ∀ behind,
      Format.rational.value?
          (String.ofList (undecorated (Image.quotientText ratio ++ ' ' :: '(' :: behind))) =
        some ⟨.rational, [ratio.1, ratio.2]⟩) ∧
    (∀ coordinate : Tiff.Coordinate, FitsWords coordinate.degrees → FitsWords coordinate.minutes →
      FitsWords coordinate.seconds →
      Format.rational.value? (String.ofList (Image.coordinateText coordinate)) =
        some ⟨.rational,
          Tiff.ratioNumbers [coordinate.degrees, coordinate.minutes, coordinate.seconds]⟩) ∧
    (∀ (format : Format) (bound : Nat), format.bound? = some bound →
      ∀ numbers ≠ [], ∀ parts,
      List.Forall₂ (fun part number => number < bound ∧ Padded (Text.decimal number) part)
        parts numbers →
      format.value? (String.ofList (Text.joined ',' parts)) = some ⟨format.type, numbers⟩) ∧
    (∀ ratios ≠ [], ∀ parts,
      List.Forall₂ (fun part ratio => FitsWords ratio ∧ Padded (Image.quotientText ratio) part)
        parts ratios →
      Format.rational.value? (String.ofList (Text.joined ',' parts)) =
        some ⟨.rational, Tiff.ratioNumbers ratios⟩) ∧
    (∀ (format : Format) (text : String) (value : Tiff.Value), format.value? text = some value →
      value.numbers ≠ [] ∧ format.value? (String.ofList (printed value)) = some value) := by
  refine ⟨?number, ?decorated, ?coordinate, ?numbers, ?ratios, ?again⟩
  case number =>
    intro format bound bounded number within
    refine ⟨_, plain?_number format number, value?_ofList (.numbers bounded ?_)⟩
    exact parts?_unsigned?_iff.mp (parts?_decimal within)
  case decorated =>
    intro ratio fits behind
    have single := parts?_single (comma_not_mem_quotientText ratio) (bare_quotientText ratio)
      (quotient?_quotientText fits)
    rw [undecorated_decorated]
    exact value?_ofList (.ratios (parts?_quotient?_iff.mp single))
  case coordinate =>
    intro coordinate degrees minutes seconds
    refine value?_ofList (.ratios (parts?_quotient?_iff.mp ?_))
    exact parts?_coordinateText degrees minutes seconds
  case numbers =>
    intro format bound bounded numbers nonempty parts elements
    refine value?_numbers bounded nonempty (elements.imp fun part number ⟨within, around⟩ => ?_)
    exact ⟨_, Text.numeral_decimal within, around⟩
  case ratios =>
    intro ratios nonempty parts elements
    refine value?_ratios nonempty (elements.imp fun part ratio ⟨fits, around⟩ => ?_)
    rw [← quotientText_trim_iff,
      around.trim_eq (bare_quotientText ratio).nonempty (bare_quotientText ratio).blanks]
    exact quotientText_quotientText fits
  case again =>
    intro format text value read
    have denoted := value?_eq_some_iff.mp read
    exact ⟨denoted.numbers_ne_nil, value?_ofList denoted.printed⟩

theorem printed_values_read_back_between_blanks :
    Format.short.value? (String.ofList ['1', ',', '\u2003', '2', '5', '8', ' ']) =
      some ⟨.short, [1, 258]⟩ := by
  have wide : Padded (Text.decimal 258) ['\u2003', '2', '5', '8', ' '] :=
    ⟨['\u2003'], [' '], List.forall_mem_singleton.mpr (by decide),
      List.forall_mem_singleton.mpr (by decide), by decide⟩
  have within : 1 < bound16 ∧ 258 < bound16 := by simp [bound16]
  exact printed_values_read_back.2.2.2.1 .short bound16 rfl [1, 258] (by decide)
    [['1'], ['\u2003', '2', '5', '8', ' ']]
    (.cons ⟨within.1, Text.padded_self _⟩ (.cons ⟨within.2, wide⟩ .nil))

end PhotoTags.Tag

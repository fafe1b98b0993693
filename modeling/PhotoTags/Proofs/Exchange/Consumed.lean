import PhotoTags.Proofs.Exchange.Grammar
import PhotoTags.Proofs.Text.Position

/-!
How much of a text is read. A text with its entries has a first part that says by itself where it
ends: any text behind it makes no difference, and without any of it the text is malformed.
-/

namespace PhotoTags.Exchange

open Text (Boundary part?)

def ClosedForm (entries : List Entry) (text : List Char) : Prop :=
  ∃ count body, Text.Numeral Text.bound64 count entries.length ∧ EntriesForm entries body ∧
    text = count ++ ' ' :: body

theorem setForm_iff {entries : List Entry} {text : List Char} :
    SetForm entries text ↔ ∃ used rest, ClosedForm entries used ∧ text = used ++ rest := by
  constructor
  · rintro ⟨count, body, rest, numeral, form, rfl⟩
    exact ⟨count ++ ' ' :: body, rest, ⟨count, body, numeral, form, rfl⟩, rfl⟩
  · rintro ⟨_, rest, ⟨count, body, numeral, form, rfl⟩, rfl⟩
    exact ⟨count, body, rest, numeral, form, rfl⟩

theorem ClosedForm.decodeText {entries : List Entry} {used : List Char}
    (form : ClosedForm entries used) (rest : List Char) :
    decodeText (used ++ rest) = .ok (entries, ⟨Text.byteLength used, rest⟩) := by
  obtain ⟨count, body, numeral, entriesForm, rfl⟩ := form
  exact decodeText_eq_ok_iff.mpr ⟨count, body, numeral, entriesForm, rfl, (Nat.zero_add _).symm⟩

theorem ClosedForm.decode {entries : List Entry} {used : List Char} (form : ClosedForm entries used)
    {text : String} {rest : List Char} (same : text.toList = used ++ rest) :
    decode text = .ok entries :=
  decode_eq_ok_iff.mpr (setForm_iff.mpr ⟨used, rest, form, same⟩)

theorem ClosedForm.unique {entries others : List Entry} {first second behind rest : List Char}
    (firstForm : ClosedForm entries first) (secondForm : ClosedForm others second)
    (same : first ++ behind = second ++ rest) : first = second := by
  have read := firstForm.decodeText behind
  rw [same, secondForm.decodeText rest] at read
  obtain ⟨-, cursor⟩ := Prod.mk.inj (Except.ok.inj read)
  obtain ⟨-, rfl⟩ := Cursor.mk.inj cursor
  exact List.append_cancel_right same

structure Consumed (text : String) (entries : List Entry) (length : Nat) : Prop where
  boundary : Boundary text length
  enough : ∀ stop part, length ≤ stop → part? text 0 stop = some part → decode part = .ok entries
  needed : ∀ stop part, stop < length → part? text 0 stop = some part →
    ∃ fault, decode part = .error fault

theorem consumed_of_form {text : String} {entries : List Entry} {used rest : List Char}
    (form : ClosedForm entries used) (same : text.toList = used ++ rest) :
    Consumed text entries (Text.byteLength used) := by
  refine ⟨Text.boundary_iff.mpr ⟨used, rest, same, rfl⟩, ?_, ?_⟩
  · intro stop part order found
    obtain ⟨behind, cut, rfl⟩ := Text.part?_zero_iff.mp found
    rw [cut] at same
    rcases List.append_eq_append_iff.mp same with ⟨more, longer, -⟩ | ⟨more, longer, -⟩
    · rw [longer, Text.byteLength_append] at order
      obtain rfl : more = [] := Text.eq_nil_of_byteLength (by omega)
      rw [List.append_nil] at longer
      exact form.decode (longer.symm.trans (List.append_nil used).symm)
    · exact form.decode longer
  · intro stop part order found
    obtain ⟨behind, cut, rfl⟩ := Text.part?_zero_iff.mp found
    cases read : decode part with
    | error fault => exact ⟨fault, rfl⟩
    | ok others =>
        -- What the part was read from would be all that is read from the text, but is shorter.
        obtain ⟨taken, left, takenForm, partEq⟩ := setForm_iff.mp (decode_eq_ok_iff.mp read)
        rw [cut, partEq, List.append_assoc] at same
        obtain rfl := takenForm.unique form same
        rw [partEq, Text.byteLength_append] at order
        omega

theorem Consumed.unique {text : String} {entries : List Entry} {length other : Nat}
    (consumed : Consumed text entries length) (otherConsumed : Consumed text entries other) :
    other = length := by
  have notShorter {first second : Nat} (whole : Consumed text entries first)
      (shorter : Consumed text entries second) : ¬ second < first := by
    intro order
    obtain ⟨part, found⟩ := Text.exists_part? (Nat.zero_le second)
      (Text.boundary_iff.mpr ⟨[], text.toList, rfl, rfl⟩) shorter.boundary
    obtain ⟨fault, failed⟩ := whole.needed second part order found
    rw [shorter.enough second part (Nat.le_refl second) found] at failed
    simp at failed
  exact Nat.le_antisymm (Nat.not_lt.mp (notShorter otherConsumed consumed))
    (Nat.not_lt.mp (notShorter consumed otherConsumed))

/-- What is read from a text is a first part of it that delimits itself, and the only one. -/
theorem decode_delimits_itself {text : String} {entries : List Entry}
    (decoded : decode text = .ok entries) :
    ∃ length, Consumed text entries length ∧
      (∀ other, Consumed text entries other → other = length) ∧
      ∃ used, part? text 0 length = some used ∧ ∀ rest, decode (used ++ rest) = .ok entries := by
  obtain ⟨used, rest, form, same⟩ := setForm_iff.mp (decode_eq_ok_iff.mp decoded)
  have consumed := consumed_of_form form same
  refine ⟨Text.byteLength used, consumed, fun _ => consumed.unique, String.ofList used, ?_, ?_⟩
  · refine Text.part?_zero_iff.mpr ⟨rest, ?_, ?_⟩ <;> rw [String.toList_ofList]
    exact same
  · intro extension
    exact form.decode (by rw [String.toList_append, String.toList_ofList])

theorem decode_delimits_itself_before_digit :
    let text := "1 é=3 ☀9 x"
    let entries := [("é", "☀")]
    decode text = .ok entries ∧ Consumed text entries 10 ∧
      ∃ used, part? text 0 10 = some used ∧ ∀ rest, decode (used ++ rest) = .ok entries := by
  intro text entries
  have decoded : decode text = .ok entries := by decide +kernel
  have whole : decode "1 é=3 ☀" = .ok entries := by decide +kernel
  have valueless : decode "1 é=3 " = .error ⟨7, .overrun "é" 3 0⟩ := by decide +kernel
  obtain ⟨length, consumed, -, used, part, extended⟩ := decode_delimits_itself decoded
  have upper : ¬ 10 < length := by
    intro more
    obtain ⟨fault, failed⟩ := consumed.needed 10 "1 é=3 ☀" more (by decide +kernel)
    simp [whole] at failed
  have lower : ¬ length ≤ 7 := by
    intro less
    have read := consumed.enough 7 "1 é=3 " less (by decide +kernel)
    simp [valueless] at read
  have outside : length ≠ 8 ∧ length ≠ 9 := by
    constructor <;> (rintro rfl; exact absurd consumed.boundary (by decide +kernel))
  obtain rfl : length = 10 := by omega
  exact ⟨decoded, consumed, used, part, extended⟩

end PhotoTags.Exchange

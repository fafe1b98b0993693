import PhotoTags.Proofs.Exchange.Grammar

/-!
How far reading can go, whatever number of entries stands in front. An entry takes three bytes at
least, so that no more entries are read than a third of the bytes of the text; a greater number only
makes the reading end at the first entry with a fault.
-/

namespace PhotoTags.Text

theorem byteLength_pos {text : List Char} (nonempty : text ≠ []) : 0 < byteLength text := by
  obtain ⟨c, rest, rfl⟩ := List.exists_cons_of_ne_nil nonempty
  have positive := c.utf8Size_pos
  rw [byteLength_cons]
  omega

theorem byteLength_append_cons_of_ascii {mark : Char} (ascii : mark.utf8Size = 1)
    (before behind : List Char) :
    byteLength (before ++ mark :: behind) = byteLength before + 1 + byteLength behind := by
  rw [byteLength_append, byteLength_cons, ascii, Nat.add_assoc]

end PhotoTags.Text

namespace PhotoTags.Exchange

inductive Completed (text : List Char) (count : Nat) : Nat → Cursor → Prop
  | none {cursor : Cursor} : countAt text = .ok (count, cursor) → Completed text count 0 cursor
  | next {index : Nat} {cursor behind : Cursor} {entry : Entry} :
      Completed text count index cursor → index < count →
      entryAt index count cursor = .ok (entry, behind) → Completed text count (index + 1) behind

theorem EntryForm.three_le {entry : Entry} {text : List Char} (form : EntryForm entry text) :
    3 ≤ Text.byteLength text := by
  obtain ⟨-, digits, numeral, rfl⟩ := form
  have digit := Text.byteLength_pos numeral.ne_nil
  rw [Text.byteLength_append_cons_of_ascii rfl, Text.byteLength_append_cons_of_ascii rfl]
  omega

theorem entryAt_advances {index count : Nat} {cursor next : Cursor} {entry : Entry}
    (read : entryAt index count cursor = .ok (entry, next)) : cursor.offset + 3 ≤ next.offset := by
  obtain ⟨text, form, passed⟩ := entryAt_eq_ok read
  have long := form.three_le
  rw [passed.offset_eq]
  omega

theorem Passed.byteLength_le {text part : List Char} {next : Cursor}
    (passed : Passed ⟨0, text⟩ part next) : Text.byteLength part ≤ Text.byteLength text := by
  rw [show text = part ++ next.text from passed.text_eq, Text.byteLength_append]
  exact Nat.le_add_right _ _

/-- What was read: the number of entries, a space, and three bytes at least for each entry. -/
theorem Completed.passed {text : List Char} {count index : Nat} {cursor : Cursor}
    (completed : Completed text count index cursor) :
    ∃ digits body, Text.Numeral Text.bound64 digits count ∧
      Passed ⟨0, text⟩ (digits ++ ' ' :: body) cursor ∧ 3 * index ≤ Text.byteLength body := by
  induction completed with
  | none counted =>
      obtain ⟨digits, numeral, passed⟩ := countAt_eq_ok_iff.mp counted
      exact ⟨digits, [], numeral, passed, Nat.zero_le _⟩
  | next _ _ read ih =>
      obtain ⟨digits, body, numeral, passed, long⟩ := ih
      obtain ⟨last, form, next⟩ := entryAt_eq_ok read
      have more := form.three_le
      refine ⟨digits, body ++ last, numeral, by simpa using passed.append next, ?_⟩
      rw [Text.byteLength_append]
      omega

theorem Completed.bound {text : String} {count index : Nat} {cursor : Cursor}
    (completed : Completed text.toList count index cursor) :
    ∃ digits rest, text.toList = digits ++ ' ' :: rest ∧
      Text.Numeral Text.bound64 digits count ∧
      Text.byteLength digits + 1 + 3 * index ≤ text.utf8ByteSize := by
  obtain ⟨digits, body, numeral, passed, long⟩ := completed.passed
  have within := passed.byteLength_le
  rw [Text.byteLength_append_cons_of_ascii rfl, Text.byteLength_toList] at within
  exact ⟨digits, body ++ cursor.text, by simpa using passed.text_eq, numeral, by omega⟩

theorem Completed.entriesAt {text : List Char} {count index left : Nat} {cursor : Cursor}
    (completed : Completed text count index cursor) (remaining : index + left = count) :
    (∃ entries behind, entriesAt count left cursor = .ok (entries, behind) ∧
      Completed text count count behind) ∨
    ∃ fault stop place, entriesAt count left cursor = .error fault ∧ stop < count ∧
      Completed text count stop place ∧ entryAt stop count place = .error fault := by
  induction left generalizing index cursor with
  | zero =>
      obtain rfl : index = count := remaining
      exact .inl ⟨[], cursor, rfl, completed⟩
  | succ left ih =>
      have number : count - (left + 1) = index := by omega
      rw [Exchange.entriesAt, number]
      cases read : entryAt index count cursor with
      | error fault => exact .inr ⟨fault, index, cursor, rfl, by omega, completed, read⟩
      | ok found =>
          dsimp only
          rcases ih (completed.next (by omega) read) (by omega) with
            ⟨entries, behind, later, all⟩ | ⟨fault, stop, place, later, stopped⟩
          · rw [later]
            exact .inl ⟨_, behind, rfl, all⟩
          · rw [later]
            exact .inr ⟨fault, stop, place, rfl, stopped⟩

/-- Behind a number of entries, reading ends with that many or at the first with a fault. -/
theorem decode_ends {text : String} {count : Nat} {start : Cursor}
    (counted : countAt text.toList = .ok (count, start)) :
    (∃ entries behind, decode text = .ok entries ∧ entries.length = count ∧
      Completed text.toList count count behind) ∨
    ∃ fault stop place, decode text = .error fault ∧ stop < count ∧
      Completed text.toList count stop place ∧ entryAt stop count place = .error fault := by
  have read : decode text = (entriesAt count count start).map (·.1) := by
    rw [decode, decodeText, counted]
  rw [read]
  rcases (Completed.none counted).entriesAt (Nat.zero_add count) with
    ⟨entries, behind, all, completed⟩ | ⟨fault, stop, place, failed, stopped⟩
  · rw [all]
    exact .inl ⟨entries, behind, rfl, (entriesAt_eq_ok_iff.mp all).1, completed⟩
  · rw [failed]
    exact .inr ⟨fault, stop, place, rfl, stopped⟩

theorem exists_countAt_of_decode {text : String} {entries : List Entry}
    (decoded : decode text = .ok entries) :
    ∃ count start, countAt text.toList = .ok (count, start) := by
  cases counted : countAt text.toList with
  | error fault => simp [decode, decodeText, counted, Except.map] at decoded
  | ok found => exact ⟨found.1, found.2, rfl⟩

/-- Every entry that is read takes three bytes at least. So the number in front is that of the
entries read, or reading ends with a fault before it has read more entries than a third of the
bytes. -/
theorem decode_bounded_by_text (text : String) :
    (∀ index count cursor entry next, entryAt index count cursor = .ok (entry, next) →
      cursor.offset + 3 ≤ next.offset) ∧
    (∀ count index cursor, Completed text.toList count index cursor →
      index ≤ text.utf8ByteSize / 3) ∧
    (∀ count start, countAt text.toList = .ok (count, start) →
      (∃ entries behind, decode text = .ok entries ∧ entries.length = count ∧
        Completed text.toList count count behind) ∨
      ∃ fault stop place, decode text = .error fault ∧ stop < count ∧
        Completed text.toList count stop place ∧ entryAt stop count place = .error fault) ∧
    ∀ entries, decode text = .ok entries →
      ∃ digits rest, text.toList = digits ++ ' ' :: rest ∧
        Text.Numeral Text.bound64 digits entries.length ∧
        Text.byteLength digits + 1 + 3 * entries.length ≤ text.utf8ByteSize := by
  refine ⟨fun _ _ _ _ _ => entryAt_advances, ?_, fun _ _ => decode_ends, ?_⟩
  · intro count index cursor completed
    obtain ⟨digits, rest, -, -, long⟩ := completed.bound
    omega
  · intro entries decoded
    obtain ⟨count, start, counted⟩ := exists_countAt_of_decode decoded
    rcases decode_ends counted with
      ⟨all, behind, read, rfl, completed⟩ | ⟨fault, stop, place, failed, -⟩
    · obtain rfl := Except.ok.inj (decoded.symm.trans read)
      exact completed.bound
    · simp [decoded] at failed

theorem decode_bounded_by_text_of_greatest_count :
    let text := "18446744073709551615 =0 é=+1 x"
    let honest := "+2 =0 é=+1 x"
    let count := 18446744073709551615
    let behind : Cursor := ⟨31, []⟩
    entryAt 1 count ⟨24, "é=+1 x".toList⟩ = .ok (("é", "x"), behind) ∧ 24 + 3 ≤ behind.offset ∧
      Completed text.toList count 2 behind ∧ 2 ≤ text.utf8ByteSize / 3 ∧
      decode text = .error ⟨31, .nameUnended 2 count⟩ ∧
      decode honest = .ok [("", ""), ("é", "x")] ∧
      ∃ digits rest, honest.toList = digits ++ ' ' :: rest ∧
        Text.Numeral Text.bound64 digits 2 ∧
        Text.byteLength digits + 1 + 3 * 2 ≤ honest.utf8ByteSize := by
  intro text honest count behind
  have counted : countAt text.toList = .ok (count, ⟨21, "=0 é=+1 x".toList⟩) := by decide +kernel
  have first : entryAt 0 count ⟨21, "=0 é=+1 x".toList⟩ =
      .ok (("", ""), ⟨24, "é=+1 x".toList⟩) := by decide +kernel
  have second : entryAt 1 count ⟨24, "é=+1 x".toList⟩ = .ok (("é", "x"), behind) := by
    decide +kernel
  have failed : decode text = .error ⟨31, .nameUnended 2 count⟩ := by decide +kernel
  have decoded : decode honest = .ok [("", ""), ("é", "x")] := by decide +kernel
  have completed : Completed text.toList count 2 behind :=
    ((Completed.none counted).next (by decide) first).next (by decide) second
  obtain ⟨advances, bounded, -⟩ := decode_bounded_by_text text
  obtain ⟨-, -, -, sized⟩ := decode_bounded_by_text honest
  exact ⟨second, advances _ _ _ _ _ second, completed, bounded _ _ _ completed, failed, decoded,
    sized _ decoded⟩

end PhotoTags.Exchange

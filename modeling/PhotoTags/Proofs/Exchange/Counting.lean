import PhotoTags.Proofs.Exchange.Positions

/-!
The number of entries in front of a text only decides how far reading goes. How an entry is read
depends neither on the number nor on the offset at which the entry stands, so that a reading of fewer
entries is the first part of a reading of more.
-/

namespace PhotoTags.Exchange

def Reason.recounted (count : Nat) : Reason → Reason
  | .nameUnended index _ => .nameUnended index count
  | reason => reason

def Malformed.recounted (count : Nat) (fault : Malformed) : Malformed :=
  { fault with reason := fault.reason.recounted count }

def Malformed.after (start : Nat) (fault : Malformed) : Malformed :=
  { fault with offset := start + fault.offset }

def Cursor.after (start : Nat) (cursor : Cursor) : Cursor :=
  { cursor with offset := start + cursor.offset }

def shifted {α : Type} (start : Nat) (place : α → α) (read : Except Malformed α) :
    Except Malformed α :=
  (read.map place).mapError (·.after start)

theorem lengthAt_after (start : Nat) (name : String) (offset : Nat) (text : List Char) :
    lengthAt name (start + offset) text =
      shifted start (fun found => (found.1, start + found.2.1, found.2.2))
        (lengthAt name offset text) := by
  unfold lengthAt
  cases Text.cutAt ' ' text with
  | none => rfl
  | some parts =>
      dsimp only
      cases Text.unsigned? Text.bound64 parts.1 with
      | none => rfl
      | some length => simp only [shifted, Except.map, Except.mapError, Nat.add_assoc]

theorem valueAt_after (start : Nat) (name : String) (length offset : Nat) (text : List Char) :
    valueAt name length (start + offset) text =
      shifted start id (valueAt name length offset text) := by
  unfold valueAt
  cases cutBytes [] length text <;> rfl

theorem entryAt_after (start index count : Nat) (cursor : Cursor) :
    entryAt index count (cursor.after start) =
      shifted start (fun found => (found.1, found.2.after start)) (entryAt index count cursor) := by
  unfold entryAt
  dsimp only [Cursor.after]
  cases Text.cutAt '=' cursor.text with
  | none => rfl
  | some parts =>
      dsimp only
      rw [Nat.add_assoc, Nat.add_assoc, ← Nat.add_assoc cursor.offset, lengthAt_after]
      cases lengthAt (String.ofList parts.1) (cursor.offset + Text.byteLength parts.1 + 1)
        parts.2 with
      | error fault => rfl
      | ok found =>
          dsimp only [shifted, Except.map, Except.mapError]
          rw [valueAt_after]
          cases valueAt (String.ofList parts.1) found.1 found.2.1 found.2.2 with
          | error fault => rfl
          | ok taken => simp only [shifted, Except.map, Except.mapError, id, Nat.add_assoc]

theorem entriesAt_after (start count left : Nat) (cursor : Cursor) :
    entriesAt count left (cursor.after start) =
      shifted start (fun found => (found.1, found.2.after start)) (entriesAt count left cursor) := by
  induction left generalizing cursor with
  | zero => rfl
  | succ left ih =>
      rw [entriesAt, entriesAt, entryAt_after]
      cases entryAt (count - (left + 1)) count cursor with
      | error fault => rfl
      | ok found =>
          dsimp only [shifted, Except.map, Except.mapError]
          rw [ih]
          cases entriesAt count left found.2 <;> rfl

/-- The number of entries matters to an entry only in what is said about its fault. -/
theorem entryAt_recounted (index count other : Nat) (cursor : Cursor) :
    entryAt index other cursor = (entryAt index count cursor).mapError (·.recounted other) := by
  unfold entryAt lengthAt valueAt
  cases Text.cutAt '=' cursor.text with
  | none => rfl
  | some parts =>
      dsimp only
      cases Text.cutAt ' ' parts.2 with
      | none => rfl
      | some behind =>
          dsimp only
          cases Text.unsigned? Text.bound64 behind.1 with
          | none => rfl
          | some length =>
              dsimp only
              cases cutBytes [] length behind.2 <;> rfl

/-- Reading more entries begins with reading fewer, and ends there if they have a fault. -/
theorem entriesAt_add (count left more : Nat) (cursor : Cursor) :
    entriesAt (count + more) (left + more) cursor =
      match entriesAt count left cursor with
      | .error fault => .error (fault.recounted (count + more))
      | .ok (entries, next) =>
          (entriesAt (count + more) more next).map fun found => (entries ++ found.1, found.2) := by
  induction left generalizing cursor with
  | zero =>
      rw [Nat.zero_add]
      simp only [entriesAt, List.nil_append]
      cases entriesAt (count + more) more cursor <;> rfl
  | succ left ih =>
      have index : count + more - (left + more + 1) = count - (left + 1) := by omega
      rw [Nat.add_right_comm, entriesAt, entriesAt, index, entryAt_recounted _ count]
      cases entryAt (count - (left + 1)) count cursor with
      | error fault => rfl
      | ok found =>
          dsimp only [Except.mapError]
          rw [ih]
          cases entriesAt count left found.2 with
          | error fault => rfl
          | ok first =>
              dsimp only
              cases entriesAt (count + more) more first.2 <;> rfl

def counted (count : Nat) (text : String) : String :=
  String.ofList (Text.decimal count ++ ' ' :: text.toList)

def countLength (count : Nat) : Nat :=
  Text.byteLength (Text.decimal count) + 1

theorem decode_counted {count : Nat} (fits : count < Text.bound64) (text : String) :
    decode (counted count text) =
      shifted (countLength count) id ((entriesAt count count ⟨0, text.toList⟩).map (·.1)) := by
  have start : countAt (Text.decimal count ++ ' ' :: text.toList) =
      .ok (count, Cursor.after (countLength count) ⟨0, text.toList⟩) := by
    refine countAt_eq_ok_iff.mpr ⟨Text.decimal count, Text.numeral_decimal fits, ?_, ?_⟩
    · simp [Cursor.after]
    · rw [Text.byteLength_append]
      simp only [Cursor.after, countLength, Nat.zero_add]
      rfl
  unfold decode decodeText
  rw [counted, String.toList_ofList, start]
  dsimp only
  rw [entriesAt_after]
  cases entriesAt count count ⟨0, text.toList⟩ <;> rfl

theorem boundary_of_counted {count place : Nat} {text : String}
    (boundary : Text.Boundary (counted count text) (countLength count + place)) :
    Text.Boundary text place := by
  have size : countLength count = Text.byteLength (Text.decimal count ++ [' ']) := by
    rw [Text.byteLength_append]
    rfl
  have same : (counted count text).toList = (Text.decimal count ++ [' ']) ++ text.toList := by
    simp [counted]
  rw [size] at boundary
  obtain ⟨taken, behind, cut, rfl⟩ := boundary.split same
  exact Text.boundary_iff.mpr ⟨taken, behind, cut, rfl⟩

/-- Fewer entries are read as the first ones of more, and what is wrong with fewer is wrong with more
at the same place of the text behind the number. -/
theorem decode_counted_fewer (text : String) {fewer more : Nat} (order : fewer ≤ more)
    (fits : more < Text.bound64) :
    (∀ entries, decode (counted more text) = .ok entries →
      decode (counted fewer text) = .ok (entries.take fewer)) ∧
    ∀ fault, decode (counted fewer text) = .error fault →
      ∃ place, Text.Boundary text place ∧ fault.offset = countLength fewer + place ∧
        decode (counted more text) =
          .error ⟨countLength more + place, fault.reason.recounted more⟩ := by
  obtain ⟨others, rfl⟩ := Nat.exists_eq_add_of_le order
  have fewerFit := Nat.lt_of_le_of_lt order fits
  rw [decode_counted fits, entriesAt_add]
  constructor
  · intro entries read
    rw [decode_counted fewerFit]
    cases first : entriesAt fewer fewer ⟨0, text.toList⟩ with
    | error fault => simp [first, shifted, Except.map, Except.mapError] at read
    | ok found =>
        obtain ⟨length, -⟩ := entriesAt_eq_ok_iff.mp first
        rw [first] at read
        dsimp only at read
        cases later : entriesAt (fewer + others) others found.2 with
        | error fault => simp [later, shifted, Except.map, Except.mapError] at read
        | ok rest =>
            simp only [later, shifted, Except.map, Except.mapError, Except.ok.injEq, id] at read ⊢
            rw [← read, List.take_left' length]
  · intro fault failed
    have boundary := Positional.boundary_of_fault failed
    rw [decode_counted fewerFit] at failed
    cases first : entriesAt fewer fewer ⟨0, text.toList⟩ with
    | ok found => simp [first, shifted, Except.map, Except.mapError] at failed
    | error found =>
        simp only [first, shifted, Except.map, Except.mapError, Except.error.injEq] at failed
        subst failed
        exact ⟨found.offset, boundary_of_counted boundary, rfl, rfl⟩

theorem decode_counted_fewer_of_ten :
    let text := "é=1 xb=0 9"
    let broken := "é=1 x9"
    1 ≤ 2 ∧ 2 ≤ 10 ∧ 10 < Text.bound64 ∧
      decode (counted 2 text) = .ok [("é", "x"), ("b", "")] ∧
      decode (counted 1 text) = .ok [("é", "x")] ∧
      decode (counted 2 broken) = .error ⟨8, .nameUnended 1 2⟩ ∧ Text.Boundary broken 6 ∧
      decode (counted 10 broken) = .error ⟨9, .nameUnended 1 10⟩ := by
  intro text broken
  have read : decode (counted 2 text) = .ok [("é", "x"), ("b", "")] := by decide +kernel
  have failed : decode (counted 2 broken) = .error ⟨8, .nameUnended 1 2⟩ := by decide +kernel
  obtain ⟨first, -⟩ := decode_counted_fewer text (by decide : 1 ≤ 2) (by decide)
  obtain ⟨-, faults⟩ := decode_counted_fewer broken (by decide : 2 ≤ 10) (by decide)
  obtain ⟨place, boundary, offset, same⟩ := faults _ failed
  have countLengths : countLength 2 = 2 ∧ countLength 10 = 3 := by decide +kernel
  rw [countLengths.1] at offset
  rw [countLengths.2] at same
  obtain rfl : place = 6 := Nat.add_left_cancel offset.symm
  exact ⟨by decide, by decide, by decide, read, first _ read, failed, boundary, same⟩

end PhotoTags.Exchange

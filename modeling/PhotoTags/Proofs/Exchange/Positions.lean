import PhotoTags.Failure
import PhotoTags.Proofs.Exchange.Grammar
import PhotoTags.Proofs.Text.Position

/-!
Reading by positions. The reader of attribute texts goes along the characters; here a text is read as
its bytes stand in memory, with marks looked for among the bytes and parts taken out between two
positions. Such a reading aborts if a part does not lie between two boundaries, and where it would
count below zero the bytes that are left. It never does: the position from which each entry is read
is a boundary, as are those of all faults, and the reading gives what the reader gives.
-/

namespace PhotoTags.Exchange

theorem cutBytes_eq_short_iff {before text : List Char} {length : Nat} :
    cutBytes before length text = .short ↔ Text.byteLength text < length := by
  fun_induction cutBytes before length text with
  | case1 => simp
  | case2 => simp [Text.byteLength_nil]
  | case3 before left c text fits ih =>
      rw [ih, Text.byteLength_cons]
      omega
  | case4 before left c text exceeds =>
      rw [Text.byteLength_cons]
      simp only [reduceCtorEq, false_iff]
      omega

namespace Positional

open Text (Boundary find? part?)

abbrev Outcome (α : Type) := Except (Failure Malformed) α

def numberAt (text : String) (cursor : Nat) (unended : Reason) (bad : String → Reason) :
    Outcome (Nat × Nat) :=
  match find? text cursor ' ' with
  | none => .error (.error ⟨cursor, unended⟩)
  | some stop =>
      match part? text cursor stop with
      | none => .error .abort
      | some digits =>
          match Text.unsigned? Text.bound64 digits.toList with
          | none => .error (.error ⟨cursor, bad digits⟩)
          | some number => .ok (number, stop + 1)

/-- The position behind the value, if it is below `limit`, the number of positions, and not beyond
the end of the text. -/
def stop? (limit : Nat) (text : String) (cursor length : Nat) : Option Nat :=
  if cursor + length < limit ∧ cursor + length ≤ text.utf8ByteSize then some (cursor + length)
  else none

def valueAt (limit : Nat) (text name : String) (length cursor : Nat) : Outcome (String × Nat) :=
  match stop? limit text cursor length with
  | none =>
      if text.utf8ByteSize < cursor then .error .abort
      else .error (.error ⟨cursor, .overrun name length (text.utf8ByteSize - cursor)⟩)
  | some stop =>
      match part? text cursor stop with
      | none => .error (.error ⟨cursor, .splitCharacter name⟩)
      | some value => .ok (value, stop)

def entryAt (limit : Nat) (text : String) (index count cursor : Nat) : Outcome (Entry × Nat) :=
  match find? text cursor '=' with
  | none => .error (.error ⟨cursor, .nameUnended index count⟩)
  | some stop =>
      match part? text cursor stop with
      | none => .error .abort
      | some name =>
          match numberAt text (stop + 1) (.lengthUnended name) (.badLength name) with
          | .error failure => .error failure
          | .ok (length, cursor) =>
              match valueAt limit text name length cursor with
              | .error failure => .error failure
              | .ok (value, cursor) => .ok ((name, value), cursor)

def entriesAt (limit : Nat) (text : String) (count : Nat) : Nat → Nat → Outcome (List Entry × Nat)
  | 0, cursor => .ok ([], cursor)
  | left + 1, cursor =>
      match entryAt limit text (count - (left + 1)) count cursor with
      | .error failure => .error failure
      | .ok (entry, cursor) =>
          match entriesAt limit text count left cursor with
          | .error failure => .error failure
          | .ok (entries, cursor) => .ok (entry :: entries, cursor)

def countAt (text : String) : Outcome (Nat × Nat) :=
  numberAt text 0 .countUnended .badCount

def decode (limit : Nat) (text : String) : Outcome (List Entry) :=
  match countAt text with
  | .error failure => .error failure
  | .ok (count, cursor) => (entriesAt limit text count count cursor).map (·.1)

inductive Reached (limit : Nat) (text : String) (count : Nat) : Nat → Nat → Prop
  | first {cursor : Nat} : countAt text = .ok (count, cursor) → Reached limit text count 0 cursor
  | next {index cursor behind : Nat} {entry : Entry} : Reached limit text count index cursor →
      index < count → entryAt limit text index count cursor = .ok (entry, behind) →
      Reached limit text count (index + 1) behind

inductive Sound {α : Type} (text : String) (stop : α → Nat) : Outcome α → Prop
  | ok {answer : α} : Boundary text (stop answer) → Sound text stop (.ok answer)
  | fault {fault : Malformed} : Boundary text fault.offset → Sound text stop (.error (.error fault))

section

variable {text : String} {cursor : Nat}

theorem numberAt_sound (unended : Reason) (bad : String → Reason) (boundary : Boundary text cursor) :
    Sound text (·.2) (numberAt text cursor unended bad) := by
  unfold numberAt
  cases found : find? text cursor ' ' with
  | none => exact .fault boundary
  | some stop =>
      obtain ⟨order, last, behind⟩ := boundary.find? (by decide) found
      obtain ⟨digits, part⟩ := Text.exists_part? order boundary last
      dsimp only
      rw [part]
      dsimp only
      cases Text.unsigned? Text.bound64 digits.toList with
      | none => exact .fault boundary
      | some number => exact .ok behind

theorem countAt_sound (text : String) : Sound text (·.2) (countAt text) :=
  numberAt_sound _ _ (Text.boundary_iff.mpr ⟨[], text.toList, rfl, rfl⟩)

theorem valueAt_sound (limit : Nat) (name : String) (length : Nat)
    (boundary : Boundary text cursor) :
    Sound text (·.2) (valueAt limit text name length cursor) := by
  unfold valueAt
  cases stop? limit text cursor length with
  | none =>
      dsimp only
      rw [if_neg (Nat.not_lt.mpr boundary.le)]
      exact .fault boundary
  | some stop =>
      dsimp only
      cases found : part? text cursor stop with
      | none => exact .fault boundary
      | some value => exact .ok (Text.boundary_of_part? found).2

theorem entryAt_sound (limit index count : Nat) (boundary : Boundary text cursor) :
    Sound text (·.2) (entryAt limit text index count cursor) := by
  unfold entryAt
  cases found : find? text cursor '=' with
  | none => exact .fault boundary
  | some stop =>
      obtain ⟨order, last, behind⟩ := boundary.find? (by decide) found
      obtain ⟨name, part⟩ := Text.exists_part? order boundary last
      dsimp only
      rw [part]
      dsimp only
      have sized := numberAt_sound (.lengthUnended name) (.badLength name) behind
      generalize numberAt text (stop + 1) (.lengthUnended name) (.badLength name) = read at sized
      cases sized with
      | fault place => exact .fault place
      | @ok answer place =>
          have taken := valueAt_sound limit name answer.1 place
          dsimp only
          generalize valueAt limit text name answer.1 answer.2 = read at taken
          cases taken with
          | fault place => exact .fault place
          | ok place => exact .ok place

theorem Reached.boundary {limit count index : Nat}
    (reached : Reached limit text count index cursor) : Boundary text cursor := by
  induction reached with
  | first counted =>
      have sound := countAt_sound text
      rw [counted] at sound
      cases sound with
      | ok place => exact place
  | @next index cursor behind entry _ _ read ih =>
      have sound := entryAt_sound limit index count ih
      rw [read] at sound
      cases sound with
      | ok place => exact place

theorem entriesAt_sound (limit count left : Nat) (boundary : Boundary text cursor) :
    Sound text (·.2) (entriesAt limit text count left cursor) := by
  induction left generalizing cursor with
  | zero => exact .ok boundary
  | succ left ih =>
      have sound := entryAt_sound limit (count - (left + 1)) count boundary
      rw [entriesAt]
      generalize entryAt limit text (count - (left + 1)) count cursor = read at sound
      cases sound with
      | fault place => exact .fault place
      | @ok answer place =>
          have later := ih place
          dsimp only
          generalize entriesAt limit text count left answer.2 = read at later
          cases later with
          | fault place => exact .fault place
          | ok place => exact .ok place

end

/-- Reading by positions never aborts, and its faults are at boundaries. -/
theorem decode_sound (limit : Nat) (text : String) :
    (∃ entries, decode limit text = .ok entries) ∨
      ∃ fault, decode limit text = .error (.error fault) ∧ Boundary text fault.offset := by
  have counted := countAt_sound text
  unfold decode
  generalize countAt text = read at counted
  cases counted with
  | @fault fault place => exact .inr ⟨fault, rfl, place⟩
  | @ok answer place =>
      have sound := entriesAt_sound limit answer.1 answer.1 place
      dsimp only
      generalize entriesAt limit text answer.1 answer.1 answer.2 = read at sound
      cases sound with
      | @fault fault place => exact .inr ⟨fault, rfl, place⟩
      | @ok found place => exact .inl ⟨found.1, rfl⟩

def Standing (text : String) (cursor : Cursor) : Prop :=
  ∃ before, text.toList = before ++ cursor.text ∧ Text.byteLength before = cursor.offset

theorem Standing.passed {text : String} {cursor next : Cursor} {part : List Char}
    (standing : Standing text cursor) (passed : Passed cursor part next) : Standing text next := by
  obtain ⟨before, same, offset⟩ := standing
  refine ⟨before ++ part, ?_, ?_⟩
  · rw [same, passed.text_eq, List.append_assoc]
  · rw [Text.byteLength_append, offset, passed.offset_eq]

def located {α β : Type} (place : α → β) (read : Except Malformed α) : Outcome β :=
  (read.map place).mapError .error

section

variable {text : String} {offset : Nat} {rest : List Char}

theorem numberAt_eq (unended : Reason) (bad : String → Reason)
    (standing : Standing text ⟨offset, rest⟩) : numberAt text offset unended bad =
      match Text.cutAt ' ' rest with
      | none => .error (.error ⟨offset, unended⟩)
      | some (digits, _) =>
          match Text.unsigned? Text.bound64 digits with
          | none => .error (.error ⟨offset, bad (String.ofList digits)⟩)
          | some number => .ok (number, offset + Text.byteLength digits + 1) := by
  obtain ⟨before, same, rfl⟩ := standing
  unfold numberAt
  dsimp only at same ⊢
  rw [Text.find?_eq (by decide) same]
  cases cut : Text.cutAt ' ' rest with
  | none => rfl
  | some parts =>
      obtain ⟨digits, behind⟩ := parts
      obtain ⟨rfl, -⟩ := Text.cutAt_eq_some_iff.mp cut
      rw [← List.append_assoc] at same
      simp only [Option.map_some, Text.part?_eq same, String.toList_ofList]

theorem lengthAt_eq (name : String) (standing : Standing text ⟨offset, rest⟩) :
    numberAt text offset (.lengthUnended name) (.badLength name) =
      located (fun found => (found.1, found.2.1)) (lengthAt name offset rest) := by
  rw [numberAt_eq _ _ standing, lengthAt]
  cases Text.cutAt ' ' rest with
  | none => rfl
  | some parts =>
      dsimp only
      cases Text.unsigned? Text.bound64 parts.1 <;> rfl

theorem countAt_eq (text : String) : countAt text =
    located (fun found => (found.1, found.2.offset)) (Exchange.countAt text.toList) := by
  have start : Standing text ⟨0, text.toList⟩ := ⟨[], rfl, rfl⟩
  rw [countAt, numberAt_eq _ _ start, Exchange.countAt]
  cases Text.cutAt ' ' text.toList with
  | none => rfl
  | some parts =>
      dsimp only
      cases Text.unsigned? Text.bound64 parts.1 with
      | none => rfl
      | some count =>
          rw [Nat.zero_add]
          rfl

theorem valueAt_eq {limit : Nat} (fits : text.utf8ByteSize < limit) (name : String) (length : Nat)
    (standing : Standing text ⟨offset, rest⟩) : valueAt limit text name length offset =
      located (fun found => (String.ofList found.1, offset + length))
        (Exchange.valueAt name length offset rest) := by
  obtain ⟨before, same, rfl⟩ := standing
  dsimp only at same
  have size : text.utf8ByteSize = Text.byteLength before + Text.byteLength rest := by
    rw [← Text.byteLength_toList, same, Text.byteLength_append]
  -- There are three ways of taking bytes: there are enough, too few, or a character is cut.
  unfold valueAt Exchange.valueAt
  cases cut : cutBytes [] length rest with
  | «at» value behind =>
      obtain ⟨_, rfl, rfl, rfl⟩ := cutBytes_eq_at cut
      have within : Text.byteLength before + Text.byteLength value ≤ text.utf8ByteSize := by
        rw [size, Text.byteLength_append]
        omega
      have part := Text.part?_eq (same.trans (List.append_assoc before value behind).symm)
      simp only [stop?, within, Nat.lt_of_le_of_lt within fits, and_self, if_true, part]
      rfl
  | short =>
      have few := cutBytes_eq_short_iff.mp cut
      have exceeds : ¬ Text.byteLength before + length ≤ text.utf8ByteSize := by omega
      have order : ¬ text.utf8ByteSize < Text.byteLength before := by omega
      have left : text.utf8ByteSize - Text.byteLength before = Text.byteLength rest := by omega
      simp only [stop?, exceeds, and_false, if_false, order, left]
      rfl
  | insideCharacter =>
      have enough : ¬ Text.byteLength rest < length := by
        intro few
        rw [cutBytes_eq_short_iff.mpr few] at cut
        simp at cut
      have within : Text.byteLength before + length ≤ text.utf8ByteSize := by omega
      have inside :
          part? text (Text.byteLength before) (Text.byteLength before + length) = none := by
        by_contra found
        obtain ⟨part, found⟩ := Option.ne_none_iff_exists'.mp found
        obtain ⟨taken, behind, rfl, rfl⟩ := (Text.boundary_of_part? found).2.split same
        rw [cutBytes_append] at cut
        simp at cut
      simp only [stop?, within, Nat.lt_of_le_of_lt within fits, and_self, if_true, inside]
      rfl

theorem entryAt_eq {limit : Nat} (fits : text.utf8ByteSize < limit) (index count : Nat)
    {cursor : Cursor} (standing : Standing text cursor) :
    entryAt limit text index count cursor.offset =
      located (fun found => (found.1, found.2.offset)) (Exchange.entryAt index count cursor) := by
  obtain ⟨before, same, offset⟩ := standing
  unfold entryAt Exchange.entryAt
  rw [← offset, Text.find?_eq (by decide) same]
  cases cut : Text.cutAt '=' cursor.text with
  | none => rfl
  | some parts =>
      obtain ⟨name, rest⟩ := parts
      obtain ⟨cursorText, -⟩ := Text.cutAt_eq_some_iff.mp cut
      rw [cursorText, ← List.append_assoc] at same
      have behindName :
          Standing text ⟨Text.byteLength before + Text.byteLength name + 1, rest⟩ := by
        refine ⟨before ++ name ++ ['='], by simpa using same, ?_⟩
        rw [Text.byteLength_append, Text.byteLength_append]
        rfl
      simp only [Option.map_some, Text.part?_eq same, lengthAt_eq (String.ofList name) behindName]
      cases sized : lengthAt (String.ofList name)
        (Text.byteLength before + Text.byteLength name + 1) rest with
      | error fault => rfl
      | ok found =>
          obtain ⟨length, behind, others⟩ := found
          obtain ⟨digits, -, restText, rfl⟩ := lengthAt_eq_ok_iff.mp sized
          have passed : Passed ⟨Text.byteLength before + Text.byteLength name + 1, rest⟩
              (digits ++ [' '])
              ⟨Text.byteLength before + Text.byteLength name + 1 + Text.byteLength digits + 1,
                others⟩ := by
            constructor
            · simpa using restText
            · rw [Text.byteLength_append]
              rfl
          dsimp only [located, Except.map, Except.mapError]
          rw [valueAt_eq fits _ _ (behindName.passed passed)]
          cases Exchange.valueAt (String.ofList name) length _ others <;> rfl

theorem entriesAt_eq {limit : Nat} (fits : text.utf8ByteSize < limit) (count left : Nat)
    {cursor : Cursor} (standing : Standing text cursor) :
    entriesAt limit text count left cursor.offset =
      located (fun found => (found.1, found.2.offset)) (Exchange.entriesAt count left cursor) := by
  induction left generalizing cursor with
  | zero => rfl
  | succ left ih =>
      rw [entriesAt, entryAt_eq fits _ count standing, Exchange.entriesAt]
      cases read : Exchange.entryAt (count - (left + 1)) count cursor with
      | error fault => rfl
      | ok found =>
          obtain ⟨entry, next⟩ := found
          obtain ⟨part, -, passed⟩ := entryAt_eq_ok read
          simp only [located, Except.map, Except.mapError]
          rw [ih (standing.passed passed)]
          cases Exchange.entriesAt count left next <;> rfl

end

theorem decode_eq {limit : Nat} {text : String} (fits : text.utf8ByteSize < limit) :
    decode limit text = (Exchange.decode text).mapError .error := by
  have start : Standing text ⟨0, text.toList⟩ := ⟨[], rfl, rfl⟩
  unfold decode Exchange.decode decodeText
  rw [countAt_eq]
  cases read : Exchange.countAt text.toList with
  | error fault => rfl
  | ok found =>
      obtain ⟨count, cursor⟩ := found
      obtain ⟨digits, -, passed⟩ := countAt_eq_ok_iff.mp read
      simp only [located, Except.map, Except.mapError]
      rw [entriesAt_eq fits count count (start.passed passed)]
      cases Exchange.entriesAt count count cursor <;> rfl

theorem boundary_of_fault {text : String} {fault : Malformed}
    (failed : Exchange.decode text = .error fault) : Boundary text fault.offset := by
  have same := decode_eq (Nat.lt_succ_self text.utf8ByteSize)
  rw [failed] at same
  rcases decode_sound (text.utf8ByteSize + 1) text with ⟨entries, read⟩ | ⟨other, found, place⟩
  · simp [read, Except.mapError] at same
  · rw [found] at same
    obtain rfl : other = fault := Failure.error.inj (Except.error.inj same)
    exact place

/-- Each entry is read from a boundary, to another one or to a fault at one, and nothing aborts; and
this is how texts are decoded, so that all faults are at boundaries. -/
theorem decode_stays_at_boundaries (text : String) :
    (∀ limit count index cursor, Reached limit text count index cursor →
      cursor ≤ text.utf8ByteSize ∧ Boundary text cursor ∧
        Sound text (·.2) (entryAt limit text index count cursor)) ∧
      (∀ limit, decode limit text ≠ .error .abort) ∧
      (∀ limit, text.utf8ByteSize < limit →
        decode limit text = (Exchange.decode text).mapError .error) ∧
      ∀ fault, Exchange.decode text = .error fault →
        fault.offset ≤ text.utf8ByteSize ∧ Boundary text fault.offset := by
  refine ⟨?_, ?_, fun _ => decode_eq, ?_⟩
  · intro limit count index cursor reached
    exact ⟨reached.boundary.le, reached.boundary, entryAt_sound limit index count reached.boundary⟩
  · intro limit aborted
    rcases decode_sound limit text with ⟨entries, read⟩ | ⟨fault, failed, -⟩
    · simp [read] at aborted
    · simp [failed] at aborted
  · intro fault failed
    exact ⟨(boundary_of_fault failed).le, boundary_of_fault failed⟩

theorem decode_stays_at_boundaries_of_overrun :
    let text := "2 é=1 a☀=18446744073709551615 b"
    let fault : Malformed := ⟨33, .overrun "☀" 18446744073709551615 1⟩
    Reached Text.bound64 text 2 1 8 ∧ Boundary text 8 ∧
      Sound text (·.2) (entryAt Text.bound64 text 1 2 8) ∧
      Exchange.decode text = .error fault ∧ decode Text.bound64 text = .error (.error fault) ∧
      33 ≤ text.utf8ByteSize ∧ Boundary text 33 := by
  intro text fault
  have counted : countAt text = .ok (2, 2) := by decide +kernel
  have read : entryAt Text.bound64 text 0 2 2 = .ok (("é", "a"), 8) := by decide +kernel
  have reached : Reached Text.bound64 text 2 1 8 := .next (.first counted) (by decide) read
  have failed : Exchange.decode text = .error fault := by decide +kernel
  obtain ⟨stands, -, same, faults⟩ := decode_stays_at_boundaries text
  obtain ⟨-, boundary, sound⟩ := stands _ _ _ _ reached
  refine ⟨reached, boundary, sound, failed, ?_, faults fault failed⟩
  rw [same Text.bound64 (by decide +kernel), failed]
  rfl

end Positional

end PhotoTags.Exchange

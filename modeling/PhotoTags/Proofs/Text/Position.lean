import PhotoTags.Proofs.Text.Utf8

/-!
Positions in a text, counted in bytes from its start. A position is a boundary if a character starts
there or the text ends; a part of a text lies between two boundaries. Looking for an ASCII mark among
the bytes finds the boundaries of the character: no other character has the byte in its encoding.
-/

namespace PhotoTags.Text

def Boundary (text : String) (position : Nat) : Prop :=
  String.Pos.Raw.IsValid text ⟨position⟩

instance (text : String) (position : Nat) : Decidable (Boundary text position) :=
  inferInstanceAs (Decidable (String.Pos.Raw.IsValid text ⟨position⟩))

def Boundary.pos {text : String} {position : Nat} (boundary : Boundary text position) : text.Pos :=
  ⟨⟨position⟩, boundary⟩

def part? (text : String) (start stop : Nat) : Option String :=
  if bounds : start ≤ stop ∧ Boundary text start ∧ Boundary text stop then
    some (text.extract bounds.2.1.pos bounds.2.2.pos)
  else none

def find? (text : String) (start : Nat) (mark : Char) : Option Nat :=
  (((utf8 text.toList).drop start).findIdx? (· == mark.toUInt8)).map (start + ·)

theorem boundary_iff {text : String} {position : Nat} : Boundary text position ↔
    ∃ before behind, text.toList = before ++ behind ∧ byteLength before = position := by
  rw [Boundary, String.Pos.Raw.isValid_iff_exists_append]
  constructor
  · rintro ⟨before, behind, rfl, stands⟩
    refine ⟨before.toList, behind.toList, String.toList_append, ?_⟩
    rw [byteLength_toList]
    exact (congrArg String.Pos.Raw.byteIdx stands).symm
  · rintro ⟨before, behind, same, rfl⟩
    refine ⟨String.ofList before, String.ofList behind, ?_, ?_⟩
    · rw [← String.ofList_append, ← same, String.ofList_toList]
    · exact congrArg String.Pos.Raw.mk (utf8ByteSize_ofList before).symm

theorem Boundary.le {text : String} {position : Nat} (boundary : Boundary text position) :
    position ≤ text.utf8ByteSize :=
  String.Pos.Raw.IsValid.le_utf8ByteSize boundary

/-- A boundary behind a first part of the text cuts what is behind that part. -/
theorem Boundary.split {text : String} {before rest : List Char} {length : Nat}
    (boundary : Boundary text (byteLength before + length)) (same : text.toList = before ++ rest) :
    ∃ taken behind, rest = taken ++ behind ∧ byteLength taken = length := by
  obtain ⟨front, behind, whole, size⟩ := boundary_iff.mp boundary
  rw [same] at whole
  rcases List.append_eq_append_iff.mp whole with ⟨taken, rfl, rfl⟩ | ⟨other, rfl, rfl⟩
  · rw [byteLength_append] at size
    exact ⟨taken, behind, rfl, Nat.add_left_cancel size⟩
  · rw [byteLength_append] at size
    exact ⟨[], rest, rfl, by rw [byteLength_nil]; omega⟩

theorem part?_append (before part behind : String) :
    part? (before ++ part ++ behind) before.utf8ByteSize (before ++ part).utf8ByteSize =
      some part := by
  have start : Boundary (before ++ part ++ behind) before.utf8ByteSize :=
    String.Pos.Raw.isValid_iff_exists_append.mpr ⟨before, part ++ behind, String.append_assoc, rfl⟩
  have stop : Boundary (before ++ part ++ behind) (before ++ part).utf8ByteSize :=
    String.Pos.Raw.isValid_iff_exists_append.mpr ⟨before ++ part, behind, rfl, rfl⟩
  have order : before.utf8ByteSize ≤ (before ++ part).utf8ByteSize := by
    rw [String.utf8ByteSize_append]
    exact Nat.le_add_right _ _
  have cut : (before ++ part ++ behind).extract start.pos stop.pos = part := by
    have behindStart := ByteArray.extract_append_size_add (a := before.toByteArray)
      (b := part.toByteArray ++ behind.toByteArray) (i := 0) (j := part.toByteArray.size)
    rw [Nat.add_zero, ByteArray.extract_append_eq_left rfl] at behindStart
    rw [← String.toByteArray_inj, String.toByteArray_extract]
    simp only [Boundary.pos, String.toByteArray_append, ByteArray.append_assoc,
      ← String.size_toByteArray, ByteArray.size_append]
    exact behindStart
  rw [part?, dif_pos ⟨order, start, stop⟩, cut]

theorem part?_eq {text : String} {before part behind : List Char}
    (same : text.toList = before ++ part ++ behind) :
    part? text (byteLength before) (byteLength before + byteLength part) =
      some (String.ofList part) := by
  have cut := part?_append (String.ofList before) (String.ofList part) (String.ofList behind)
  simp only [← String.ofList_append, utf8ByteSize_ofList] at cut
  rw [← byteLength_append]
  rwa [← same, String.ofList_toList] at cut

theorem exists_part? {text : String} {start stop : Nat} (order : start ≤ stop)
    (first : Boundary text start) (last : Boundary text stop) :
    ∃ part, part? text start stop = some part := by
  rw [part?, dif_pos ⟨order, first, last⟩]
  exact ⟨_, rfl⟩

theorem boundary_of_part? {text part : String} {start stop : Nat}
    (found : part? text start stop = some part) : Boundary text start ∧ Boundary text stop := by
  unfold part? at found
  split at found
  · rename_i bounds
    exact bounds.2
  · simp at found

theorem eq_nil_of_byteLength {text : List Char} (empty : byteLength text = 0) : text = [] := by
  cases text with
  | nil => rfl
  | cons c rest =>
      have positive := c.utf8Size_pos
      rw [byteLength_cons] at empty
      omega

theorem part?_zero_iff {text part : String} {stop : Nat} : part? text 0 stop = some part ↔
    ∃ behind, text.toList = part.toList ++ behind ∧ byteLength part.toList = stop := by
  have first {before behind : List Char} (same : text.toList = before ++ behind) :
      part? text 0 (byteLength before) = some (String.ofList before) := by
    have cut := @part?_eq text [] before behind same
    rwa [byteLength_nil, Nat.zero_add] at cut
  constructor
  · intro found
    obtain ⟨before, behind, same, rfl⟩ := boundary_iff.mp (boundary_of_part? found).2
    rw [first same] at found
    obtain rfl := Option.some.inj found
    exact ⟨behind, by rwa [String.toList_ofList], by rw [String.toList_ofList]⟩
  · rintro ⟨behind, same, rfl⟩
    rw [first same, String.ofList_toList]

theorem length_utf8 (text : List Char) : (utf8 text).length = byteLength text := by
  induction text with
  | nil => rfl
  | cons c rest ih =>
      rw [utf8_cons, List.length_append, String.length_utf8EncodeChar, ih, byteLength_cons]

theorem le_of_mem_utf8EncodeChar {c : Char} {byte : UInt8} (wide : 128 ≤ c.toNat)
    (member : byte ∈ String.utf8EncodeChar c) : 128 ≤ byte.toNat := by
  have notAscii : ¬ c.val.toNat ≤ 127 := Nat.not_le.mpr wide
  simp only [String.utf8EncodeChar, notAscii, if_false] at member
  -- In each of the longer encodings every byte has a high bit added to it.
  repeat' split at member
  all_goals
    simp only [List.mem_cons, List.not_mem_nil, or_false] at member
    rcases member with rfl | rfl | rfl | rfl <;> simp only [UInt8.toNat_ofNat'] <;> omega

theorem mem_utf8EncodeChar_iff {mark c : Char} (ascii : mark.toNat < 128) :
    mark.toUInt8 ∈ String.utf8EncodeChar c ↔ c = mark := by
  have byte : mark.toUInt8.toNat = mark.toNat := by
    rw [Char.toUInt8, UInt32.toNat_toUInt8]
    exact Nat.mod_eq_of_lt (Nat.lt_trans ascii (by decide))
  by_cases narrow : c.toNat < 128
  · rw [utf8EncodeChar_of_ascii narrow, List.mem_singleton, ← UInt8.toNat_inj, byte,
      UInt8.toNat_ofNat_of_lt' (by omega : c.toNat < 256)]
    constructor
    · exact fun same => Char.toNat_inj.mp same.symm
    · rintro rfl
      rfl
  · constructor
    · intro member
      have high := le_of_mem_utf8EncodeChar (Nat.not_lt.mp narrow) member
      omega
    · rintro rfl
      exact absurd ascii narrow

theorem mem_utf8_iff {mark : Char} (ascii : mark.toNat < 128) (text : List Char) :
    mark.toUInt8 ∈ utf8 text ↔ mark ∈ text := by
  rw [utf8, List.mem_flatMap]
  simp only [mem_utf8EncodeChar_iff ascii, exists_eq_right]

theorem not_mem_of_cutAt {mark : Char} {text : List Char} (uncut : cutAt mark text = none) :
    mark ∉ text := by
  intro member
  obtain ⟨before, behind, same, absent⟩ := List.eq_append_cons_of_mem member
  rw [cutAt_eq_some_iff.mpr ⟨same, absent⟩] at uncut
  simp at uncut

theorem findIdx?_utf8 {mark : Char} (ascii : mark.toNat < 128) (text : List Char) :
    (utf8 text).findIdx? (· == mark.toUInt8) =
      (cutAt mark text).map fun parts => byteLength parts.1 := by
  have unfound {part : List Char} (absent : mark ∉ part) :
      (utf8 part).findIdx? (· == mark.toUInt8) = none := by
    rw [List.findIdx?_eq_none_iff]
    intro byte member
    rw [beq_eq_false_iff_ne]
    rintro rfl
    exact absent ((mem_utf8_iff ascii part).mp member)
  cases cut : cutAt mark text with
  | none => exact unfound (not_mem_of_cutAt cut)
  | some parts =>
      obtain ⟨before, behind⟩ := parts
      obtain ⟨rfl, absent⟩ := cutAt_eq_some_iff.mp cut
      have single : String.utf8EncodeChar mark = [mark.toUInt8] := utf8EncodeChar_of_ascii ascii
      rw [utf8, List.flatMap_append, List.flatMap_cons, ← utf8, ← utf8, List.findIdx?_append,
        unfound absent, single, length_utf8]
      simp [List.findIdx?_cons]

/-- From a boundary on, the mark is found where the characters behind the boundary are cut. -/
theorem find?_eq {text : String} {before behind : List Char} {mark : Char}
    (ascii : mark.toNat < 128) (same : text.toList = before ++ behind) :
    find? text (byteLength before) mark =
      (cutAt mark behind).map fun parts => byteLength before + byteLength parts.1 := by
  have rest : (utf8 text.toList).drop (byteLength before) = utf8 behind := by
    rw [same, utf8, List.flatMap_append, ← utf8, ← utf8, ← length_utf8, List.drop_left]
  rw [find?, rest, findIdx?_utf8 ascii, Option.map_map]
  rfl

theorem Boundary.find? {text : String} {start stop : Nat} {mark : Char} (ascii : mark.toNat < 128)
    (boundary : Boundary text start) (found : find? text start mark = some stop) :
    start ≤ stop ∧ Boundary text stop ∧ Boundary text (stop + 1) := by
  obtain ⟨before, behind, same, rfl⟩ := boundary_iff.mp boundary
  rw [find?_eq ascii same, Option.map_eq_some_iff] at found
  obtain ⟨⟨middle, rest⟩, cut, rfl⟩ := found
  obtain ⟨rfl, -⟩ := cutAt_eq_some_iff.mp cut
  dsimp only
  refine ⟨Nat.le_add_right _ _,
    boundary_iff.mpr ⟨before ++ middle, mark :: rest, by simp [same], ?_⟩,
    boundary_iff.mpr ⟨before ++ middle ++ [mark], rest, by simp [same], ?_⟩⟩
  · exact byteLength_append before middle
  · have narrow : mark.utf8Size = 1 := by
      rw [← String.length_utf8EncodeChar, utf8EncodeChar_of_ascii ascii, List.length_singleton]
    rw [byteLength_append, byteLength_append, byteLength_cons, byteLength_nil, narrow]

end PhotoTags.Text

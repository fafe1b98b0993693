import PhotoTags.Text.Cut
import PhotoTags.Text.Utf8

/-!
Texts and their bytes. The length of a text counts the bytes of its encoding, and the order of
encodings is the order of code points: where two characters differ, the first byte in which their
encodings differ stands the same way round. Only NUL is encoded or decoded with a NUL byte.
-/

namespace PhotoTags.Text

theorem utf8ByteSize_ofList (text : List Char) :
    (String.ofList text).utf8ByteSize = byteLength text := by
  induction text with
  | nil => rfl
  | cons c rest ih =>
      rw [← List.singleton_append, String.ofList_append, String.utf8ByteSize_append, ih,
        ← String.singleton_eq_ofList, String.utf8ByteSize_singleton, List.singleton_append,
        byteLength_cons]

theorem byteLength_toList (text : String) : byteLength text.toList = text.utf8ByteSize := by
  rw [← utf8ByteSize_ofList, String.ofList_toList]

theorem cons_ofNat_lt_iff {low high : Nat} (lowByte : low < 256) (highByte : high < 256)
    (left right : List UInt8) :
    UInt8.ofNat low :: left < UInt8.ofNat high :: right ↔
      low < high ∨ low = high ∧ left < right := by
  rw [List.cons_lt_cons_iff, UInt8.lt_iff_toNat_lt, ← UInt8.toNat_inj,
    UInt8.toNat_ofNat_of_lt' lowByte, UInt8.toNat_ofNat_of_lt' highByte]

theorem toNat_lt_last (c : Char) : c.val.toNat < 1114112 := by
  rcases c.valid with low | high
  · have below : c.val.toNat < 55296 := low
    omega
  · exact high.2

theorem utf8EncodeChar_append_lt {c d : Char} (before : c < d) (left right : List UInt8) :
    String.utf8EncodeChar c ++ left < String.utf8EncodeChar d ++ right := by
  have number : c.val.toNat < d.val.toNat := before
  have bound := toNat_lt_last d
  have third (n : Nat) : n / 4096 = n / 64 / 64 := by omega
  have fourth (n : Nat) : n / 262144 = n / 64 / 64 / 64 := by omega
  have place (m n : Nat) : m < n ↔ m / 64 < n / 64 ∨ m / 64 = n / 64 ∧ m % 64 < n % 64 := by omega
  rw [place, place (c.val.toNat / 64), place (c.val.toNat / 64 / 64)] at number
  unfold String.utf8EncodeChar
  dsimp only
  -- One goal for each pair of lengths; the first byte tells different lengths apart.
  repeat' split
  all_goals simp (disch := omega) only [List.cons_append, List.nil_append, cons_ofNat_lt_iff,
    third, fourth]
  all_goals omega

theorem utf8_cons (c : Char) (text : List Char) :
    utf8 (c :: text) = String.utf8EncodeChar c ++ utf8 text := by
  simp [utf8]

theorem utf8_lt {left right : List Char} (before : left < right) : utf8 left < utf8 right := by
  induction before with
  | @nil c rest =>
      rw [utf8_cons]
      cases bytes : String.utf8EncodeChar c with
      | nil => exact absurd bytes String.utf8EncodeChar_ne_nil
      | cons byte others => exact List.nil_lt_cons byte (others ++ utf8 rest)
  | @rel c left d right first =>
      rw [utf8_cons, utf8_cons]
      exact utf8EncodeChar_append_lt first (utf8 left) (utf8 right)
  | @cons c left right _ ih =>
      rw [utf8_cons, utf8_cons]
      exact List.append_left_lt ih

theorem toByteArray_eq (bytes : List UInt8) : bytes.toByteArray = ⟨bytes.toArray⟩ := by
  apply ByteArray.ext
  simp

theorem ofUtf8?_utf8 (text : List Char) : ofUtf8? (utf8 text) = some text := by
  have bytes : (⟨(utf8 text).toArray⟩ : ByteArray) = (String.ofList text).toByteArray := by
    rw [String.toByteArray_ofList, List.utf8Encode, toByteArray_eq]
    rfl
  rw [ofUtf8?, bytes, String.fromUTF8?, dif_pos (String.ofList text).isValidUTF8, Option.map_some]
  exact congrArg some String.toList_ofList

theorem ofBytes_utf8 (text : List Char) : ofBytes (utf8 text) = text := by
  rw [ofBytes, ofUtf8?_utf8, Option.getD_some]

theorem utf8EncodeChar_of_ascii {c : Char} (ascii : c.toNat < 128) :
    String.utf8EncodeChar c = [UInt8.ofNat c.toNat] := by
  have low : c.toNat ≤ 127 := by omega
  simp [String.utf8EncodeChar, low]

theorem utf8_of_ofUtf8? {bytes : Bytes} {text : List Char} (read : ofUtf8? bytes = some text) :
    utf8 text = bytes := by
  obtain ⟨decoded, found, rfl⟩ := Option.map_eq_some_iff.mp read
  rw [String.fromUTF8?] at found
  split at found
  · rename_i valid
    obtain rfl := Option.some.inj found
    have encoded : (String.ofList (String.fromUTF8 ⟨bytes.toArray⟩ valid).toList).toByteArray =
        ⟨bytes.toArray⟩ := by
      rw [String.ofList_toList]
      rfl
    rw [String.toByteArray_ofList, List.utf8Encode, toByteArray_eq, ByteArray.mk.injEq] at encoded
    exact congrArg Array.toList encoded
  · simp at found

theorem ne_zero_of_mem_utf8EncodeChar {c : Char} (visible : c ≠ '\x00') :
    ∀ byte ∈ String.utf8EncodeChar c, byte ≠ 0 := by
  have positive : c.val.toNat ≠ 0 := fun zero => visible (Char.ext (UInt32.toNat_inj.mp zero))
  have last := toNat_lt_last c
  have nonzero {number : Nat} (low : number < 256) (high : 0 < number) : UInt8.ofNat number ≠ 0 := by
    rw [ne_eq, ← UInt8.toNat_inj, UInt8.toNat_ofNat_of_lt' low]
    exact Nat.ne_of_gt high
  unfold String.utf8EncodeChar
  dsimp only
  repeat' split
  all_goals repeat' refine List.forall_mem_cons.mpr ⟨nonzero (by omega) (by omega), ?_⟩
  all_goals simp

theorem ne_zero_of_mem_utf8 {text : List Char} (visible : '\x00' ∉ text) :
    ∀ byte ∈ utf8 text, byte ≠ 0 := by
  intro byte member
  obtain ⟨c, listed, encoded⟩ := List.mem_flatMap.mp member
  refine ne_zero_of_mem_utf8EncodeChar ?_ byte encoded
  rintro rfl
  exact visible listed

/-- Without NUL bytes there is no NUL character, whichever way the bytes are decoded. -/
theorem nul_not_mem_ofBytes {bytes : Bytes} (visible : ∀ byte ∈ bytes, byte ≠ 0) :
    '\x00' ∉ ofBytes bytes := by
  unfold ofBytes
  cases decoded : ofUtf8? bytes with
  | some text =>
      rw [Option.getD_some]
      intro member
      have encoded : (0 : UInt8) ∈ utf8 text := List.mem_flatMap.mpr ⟨_, member, by decide⟩
      rw [utf8_of_ofUtf8? decoded] at encoded
      exact visible 0 encoded rfl
  | none =>
      rw [Option.getD_none, ofLatin1]
      intro member
      obtain ⟨byte, listed, same⟩ := List.mem_map.mp member
      have valid : byte.toNat.isValidChar := .inl (Nat.lt_trans byte.toNat_lt (by decide))
      have number : (Char.ofNat byte.toNat).toNat = 0 := by rw [same]; rfl
      rw [Char.ofNat, dif_pos valid] at number
      exact visible byte listed (UInt8.toNat_inj.mp number)

end PhotoTags.Text

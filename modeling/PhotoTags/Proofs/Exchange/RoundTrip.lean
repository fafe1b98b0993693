import PhotoTags.Proofs.Exchange.Grammar

/-!
Writing and reading back. Nothing in a text is escaped, so entries come back exactly if no name has
an equals sign; values may hold anything.
-/

namespace PhotoTags.Exchange

def Fits (entries : List Entry) : Prop :=
  entries.length < Text.bound64 ∧ ∀ entry ∈ entries, entry.2.utf8ByteSize < Text.bound64

instance (entries : List Entry) : Decidable (Fits entries) :=
  inferInstanceAs (Decidable (_ ∧ _))

theorem entryForm_entryText {entry : Entry} (nameFree : '=' ∉ entry.1.toList)
    (fits : entry.2.utf8ByteSize < Text.bound64) : EntryForm entry (entryText entry) := by
  refine ⟨nameFree, Text.decimal entry.2.utf8ByteSize, Text.numeral_decimal fits, ?_⟩
  rw [entryText, Text.byteLength_toList]

theorem entriesForm_flatMap {entries : List Entry}
    (namesFree : ∀ entry ∈ entries, '=' ∉ entry.1.toList)
    (fit : ∀ entry ∈ entries, entry.2.utf8ByteSize < Text.bound64) :
    EntriesForm entries (entries.flatMap entryText) := by
  induction entries with
  | nil => exact .nil
  | cons entry rest ih =>
      rw [List.flatMap_cons]
      apply EntriesForm.cons
      · exact entryForm_entryText (namesFree entry (by simp)) (fit entry (by simp))
      · exact ih (fun other member => namesFree other (by simp [member]))
          (fun other member => fit other (by simp [member]))

theorem setForm_setText {entries : List Entry} (fits : Fits entries)
    (namesFree : ∀ entry ∈ entries, '=' ∉ entry.1.toList) : SetForm entries (setText entries) := by
  refine ⟨Text.decimal entries.length, entries.flatMap entryText, [],
    Text.numeral_decimal fits.1, entriesForm_flatMap namesFree fits.2, ?_⟩
  simp [setText]

theorem EntriesForm.short {entries : List Entry} {text : List Char}
    (form : EntriesForm entries text) :
    ∀ entry ∈ entries, entry.2.utf8ByteSize < Text.bound64 := by
  induction form with
  | nil => simp
  | cons entryForm _ ih =>
      obtain ⟨-, length, numeral, -⟩ := entryForm
      intro entry member
      rcases List.mem_cons.mp member with rfl | later
      · exact numeral.1
      · exact ih entry later

theorem short_of_decode {text : String} {entries : List Entry}
    (decoded : decode text = .ok entries) :
    ∀ entry ∈ entries, entry.2.utf8ByteSize < Text.bound64 := by
  obtain ⟨_, _, _, _, form, _⟩ := decode_eq_ok_iff.mp decoded
  exact form.short

theorem decode_setText_iff {entries : List Entry} (fits : Fits entries) :
    decode (String.ofList (setText entries)) = .ok entries ↔
      ∀ entry ∈ entries, '=' ∉ entry.1.toList := by
  rw [decode_eq_ok_iff, String.toList_ofList]
  constructor
  · rintro ⟨_, _, _, _, form, _⟩
    exact form.name_free
  · exact setForm_setText fits

theorem eq_of_append_mark {mark : Char} {first second behind rest : List Char}
    (same : first ++ mark :: behind = second ++ mark :: rest) (firstFree : mark ∉ first)
    (secondFree : mark ∉ second) : first = second ∧ behind = rest := by
  have cut := Text.cutAt_eq_some_iff.mpr ⟨same, secondFree⟩
  rw [Text.cutAt_eq_some_iff.mpr ⟨rfl, firstFree⟩] at cut
  exact Prod.mk.inj (Option.some.inj cut)

theorem eq_of_append_byteLength {first second behind rest : List Char}
    (same : first ++ behind = second ++ rest)
    (length : Text.byteLength first = Text.byteLength second) : first = second ∧ behind = rest := by
  have cut := cutBytes_append [] first behind
  rw [same, length, cutBytes_append [] second rest] at cut
  obtain ⟨value, text⟩ := Cut.at.inj cut
  exact ⟨value.symm, text.symm⟩

/-- A text that starts as an entry was written, whatever form its length has, starts with that
entry. -/
theorem eq_of_append_entryText {entry other : Entry} {bound : Nat} {digits behind rest : List Char}
    (nameFree : '=' ∉ entry.1.toList) (otherFree : '=' ∉ other.1.toList)
    (numeral : Text.Numeral bound digits entry.2.utf8ByteSize)
    (same : entry.1.toList ++ '=' :: digits ++ ' ' :: entry.2.toList ++ behind =
      entryText other ++ rest) :
    entry = other ∧ behind = rest := by
  have text : entry.1.toList ++ '=' :: (digits ++ ' ' :: (entry.2.toList ++ behind)) =
      other.1.toList ++ '=' :: (Text.decimal (Text.byteLength other.2.toList) ++
        ' ' :: (other.2.toList ++ rest)) := by
    simpa [entryText] using same
  obtain ⟨name, behindName⟩ := eq_of_append_mark text nameFree otherFree
  obtain ⟨rfl, behindLength⟩ := eq_of_append_mark behindName numeral.space_not_mem
    (Text.numeral_decimal (Nat.lt_succ_self _)).space_not_mem
  have size := numeral.eq_of_decimal
  rw [← Text.byteLength_toList] at size
  obtain ⟨value, later⟩ := eq_of_append_byteLength behindLength size
  exact ⟨Prod.ext (String.toList_inj.mp name) (String.toList_inj.mp value), later⟩

theorem EntriesForm.eq_of_flatMap {found entries : List Entry} {body rest : List Char}
    (form : EntriesForm found body) (namesFree : ∀ entry ∈ entries, '=' ∉ entry.1.toList)
    (length : found.length = entries.length) (same : body ++ rest = entries.flatMap entryText) :
    found = entries := by
  -- Each entry of the form takes from the text just what was written for the entry at its place.
  induction form generalizing entries with
  | nil => exact (List.length_eq_zero_iff.mp length.symm).symm
  | @cons entry found head tail entryForm _ ih =>
      cases entries with
      | nil => simp at length
      | cons other entries =>
          obtain ⟨nameFree, digits, numeral, rfl⟩ := entryForm
          rw [List.append_assoc, List.flatMap_cons] at same
          obtain ⟨own, behind⟩ := eq_of_append_entryText nameFree
            (namesFree other (List.mem_cons_self ..)) numeral same
          rw [own, ih (fun later member => namesFree later (List.mem_cons_of_mem _ member))
            (Nat.succ.inj length) behind]

theorem eq_of_decode_setText {entries found : List Entry}
    (namesFree : ∀ entry ∈ entries, '=' ∉ entry.1.toList)
    (decoded : decode (String.ofList (setText entries)) = .ok found) : found = entries := by
  obtain ⟨count, body, rest, numeral, form, same⟩ := decode_eq_ok_iff.mp decoded
  rw [String.toList_ofList, setText, List.append_assoc, List.cons_append] at same
  obtain ⟨rfl, behind⟩ := eq_of_append_mark same
    (Text.numeral_decimal (Nat.lt_succ_self _)).space_not_mem numeral.space_not_mem
  exact form.eq_of_flatMap namesFree numeral.eq_of_decimal behind.symm

/-- Entries without an equals sign in a name are told apart by what is written for them, however
long their values are. -/
theorem eq_of_setText {entries others : List Entry}
    (namesFree : ∀ entry ∈ entries, '=' ∉ entry.1.toList)
    (othersFree : ∀ entry ∈ others, '=' ∉ entry.1.toList)
    (same : setText entries = setText others) : entries = others := by
  have numeral (number : Nat) : Text.Numeral (number + 1) (Text.decimal number) number :=
    Text.numeral_decimal (Nat.lt_succ_self number)
  obtain ⟨count, body⟩ := eq_of_append_mark same (numeral entries.length).space_not_mem
    (numeral others.length).space_not_mem
  have length := (count ▸ numeral entries.length).eq_of_decimal
  clear same count
  induction entries generalizing others with
  | nil => exact (List.length_eq_zero_iff.mp length.symm).symm
  | cons entry rest ih =>
      cases others with
      | nil => simp at length
      | cons other others =>
          have size : Text.Numeral (entry.2.utf8ByteSize + 1)
              (Text.decimal (Text.byteLength entry.2.toList)) entry.2.utf8ByteSize := by
            rw [Text.byteLength_toList]
            exact numeral entry.2.utf8ByteSize
          obtain ⟨rfl, behind⟩ := eq_of_append_entryText (namesFree entry (List.mem_cons_self ..))
            (othersFree other (List.mem_cons_self ..)) size body
          rw [ih (fun later member => namesFree later (List.mem_cons_of_mem _ member))
            (fun later member => othersFree later (List.mem_cons_of_mem _ member)) behind
            (Nat.succ.inj length)]

theorem thumbnailName_free : '=' ∉ thumbnailName.toList := by decide

/-- What was written is read back, with the thumbnail entry or without it, if and only if no name
that was written has an equals sign. -/
theorem decode_encode_iff (entries : List Entry) (fits : Fits (withoutThumbnail entries)) :
    (decode (encode entries) = .ok (withoutThumbnail entries) ↔
      ∀ entry ∈ withoutThumbnail entries, '=' ∉ entry.1.toList) ∧
    ∀ hasThumbnail, Fits (withoutThumbnail entries ++ [thumbnailEntry hasThumbnail]) →
      (decode (encodeWithThumbnail entries hasThumbnail) =
          .ok (withoutThumbnail entries ++ [thumbnailEntry hasThumbnail]) ↔
        ∀ entry ∈ withoutThumbnail entries, '=' ∉ entry.1.toList) := by
  refine ⟨decode_setText_iff fits, fun hasThumbnail fitsWithFlag => ?_⟩
  rw [encodeWithThumbnail, decode_setText_iff fitsWithFlag]
  constructor
  · intro namesFree entry member
    exact namesFree entry (List.mem_append_left _ member)
  · intro namesFree entry member
    rcases List.mem_append.mp member with kept | flag
    · exact namesFree entry kept
    · rw [List.mem_singleton.mp flag]
      exact thumbnailName_free

theorem decode_encode_delimiters :
    let entries := [("1 b", "c=2 d"), ("hasThumbnail", "x"), ("", "é")]
    Fits (withoutThumbnail entries) ∧ Fits (withoutThumbnail entries ++ [thumbnailEntry true]) ∧
      decode (encode entries) = .ok [("1 b", "c=2 d"), ("", "é")] ∧
      decode (encodeWithThumbnail entries true) =
        .ok [("1 b", "c=2 d"), ("", "é"), ("hasThumbnail", "true")] := by
  intro entries
  have fits : Fits (withoutThumbnail entries) := by decide
  have fitsWithFlag : Fits (withoutThumbnail entries ++ [thumbnailEntry true]) := by decide
  obtain ⟨plain, flagged⟩ := decode_encode_iff entries fits
  exact ⟨fits, fitsWithFlag, plain.mpr (by decide), (flagged true fitsWithFlag).mpr (by decide)⟩

end PhotoTags.Exchange

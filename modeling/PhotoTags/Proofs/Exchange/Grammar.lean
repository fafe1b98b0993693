import PhotoTags.Exchange.Decode
import PhotoTags.Proofs.Text.Numeral
import PhotoTags.Proofs.Text.Utf8

/-!
The grammar of attribute texts, apart from the reader: which texts stand for an entry, for several
entries one after another and for a whole set. The reader takes from a text exactly what the grammar
allows, one lemma for each of its steps, and so accepts exactly the texts of the grammar.
-/

namespace PhotoTags.Exchange

def EntryForm (entry : Entry) (text : List Char) : Prop :=
  '=' ∉ entry.1.toList ∧ ∃ length, Text.Numeral Text.bound64 length entry.2.utf8ByteSize ∧
    text = entry.1.toList ++ '=' :: length ++ ' ' :: entry.2.toList

inductive EntriesForm : List Entry → List Char → Prop
  | nil : EntriesForm [] []
  | cons {entry : Entry} {entries : List Entry} {head tail : List Char} : EntryForm entry head →
      EntriesForm entries tail → EntriesForm (entry :: entries) (head ++ tail)

def SetForm (entries : List Entry) (text : List Char) : Prop :=
  ∃ count body rest, Text.Numeral Text.bound64 count entries.length ∧ EntriesForm entries body ∧
    text = count ++ ' ' :: body ++ rest

theorem EntriesForm.name_free {entries : List Entry} {text : List Char}
    (form : EntriesForm entries text) : ∀ entry ∈ entries, '=' ∉ entry.1.toList := by
  induction form with
  | nil => simp
  | cons entryForm _ ih =>
      intro entry member
      rcases List.mem_cons.mp member with first | later
      · rw [first]
        exact entryForm.1
      · exact ih entry later

structure Passed (cursor : Cursor) (text : List Char) (next : Cursor) : Prop where
  text_eq : cursor.text = text ++ next.text
  offset_eq : next.offset = cursor.offset + Text.byteLength text

theorem Passed.refl (cursor : Cursor) : Passed cursor [] cursor := by
  constructor
  · rfl
  · simp [Text.byteLength_nil]

theorem Passed.append {first second third : Cursor} {head tail : List Char}
    (passedHead : Passed first head second) (passedTail : Passed second tail third) :
    Passed first (head ++ tail) third := by
  constructor
  · rw [passedHead.text_eq, passedTail.text_eq, List.append_assoc]
  · rw [passedTail.offset_eq, passedHead.offset_eq, Text.byteLength_append]
    omega

theorem Passed.split {first third : Cursor} {head tail : List Char}
    (passed : Passed first (head ++ tail) third) :
    ∃ second, Passed first head second ∧ Passed second tail third := by
  refine ⟨⟨first.offset + Text.byteLength head, tail ++ third.text⟩, ⟨?_, rfl⟩, ⟨rfl, ?_⟩⟩
  · rw [passed.text_eq, List.append_assoc]
  · rw [passed.offset_eq, Text.byteLength_append]
    simp only
    omega

theorem Passed.text_injective {cursor first second : Cursor} {text : List Char}
    (left : Passed cursor text first) (right : Passed cursor text second) : first = second := by
  have sameText : first.text = second.text :=
    List.append_cancel_left (left.text_eq.symm.trans right.text_eq)
  have sameOffset : first.offset = second.offset := left.offset_eq.trans right.offset_eq.symm
  cases first
  cases second
  simp_all

theorem cutBytes_append (before value rest : List Char) :
    cutBytes before (Text.byteLength value) (value ++ rest) = .at (before.reverse ++ value) rest := by
  induction value generalizing before with
  | nil => simp [Text.byteLength_nil, cutBytes]
  | cons c value ih =>
      have positive := c.utf8Size_pos
      obtain ⟨left, leftEq⟩ : ∃ left, c.utf8Size + Text.byteLength value = left + 1 :=
        ⟨c.utf8Size + Text.byteLength value - 1, by omega⟩
      have remaining : left + 1 - c.utf8Size = Text.byteLength value := by omega
      rw [Text.byteLength_cons, leftEq, List.cons_append, cutBytes, if_pos (by omega), remaining, ih]
      simp

theorem cutBytes_eq_at {before text value rest : List Char} {length : Nat}
    (cut : cutBytes before length text = .at value rest) :
    ∃ taken, value = before.reverse ++ taken ∧ text = taken ++ rest ∧
      Text.byteLength taken = length := by
  fun_induction cutBytes before length text with
  | case1 before text =>
      obtain ⟨rfl, rfl⟩ := Cut.at.inj cut
      exact ⟨[], by simp, rfl, rfl⟩
  | case2 => simp at cut
  | case3 before left c text fits ih =>
      obtain ⟨taken, valueEq, textEq, lengthEq⟩ := ih cut
      refine ⟨c :: taken, ?_, ?_, ?_⟩
      · simp [valueEq]
      · simp [textEq]
      · rw [Text.byteLength_cons, lengthEq]
        omega
  | case4 => simp at cut

theorem valueAt_eq_ok_iff {name : String} {length offset : Nat} {text value rest : List Char} :
    valueAt name length offset text = .ok (value, rest) ↔
      text = value ++ rest ∧ Text.byteLength value = length := by
  constructor
  · intro taken
    unfold valueAt at taken
    split at taken
    · rename_i before behind cut
      obtain ⟨rfl, rfl⟩ := Prod.mk.inj (Except.ok.inj taken)
      obtain ⟨value, rfl, textEq, lengthEq⟩ := cutBytes_eq_at cut
      exact ⟨by simpa using textEq, by simpa using lengthEq⟩
    · simp at taken
    · simp at taken
  · rintro ⟨rfl, rfl⟩
    simp [valueAt, cutBytes_append]

theorem lengthAt_eq_ok_iff {name : String} {offset length next : Nat} {text rest : List Char} :
    lengthAt name offset text = .ok (length, next, rest) ↔
      ∃ digits, Text.Numeral Text.bound64 digits length ∧ text = digits ++ ' ' :: rest ∧
        next = offset + Text.byteLength digits + 1 := by
  constructor
  · intro taken
    unfold lengthAt at taken
    split at taken
    · simp at taken
    · rename_i digits behind found
      split at taken
      · simp at taken
      · rename_i number read
        simp only [Except.ok.injEq, Prod.mk.injEq] at taken
        obtain ⟨rfl, rfl, rfl⟩ := taken
        exact ⟨digits, Text.unsigned?_eq_some_iff.mp read, (Text.cutAt_eq_some_iff.mp found).1, rfl⟩
  · rintro ⟨digits, numeral, rfl, rfl⟩
    have found : Text.cutAt ' ' (digits ++ ' ' :: rest) = some (digits, rest) :=
      Text.cutAt_eq_some_iff.mpr ⟨rfl, numeral.space_not_mem⟩
    simp [lengthAt, found, Text.unsigned?_eq_some_iff.mpr numeral]

theorem entryAt_eq_ok {index count : Nat} {cursor next : Cursor} {entry : Entry}
    (taken : entryAt index count cursor = .ok (entry, next)) :
    ∃ text, EntryForm entry text ∧ Passed cursor text next := by
  unfold entryAt at taken
  split at taken
  · simp at taken
  · rename_i nameText rest found
    dsimp only at taken
    split at taken
    · simp at taken
    · rename_i length offset behind lengthTaken
      split at taken
      · simp at taken
      · rename_i value behindValue valueTaken
        obtain ⟨rfl, rfl⟩ := Prod.mk.inj (Except.ok.inj taken)
        obtain ⟨nameEq, nameFree⟩ := Text.cutAt_eq_some_iff.mp found
        obtain ⟨digits, numeral, restEq, offsetEq⟩ := lengthAt_eq_ok_iff.mp lengthTaken
        obtain ⟨behindEq, lengthEq⟩ := valueAt_eq_ok_iff.mp valueTaken
        refine ⟨nameText ++ '=' :: digits ++ ' ' :: value, ⟨by simpa using nameFree, digits, ?_, ?_⟩,
          ?_, ?_⟩
        · rw [Text.utf8ByteSize_ofList, lengthEq]
          exact numeral
        · simp
        · simp [nameEq, restEq, behindEq]
        · simp only [Text.byteLength_append, Text.byteLength_cons, offsetEq, lengthEq]
          simp [Char.utf8Size]
          omega

theorem entryAt_of_form {index count : Nat} {cursor next : Cursor} {entry : Entry}
    {text : List Char} (form : EntryForm entry text) (passed : Passed cursor text next) :
    entryAt index count cursor = .ok (entry, next) := by
  obtain ⟨name, value⟩ := entry
  obtain ⟨nameFree, digits, numeral, rfl⟩ := form
  dsimp only at nameFree numeral passed
  let lengthOffset := cursor.offset + Text.byteLength name.toList + 1
  let valueOffset := lengthOffset + Text.byteLength digits + 1
  have found : Text.cutAt '=' cursor.text =
      some (name.toList, digits ++ ' ' :: (value.toList ++ next.text)) := by
    apply Text.cutAt_eq_some_iff.mpr
    refine ⟨?_, nameFree⟩
    rw [passed.text_eq]
    simp
  have lengthTaken : lengthAt name lengthOffset (digits ++ ' ' :: (value.toList ++ next.text)) =
      .ok (value.utf8ByteSize, valueOffset, value.toList ++ next.text) :=
    lengthAt_eq_ok_iff.mpr ⟨digits, numeral, rfl, rfl⟩
  have valueTaken : valueAt name value.utf8ByteSize valueOffset (value.toList ++ next.text) =
      .ok (value.toList, next.text) :=
    valueAt_eq_ok_iff.mpr ⟨rfl, Text.byteLength_toList value⟩
  have offsetEq : valueOffset + value.utf8ByteSize = next.offset := by
    have passedOffset := passed.offset_eq
    simp only [Text.byteLength_append, Text.byteLength_cons, Text.byteLength_toList]
      at passedOffset
    simp only [valueOffset, lengthOffset, Text.byteLength_toList]
    simp [Char.utf8Size] at passedOffset
    omega
  simp [entryAt, found, lengthTaken, valueTaken, lengthOffset, valueOffset, offsetEq]

theorem entryAt_eq_ok_iff {index count : Nat} {cursor next : Cursor} {entry : Entry} :
    entryAt index count cursor = .ok (entry, next) ↔
      ∃ text, EntryForm entry text ∧ Passed cursor text next := by
  constructor
  · exact entryAt_eq_ok
  · rintro ⟨text, form, passed⟩
    exact entryAt_of_form form passed

theorem entriesAt_eq_ok_iff {count left : Nat} {cursor next : Cursor} {entries : List Entry} :
    entriesAt count left cursor = .ok (entries, next) ↔
      entries.length = left ∧ ∃ text, EntriesForm entries text ∧ Passed cursor text next := by
  induction left generalizing cursor entries with
  | zero =>
      simp only [entriesAt, Except.ok.injEq, Prod.mk.injEq]
      constructor
      · rintro ⟨rfl, rfl⟩
        exact ⟨rfl, [], .nil, .refl cursor⟩
      · rintro ⟨empty, text, form, passed⟩
        obtain rfl := List.length_eq_zero_iff.mp empty
        cases form
        exact ⟨rfl, (Passed.refl cursor).text_injective passed⟩
  | succ left ih =>
      constructor
      · intro taken
        rw [entriesAt] at taken
        split at taken
        · simp at taken
        · rename_i entry middle entryTaken
          split at taken
          · simp at taken
          · rename_i rest behind restTaken
            obtain ⟨rfl, rfl⟩ := Prod.mk.inj (Except.ok.inj taken)
            obtain ⟨head, headForm, headPassed⟩ := entryAt_eq_ok_iff.mp entryTaken
            obtain ⟨restLength, tail, tailForm, tailPassed⟩ := ih.mp restTaken
            exact ⟨by simp [restLength], head ++ tail, .cons headForm tailForm,
              headPassed.append tailPassed⟩
      · rintro ⟨size, text, form, passed⟩
        cases form with
        | nil => simp at size
        | @cons entry entries head tail headForm tailForm =>
            obtain ⟨middle, headPassed, tailPassed⟩ := passed.split
            have restLength : entries.length = left := by simpa using size
            have entryTaken : entryAt (count - (left + 1)) count cursor = .ok (entry, middle) :=
              entryAt_of_form headForm headPassed
            have restTaken := ih.mpr ⟨restLength, tail, tailForm, tailPassed⟩
            simp [entriesAt, entryTaken, restTaken]

theorem countAt_eq_ok_iff {text : List Char} {count : Nat} {next : Cursor} :
    countAt text = .ok (count, next) ↔
      ∃ digits, Text.Numeral Text.bound64 digits count ∧ Passed ⟨0, text⟩ (digits ++ [' ']) next := by
  constructor
  · intro taken
    unfold countAt at taken
    split at taken
    · simp at taken
    · rename_i digits rest found
      split at taken
      · simp at taken
      · rename_i number read
        obtain ⟨rfl, rfl⟩ := Prod.mk.inj (Except.ok.inj taken)
        refine ⟨digits, Text.unsigned?_eq_some_iff.mp read, ?_, ?_⟩
        · simpa using (Text.cutAt_eq_some_iff.mp found).1
        · simp [Text.byteLength_append, Text.byteLength_cons, Text.byteLength_nil, Char.utf8Size]
  · rintro ⟨digits, numeral, textEq, offsetEq⟩
    have found : Text.cutAt ' ' text = some (digits, next.text) :=
      Text.cutAt_eq_some_iff.mpr ⟨by simpa using textEq, numeral.space_not_mem⟩
    have cursorEq : (⟨Text.byteLength digits + 1, next.text⟩ : Cursor) = next := by
      cases next
      simp_all [Text.byteLength_append, Text.byteLength_cons, Text.byteLength_nil, Char.utf8Size]
    simp [countAt, found, Text.unsigned?_eq_some_iff.mpr numeral, cursorEq]

theorem decodeText_eq_ok_iff {text : List Char} {entries : List Entry} {next : Cursor} :
    decodeText text = .ok (entries, next) ↔
      ∃ count body, Text.Numeral Text.bound64 count entries.length ∧ EntriesForm entries body ∧
        Passed ⟨0, text⟩ (count ++ ' ' :: body) next := by
  constructor
  · intro taken
    unfold decodeText at taken
    split at taken
    · simp at taken
    · rename_i number cursor countTaken
      obtain ⟨count, numeral, countPassed⟩ := countAt_eq_ok_iff.mp countTaken
      obtain ⟨rfl, body, form, bodyPassed⟩ := entriesAt_eq_ok_iff.mp taken
      exact ⟨count, body, numeral, form, by simpa using countPassed.append bodyPassed⟩
  · rintro ⟨count, body, numeral, form, passed⟩
    have regrouped : count ++ ' ' :: body = (count ++ [' ']) ++ body := by simp
    rw [regrouped] at passed
    obtain ⟨cursor, countPassed, bodyPassed⟩ := passed.split
    have countTaken := countAt_eq_ok_iff.mpr ⟨count, numeral, countPassed⟩
    have bodyTaken : entriesAt entries.length entries.length cursor = .ok (entries, next) :=
      entriesAt_eq_ok_iff.mpr ⟨rfl, body, form, bodyPassed⟩
    simp [decodeText, countTaken, bodyTaken]

theorem decode_eq_ok_iff {text : String} {entries : List Entry} :
    decode text = .ok entries ↔ SetForm entries text.toList := by
  have read : decode text = .ok entries ↔ ∃ next, decodeText text.toList = .ok (entries, next) := by
    unfold decode
    cases decodeText text.toList <;> simp [Except.map, Prod.ext_iff]
  rw [read]
  constructor
  · rintro ⟨next, taken⟩
    obtain ⟨count, body, numeral, form, passed⟩ := decodeText_eq_ok_iff.mp taken
    exact ⟨count, body, next.text, numeral, form, passed.text_eq⟩
  · rintro ⟨count, body, rest, numeral, form, textEq⟩
    refine ⟨⟨0 + Text.byteLength (count ++ ' ' :: body), rest⟩, ?_⟩
    exact decodeText_eq_ok_iff.mpr ⟨count, body, numeral, form, textEq, rfl⟩

/-- A text is read as the entries that it stands for, which are the only ones, and every text that
stands for no entries is malformed. -/
theorem decode_accepts_grammar (text : String) :
    (∀ entries, decode text = .ok entries ↔ SetForm entries text.toList) ∧
      (∀ first second, SetForm first text.toList → SetForm second text.toList → first = second) ∧
      ((∃ fault, decode text = .error fault) ↔ ¬ ∃ entries, SetForm entries text.toList) := by
  refine ⟨fun _ => decode_eq_ok_iff, ?_, ?_⟩
  · intro first second firstForm secondForm
    have firstRead := decode_eq_ok_iff.mpr firstForm
    rw [decode_eq_ok_iff.mpr secondForm] at firstRead
    exact (Except.ok.inj firstRead).symm
  · constructor
    · rintro ⟨fault, failed⟩ ⟨entries, form⟩
      rw [decode_eq_ok_iff.mpr form] at failed
      simp at failed
    · intro noForm
      cases read : decode text with
      | error fault => exact ⟨fault, rfl⟩
      | ok entries => exact absurd ⟨entries, decode_eq_ok_iff.mp read⟩ noForm

end PhotoTags.Exchange

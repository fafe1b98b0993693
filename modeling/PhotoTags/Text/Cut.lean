import PhotoTags.Text.Blank

/-!
Texts as lists of characters: cutting at the first mark, splitting into fields at every mark or at
blanks, trimming, and lengths in UTF-8 bytes. `cutAt_eq_some_iff` and `joined_fields` say that
cutting and splitting lose nothing.
-/

namespace PhotoTags.Text

def cutAt (mark : Char) (text : List Char) : Option (List Char × List Char) :=
  match text.dropWhile (· != mark) with
  | [] => none
  | _ :: rest => some (text.takeWhile (· != mark), rest)

/-- The parts between the marks; a text without a mark is one part. -/
def fields (mark : Char) (text : List Char) : List (List Char) :=
  text.foldr (fun c parts =>
    if c = mark then [] :: parts
    else match parts with
      | [] => [[c]]
      | first :: rest => (c :: first) :: rest) [[]]

def joined (mark : Char) : List (List Char) → List Char
  | [] => []
  | [part] => part
  | part :: next :: rest => part ++ mark :: joined mark (next :: rest)

/-- The longest runs of characters that are not blank. -/
def words (text : List Char) : List (List Char) :=
  (text.foldr (fun c parts =>
    if isBlank c then [] :: parts
    else match parts with
      | [] => [[c]]
      | first :: rest => (c :: first) :: rest) [[]]).filter (· != [])

def dropEndWhile (inClass : Char → Bool) (text : List Char) : List Char :=
  (text.reverse.dropWhile inClass).reverse

def stripWhile (inClass : Char → Bool) (text : List Char) : List Char :=
  dropEndWhile inClass (text.dropWhile inClass)

def trim (text : List Char) : List Char :=
  stripWhile isBlank text

def byteLength (text : List Char) : Nat :=
  text.foldr (fun c length => c.utf8Size + length) 0

def after? : List Char → List Char → Option (List Char)
  | [], text => some text
  | _ :: _, [] => none
  | c :: start, d :: text => if c = d then after? start text else none

/-- Capital letters A to Z become small ones; all else stays. -/
def asciiLower (text : List Char) : List Char :=
  text.map Char.toLower

theorem not_mem_takeWhile (mark : Char) (text : List Char) : mark ∉ text.takeWhile (· != mark) := by
  induction text with
  | nil => simp
  | cons c rest ih =>
      by_cases isMark : c = mark
      · simp [isMark]
      · simp [isMark, ih, Ne.symm isMark]

theorem cutAt_eq_some_iff {mark : Char} {text before behind : List Char} :
    cutAt mark text = some (before, behind) ↔ text = before ++ mark :: behind ∧ mark ∉ before := by
  constructor
  · intro found
    unfold cutAt at found
    have whole := List.takeWhile_append_dropWhile (p := (· != mark)) (l := text)
    split at found
    · simp at found
    · rename_i c rest dropped
      simp only [Option.some.injEq, Prod.mk.injEq] at found
      have stopped := List.head?_dropWhile_not (· != mark) text
      rw [dropped] at stopped whole
      simp only [List.head?_cons, bne_eq_false_iff_eq] at stopped
      obtain ⟨rfl, rfl⟩ := found
      subst stopped
      exact ⟨whole.symm, not_mem_takeWhile c text⟩
  · rintro ⟨rfl, absent⟩
    have kept : ∀ c ∈ before, (c != mark) = true := by
      intro c member
      simp only [bne_iff_ne, ne_eq]
      rintro rfl
      exact absent member
    unfold cutAt
    rw [List.dropWhile_append_of_pos kept, List.takeWhile_append_of_pos kept]
    simp

theorem byteLength_nil : byteLength [] = 0 := rfl

theorem byteLength_cons (c : Char) (text : List Char) :
    byteLength (c :: text) = c.utf8Size + byteLength text := by
  simp [byteLength]

theorem byteLength_append (before behind : List Char) :
    byteLength (before ++ behind) = byteLength before + byteLength behind := by
  induction before with
  | nil => simp [byteLength]
  | cons c rest ih => simp [byteLength_cons, ih, Nat.add_assoc]

theorem fields_ne_nil (mark : Char) (text : List Char) : fields mark text ≠ [] := by
  induction text with
  | nil => simp [fields]
  | cons c rest ih =>
      simp only [fields, List.foldr_cons] at ih ⊢
      split
      · simp
      · split <;> simp

theorem fields_cons_mark (mark : Char) (text : List Char) :
    fields mark (mark :: text) = [] :: fields mark text := by
  simp [fields]

theorem joined_fields (mark : Char) (text : List Char) : joined mark (fields mark text) = text := by
  induction text with
  | nil => rfl
  | cons c rest ih =>
      by_cases isMark : c = mark
      · subst c
        rw [fields_cons_mark]
        cases shape : fields mark rest with
        | nil => exact absurd shape (fields_ne_nil mark rest)
        | cons first others =>
            rw [shape] at ih
            simp only [joined, List.nil_append, ih]
      · cases shape : fields mark rest with
        | nil => exact absurd shape (fields_ne_nil mark rest)
        | cons first others =>
            have step : fields mark (c :: rest) = (c :: first) :: others := by
              simp only [fields, List.foldr_cons, isMark, if_false] at shape ⊢
              rw [shape]
            rw [shape] at ih
            rw [step]
            cases others with
            | nil => simpa [joined] using ih
            | cons next others => simpa [joined] using ih

end PhotoTags.Text

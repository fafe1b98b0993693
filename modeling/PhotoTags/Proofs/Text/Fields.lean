import PhotoTags.Text.Cut

/-!
Splitting texts that are put together: the fields of two texts with a mark between them are the
fields of both. A field has the characters of its text, but for the mark.
-/

namespace PhotoTags.Text

theorem fields_cons_of_ne {mark c : Char} {text first : List Char} {others : List (List Char)}
    (differ : c ≠ mark) (split : fields mark text = first :: others) :
    fields mark (c :: text) = (c :: first) :: others := by
  simp only [fields, List.foldr_cons, differ, if_false] at split ⊢
  rw [split]

theorem fields_append_mark (mark : Char) (text rest : List Char) :
    fields mark (text ++ mark :: rest) = fields mark text ++ fields mark rest := by
  induction text with
  | nil => simp [fields]
  | cons c others ih =>
      by_cases same : c = mark
      · rw [same, List.cons_append, fields_cons_mark, ih, fields_cons_mark, List.cons_append]
      · obtain ⟨first, parts, split⟩ := List.exists_cons_of_ne_nil (fields_ne_nil mark others)
        rw [split] at ih
        rw [List.cons_append, fields_cons_of_ne same ih, fields_cons_of_ne same split]
        rfl

theorem fields_of_not_mem {mark : Char} {text : List Char} (absent : mark ∉ text) :
    fields mark text = [text] := by
  induction text with
  | nil => rfl
  | cons c rest ih =>
      rw [List.mem_cons, not_or] at absent
      exact fields_cons_of_ne (Ne.symm absent.1) (ih absent.2)

theorem fields_append {mark : Char} {text : List Char} (absent : mark ∉ text) (rest : List Char) :
    fields mark (text ++ mark :: rest) = text :: fields mark rest := by
  rw [fields_append_mark, fields_of_not_mem absent, List.singleton_append]

theorem fields_joined {mark : Char} {parts : List (List Char)} (nonempty : parts ≠ [])
    (free : ∀ part ∈ parts, mark ∉ part) : fields mark (joined mark parts) = parts := by
  induction parts with
  | nil => exact absurd rfl nonempty
  | cons part rest ih =>
      have first := free part (List.mem_cons_self ..)
      cases rest with
      | nil => exact fields_of_not_mem first
      | cons next others =>
          rw [joined, fields_append first, ih (List.cons_ne_nil _ _)]
          exact fun other member => free other (List.mem_cons_of_mem _ member)

theorem mem_of_mem_fields {mark : Char} {text part : List Char} (member : part ∈ fields mark text) :
    ∀ c ∈ part, c ∈ text ∧ c ≠ mark := by
  induction text generalizing part with
  | nil => simp [List.mem_singleton.mp member]
  | cons first rest ih =>
      by_cases same : first = mark
      · rw [same, fields_cons_mark] at member
        rcases List.mem_cons.mp member with rfl | later
        · simp
        · exact fun c inside => (ih later c inside).imp_left (List.mem_cons_of_mem first)
      · obtain ⟨head, others, split⟩ := List.exists_cons_of_ne_nil (fields_ne_nil mark rest)
        rw [fields_cons_of_ne same split] at member
        rw [split] at ih
        rcases List.mem_cons.mp member with rfl | later
        · intro c inside
          rcases List.mem_cons.mp inside with rfl | behind
          · exact ⟨List.mem_cons_self .., same⟩
          · exact (ih (List.mem_cons_self ..) c behind).imp_left (List.mem_cons_of_mem first)
        · exact fun c inside =>
            (ih (List.mem_cons_of_mem head later) c inside).imp_left (List.mem_cons_of_mem first)

end PhotoTags.Text

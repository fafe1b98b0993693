import Mathlib.Data.List.Chain
import PhotoTags.Text.Wrap

/-!
What breaking a text into lines leaves of it. The words are what stands between blanks, and the lines
have them in their order. A line ends only before a word that does not fit behind it, so that none
could have taken more than it has.
-/

namespace PhotoTags.Text

theorem words_eq_splitOnP (text : List Char) :
    words text = (text.splitOnP isBlank).filter (· ≠ []) := by
  have marked : (fun part : List Char => part != []) = fun part => decide (part ≠ []) := by
    funext part
    cases part <;> rfl
  rw [words, marked]
  congr 1
  induction text with
  | nil => rfl
  | cons c rest ih =>
      rw [List.foldr_cons, ih, List.splitOnP_cons_eq_if_modifyHead]
      obtain ⟨first, others, parts⟩ :=
        List.exists_cons_of_ne_nil (List.splitOnP_ne_nil isBlank rest)
      rw [parts, List.modifyHead_cons]

theorem words_append_space (before behind : List Char) :
    words (before ++ ' ' :: behind) = words before ++ words behind := by
  have blank : isBlank ' ' = true := rfl
  simp only [words_eq_splitOnP, List.splitOnP_append_cons before behind blank, List.filter_append]

theorem flatten_words (text : List Char) : (words text).flatten = text.filter (!isBlank ·) := by
  rw [words_eq_splitOnP, List.flatten_filter_ne_nil]
  induction text with
  | nil => rfl
  | cons c rest ih =>
      rw [List.splitOnP_cons_eq_if_modifyHead, List.filter_cons, ← ih]
      obtain ⟨first, others, parts⟩ :=
        List.exists_cons_of_ne_nil (List.splitOnP_ne_nil isBlank rest)
      cases isBlank c <;> simp [parts]

structure IsWord (word : List Char) : Prop where
  nonempty : word ≠ []
  solid : ∀ c ∈ word, isBlank c = false

theorem IsWord.words_eq {word : List Char} (isWord : IsWord word) : words word = [word] := by
  rw [words_eq_splitOnP, List.splitOnP_eq_singleton isWord.solid]
  simp [isWord.nonempty]

theorem isWord_of_mem {text word : List Char} (member : word ∈ words text) : IsWord word := by
  constructor
  · rw [words_eq_splitOnP, List.mem_filter] at member
    simpa using member.2
  · intro c inside
    have visible := List.mem_flatten_of_mem member inside
    rw [flatten_words, List.mem_filter] at visible
    simpa using visible.2

theorem words_eq_nil_iff (text : List Char) : words text = [] ↔ ∀ c ∈ text, isBlank c = true := by
  have bare : (words text).flatten = [] ↔ ∀ c ∈ text, isBlank c = true := by
    rw [flatten_words, List.filter_eq_nil_iff]
    simp
  rw [← bare, List.flatten_eq_nil_iff]
  constructor
  · intro none
    simp [none]
  · intro empty
    refine List.eq_nil_iff_forall_not_mem.mpr fun word member => ?_
    exact (isWord_of_mem member).nonempty (empty word member)

theorem joined_concat (mark : Char) {parts : List (List Char)} (nonempty : parts ≠ [])
    (last : List Char) : joined mark (parts ++ [last]) = joined mark parts ++ mark :: last := by
  induction parts with
  | nil => exact absurd rfl nonempty
  | cons part rest ih =>
      cases rest with
      | nil => rfl
      | cons next others =>
          have later := ih (List.cons_ne_nil next others)
          simp only [List.cons_append, joined, List.append_assoc] at later ⊢
          rw [later]

structure IsLine (width : Nat) (line : List Char) : Prop where
  nonempty : line ≠ []
  spaced : line = joined ' ' (words line)
  fits : byteLength line ≤ width ∨ ∃ word, words line = [word]

def Full (width : Nat) (line next : List Char) : Prop :=
  ∃ word others, words next = word :: others ∧ width < byteLength line + 1 + byteLength word

structure Filled (width : Nat) (text : List Char) (lines : List (List Char)) : Prop where
  kept : lines.flatMap words = words text
  each : ∀ line ∈ lines, IsLine width line
  greedy : List.IsChain (Full width) lines

section

variable {width : Nat} {line word : List Char} {rest : List (List Char)}

theorem IsLine.words_ne_nil (isLine : IsLine width line) : words line ≠ [] := by
  intro none
  have spaced := isLine.spaced
  rw [none] at spaced
  exact isLine.nonempty spaced

theorem IsWord.isLine (isWord : IsWord word) (width : Nat) : IsLine width word := by
  refine ⟨isWord.nonempty, ?_, .inr ⟨word, isWord.words_eq⟩⟩
  rw [isWord.words_eq]
  rfl

theorem IsLine.add (isLine : IsLine width line) (isWord : IsWord word)
    (room : byteLength line + 1 + byteLength word ≤ width) :
    IsLine width (line ++ ' ' :: word) := by
  refine ⟨by simp, ?_, .inl ?_⟩
  · rw [words_append_space, isWord.words_eq, joined_concat ' ' isLine.words_ne_nil,
      ← isLine.spaced]
  · rw [byteLength_append, byteLength_cons, show ' '.utf8Size = 1 from rfl]
    omega

theorem flatMap_words_fillLines (areWords : ∀ word ∈ rest, IsWord word) :
    (fillLines width line rest).flatMap words = words line ++ rest := by
  induction rest generalizing line with
  | nil => simp [fillLines]
  | cons word others ih =>
      obtain ⟨isWord, areLater⟩ := List.forall_mem_cons.mp areWords
      rw [fillLines]
      split
      · rw [ih areLater, words_append_space, isWord.words_eq, List.append_assoc,
          List.singleton_append]
      · rw [List.flatMap_cons, ih areLater, isWord.words_eq, List.singleton_append]

theorem isLine_of_mem_fillLines (isLine : IsLine width line)
    (areWords : ∀ word ∈ rest, IsWord word) :
    ∀ other ∈ fillLines width line rest, IsLine width other := by
  induction rest generalizing line with
  | nil => simpa [fillLines] using isLine
  | cons word others ih =>
      obtain ⟨isWord, areLater⟩ := List.forall_mem_cons.mp areWords
      rw [fillLines]
      split
      · rename_i room
        exact ih (isLine.add isWord room) areLater
      · exact List.forall_mem_cons.mpr ⟨isLine, ih (isWord.isLine width) areLater⟩

theorem exists_fillLines (width : Nat) (line : List Char) (rest : List (List Char)) :
    ∃ first others, fillLines width line rest = first :: others ∧ words line <+: words first := by
  induction rest generalizing line with
  | nil => exact ⟨line, [], rfl, List.prefix_rfl⟩
  | cons word later ih =>
      rw [fillLines]
      split
      · obtain ⟨first, others, shape, grown⟩ := ih (line ++ ' ' :: word)
        rw [words_append_space] at grown
        exact ⟨first, others, shape, (List.prefix_append _ _).trans grown⟩
      · exact ⟨line, _, rfl, List.prefix_rfl⟩

theorem isChain_fillLines (areWords : ∀ word ∈ rest, IsWord word) :
    List.IsChain (Full width) (fillLines width line rest) := by
  induction rest generalizing line with
  | nil => exact .singleton line
  | cons word later ih =>
      obtain ⟨isWord, areLater⟩ := List.forall_mem_cons.mp areWords
      rw [fillLines]
      split
      · exact ih areLater
      · rename_i noRoom
        have chain : List.IsChain (Full width) (fillLines width word later) := ih areLater
        obtain ⟨first, others, shape, grown⟩ := exists_fillLines width word later
        obtain ⟨more, same⟩ := grown
        rw [isWord.words_eq, List.singleton_append] at same
        rw [shape] at chain ⊢
        exact .cons_cons ⟨word, more, same.symm, Nat.lt_of_not_le noRoom⟩ chain

end

/-- The lines of a text with a visible character have its words in their order and are filled as far
as the width allows. A text of blanks stays as it is. -/
theorem wrap_filled (width : Nat) (text : List Char) :
    ((∃ c ∈ text, isBlank c = false) → Filled width text (wrap width text)) ∧
      ((∀ c ∈ text, isBlank c = true) → wrap width text = [text]) ∧
      words text = (text.splitOnP isBlank).filter (· ≠ []) := by
  refine ⟨?_, ?_, words_eq_splitOnP text⟩
  · rintro ⟨c, member, visible⟩
    have worded : words text ≠ [] := by
      intro none
      have blank := (words_eq_nil_iff text).mp none c member
      simp [visible] at blank
    obtain ⟨word, rest, whole⟩ := List.exists_cons_of_ne_nil worded
    have areWords : ∀ other ∈ word :: rest, IsWord other := by
      rw [← whole]
      exact fun other => isWord_of_mem
    obtain ⟨isWord, areLater⟩ := List.forall_mem_cons.mp areWords
    have broken : wrap width text = fillLines width word rest := by rw [wrap, whole]
    rw [broken]
    constructor
    · rw [flatMap_words_fillLines areLater, isWord.words_eq, whole, List.singleton_append]
    · exact isLine_of_mem_fillLines (isWord.isLine width) areLater
    · exact isChain_fillLines areLater
  · intro blank
    rw [wrap, (words_eq_nil_iff text).mpr blank]

/-- A word that is too long stands alone, between lines that are as full as they can be. -/
theorem wrap_filled_around_long_word :
    let text := "\u2003a bc  d\nlongest word".toList
    wrap 6 text = ["a bc d".toList, "longest".toList, "word".toList] ∧
      Filled 6 text (wrap 6 text) ∧ wrap 6 " \t".toList = [" \t".toList] := by
  intro text
  refine ⟨by decide, (wrap_filled 6 text).1 ⟨'a', by decide, by decide⟩, ?_⟩
  exact (wrap_filled 6 " \t".toList).2.1 (List.all_eq_true.mp rfl)

end PhotoTags.Text

import Mathlib.Data.List.Induction
import Mathlib.Data.List.Nodup
import Mathlib.Data.String.Basic
import PhotoTags.Attributes

/-!
What every way of making attributes keeps: the names stand in strict order, so that none occurs
twice, and the name of the thumbnail entry is not among them. Attributes in this form are determined
by looking names up, and come back from their own entries.
-/

namespace PhotoTags.Attributes

structure WellFormed (attributes : Attributes) : Prop where
  ordered : attributes.entries.Pairwise (·.1 < ·.1)
  noThumbnail : ∀ entry ∈ attributes.entries, entry.1 ≠ Exchange.thumbnailName

def lastValue? (entries : List Entry) (name : String) : Option String :=
  (entries.reverse.find? (·.1 == name)).map (·.2)

theorem lastValue?_append (entries : List Entry) (entry : Entry) (name : String) :
    lastValue? (entries ++ [entry]) name =
      if entry.1 = name then some entry.2 else lastValue? entries name := by
  by_cases same : entry.1 = name
  · simp [lastValue?, same]
  · simp [lastValue?, same, beq_eq_false_iff_ne.mpr same]

theorem withoutThumbnail_append (entries : List Entry) (entry : Entry) :
    Exchange.withoutThumbnail (entries ++ [entry]) =
      if entry.1 = Exchange.thumbnailName then Exchange.withoutThumbnail entries
      else Exchange.withoutThumbnail entries ++ [entry] := by
  by_cases thumbnail : entry.1 = Exchange.thumbnailName <;>
    simp [Exchange.withoutThumbnail, thumbnail]

theorem mem_insert {name value : String} {entries : List Entry} {entry : Entry}
    (member : entry ∈ insert name value entries) : entry = (name, value) ∨ entry ∈ entries := by
  induction entries with
  | nil => simpa [insert] using member
  | cons first rest ih =>
      obtain ⟨other, kept⟩ := first
      simp only [insert] at member
      split at member
      · simpa using member
      · split at member
        · rcases List.mem_cons.mp member with new | old
          · exact Or.inl new
          · exact Or.inr (List.mem_cons_of_mem _ old)
        · rcases List.mem_cons.mp member with head | tail
          · exact Or.inr (by simp [head])
          · rcases ih tail with new | old
            · exact Or.inl new
            · exact Or.inr (List.mem_cons_of_mem _ old)

theorem length_insert_le (name value : String) (entries : List Entry) :
    (insert name value entries).length ≤ entries.length + 1 := by
  induction entries with
  | nil => exact Nat.le_refl 1
  | cons first rest ih =>
      simp only [insert]
      split
      · exact Nat.le_refl _
      · split
        · exact Nat.le_succ _
        · exact Nat.succ_le_succ ih

theorem ordered_insert {entries : List Entry} (name value : String)
    (ordered : entries.Pairwise (·.1 < ·.1)) :
    (insert name value entries).Pairwise (·.1 < ·.1) := by
  induction entries with
  | nil => simp [insert]
  | cons first rest ih =>
      obtain ⟨other, kept⟩ := first
      obtain ⟨firstBefore, restOrdered⟩ := List.pairwise_cons.mp ordered
      simp only [insert]
      split
      · rename_i before
        refine List.pairwise_cons.mpr ⟨?_, ordered⟩
        intro entry member
        rcases List.mem_cons.mp member with head | tail
        · rw [head]
          exact before
        · exact before.trans (firstBefore entry tail)
      · rename_i notBefore
        split
        · rename_i same
          subst name
          exact List.pairwise_cons.mpr ⟨firstBefore, restOrdered⟩
        · rename_i different
          refine List.pairwise_cons.mpr ⟨?_, ih restOrdered⟩
          intro entry member
          rcases mem_insert member with new | old
          · rw [new]
            exact lt_of_le_of_ne (not_lt.mp notBefore) (Ne.symm different)
          · exact firstBefore entry old

theorem insert_last {name value : String} {entries : List Entry}
    (last : ∀ entry ∈ entries, entry.1 < name) :
    insert name value entries = entries ++ [(name, value)] := by
  induction entries with
  | nil => rfl
  | cons first rest ih =>
      obtain ⟨other, kept⟩ := first
      have before : other < name := last (other, kept) (by simp)
      rw [insert, if_neg before.asymm, if_neg before.ne',
        ih fun entry member => last entry (List.mem_cons_of_mem _ member), List.cons_append]

theorem wellFormed_empty : WellFormed empty := by
  constructor
  · exact .nil
  · simp [empty]

theorem WellFormed.set {attributes : Attributes} (wellFormed : WellFormed attributes)
    (name value : String) : WellFormed (attributes.set name value) := by
  unfold Attributes.set
  split
  · exact wellFormed
  · rename_i isTag
    constructor
    · exact ordered_insert name value wellFormed.ordered
    · intro entry member
      rcases mem_insert member with new | old
      · rw [new]
        exact isTag
      · exact wellFormed.noThumbnail entry old

theorem WellFormed.add {attributes : Attributes} (wellFormed : WellFormed attributes)
    (entry : Entry) : WellFormed (attributes.add entry) := by
  unfold Attributes.add
  split
  · exact ⟨wellFormed.ordered, wellFormed.noThumbnail⟩
  · exact wellFormed.set entry.1 entry.2

theorem ofEntries_append (entries : List Entry) (entry : Entry) :
    ofEntries (entries ++ [entry]) = (ofEntries entries).add entry := by
  simp [ofEntries]

theorem wellFormed_ofEntries (entries : List Entry) : WellFormed (ofEntries entries) := by
  induction entries using List.reverseRecOn with
  | nil => exact wellFormed_empty
  | append_singleton entries entry ih =>
      rw [ofEntries_append]
      exact ih.add entry

theorem WellFormed.nodup_names {attributes : Attributes} (wellFormed : WellFormed attributes) :
    (attributes.entries.map (·.1)).Nodup := by
  apply List.pairwise_map.mpr
  exact wellFormed.ordered.imp fun before => before.ne

theorem WellFormed.mem_iff {attributes : Attributes} (wellFormed : WellFormed attributes)
    (name value : String) :
    (name, value) ∈ attributes.entries ↔ attributes.get? name = some value := by
  simp only [get?, Option.map_eq_some_iff]
  constructor
  · intro member
    cases found : attributes.entries.find? (·.1 == name) with
    | none =>
        have absent := List.find?_eq_none.mp found (name, value) member
        simp at absent
    | some entry =>
        have sameName : entry.1 = name := by simpa using List.find?_some found
        have sameEntry : entry = (name, value) :=
          List.inj_on_of_nodup_map wellFormed.nodup_names (List.mem_of_find?_eq_some found) member
            sameName
        exact ⟨entry, rfl, by rw [sameEntry]⟩
  · rintro ⟨entry, found, rfl⟩
    have sameName : entry.1 = name := by simpa using List.find?_some found
    rw [← sameName]
    exact List.mem_of_find?_eq_some found

/-- Attributes in this form are told apart by looking names up. -/
theorem WellFormed.entries_eq {attributes other : Attributes} (wellFormed : WellFormed attributes)
    (otherFormed : WellFormed other) (same : ∀ name, attributes.get? name = other.get? name) :
    attributes.entries = other.entries := by
  have distinct {attributes : Attributes} (formed : WellFormed attributes) :
      attributes.entries.Nodup := formed.nodup_names.of_map
  have perm : attributes.entries.Perm other.entries := by
    refine (List.perm_ext_iff_of_nodup (distinct wellFormed) (distinct otherFormed)).mpr ?_
    rintro ⟨name, value⟩
    rw [wellFormed.mem_iff, otherFormed.mem_iff, same]
  refine perm.eq_of_pairwise ?_ wellFormed.ordered otherFormed.ordered
  exact fun _ _ _ _ before behind => absurd behind before.asymm

theorem WellFormed.get?_thumbnailName {attributes : Attributes}
    (wellFormed : WellFormed attributes) : attributes.get? Exchange.thumbnailName = none := by
  have absent : attributes.entries.find? (·.1 == Exchange.thumbnailName) = none := by
    apply List.find?_eq_none.mpr
    intro entry member
    simpa using wellFormed.noThumbnail entry member
  simp [get?, absent]

theorem get?_add (attributes : Attributes) (entry : Entry) (name : String) :
    (attributes.add entry).get? name =
      if entry.1 = Exchange.thumbnailName then attributes.get? name
      else if entry.1 = name then some entry.2 else attributes.get? name := by
  unfold add
  split
  · rfl
  · rename_i isTag
    exact get?_set attributes entry.1 name entry.2 isTag

theorem get?_ofEntries (entries : List Entry) (name : String) :
    (ofEntries entries).get? name = lastValue? (Exchange.withoutThumbnail entries) name := by
  induction entries using List.reverseRecOn with
  | nil => rfl
  | append_singleton entries entry ih =>
      rw [ofEntries_append, get?_add, withoutThumbnail_append]
      split
      · exact ih
      · rw [lastValue?_append, ih]

theorem hasThumbnail_add (attributes : Attributes) (entry : Entry) :
    (attributes.add entry).hasThumbnail =
      if entry.1 = Exchange.thumbnailName then isTrue entry.2 else attributes.hasThumbnail := by
  unfold add
  split
  · rfl
  · exact hasThumbnail_set attributes entry.1 entry.2

theorem hasThumbnail_ofEntries (entries : List Entry) :
    (ofEntries entries).hasThumbnail =
      (lastValue? entries Exchange.thumbnailName).any isTrue := by
  induction entries using List.reverseRecOn with
  | nil => rfl
  | append_singleton entries entry ih =>
      rw [ofEntries_append, hasThumbnail_add, lastValue?_append]
      split
      · simp
      · exact ih

theorem mem_ofEntries {entries : List Entry} {entry : Entry}
    (member : entry ∈ (ofEntries entries).entries) : entry ∈ entries := by
  induction entries using List.reverseRecOn with
  | nil => exact member
  | append_singleton entries last ih =>
      rw [ofEntries_append] at member
      unfold add Attributes.set at member
      split at member
      · exact List.mem_append_left _ (ih member)
      · rcases mem_insert member with new | old
        · simp [new]
        · exact List.mem_append_left _ (ih old)

theorem length_ofEntries_le (entries : List Entry) :
    (ofEntries entries).entries.length ≤ entries.length := by
  induction entries using List.reverseRecOn with
  | nil => exact Nat.le_refl 0
  | append_singleton entries entry ih =>
      rw [ofEntries_append, List.length_append, List.length_singleton]
      unfold add Attributes.set
      split
      · exact ih.trans (Nat.le_succ _)
      · exact (length_insert_le entry.1 entry.2 _).trans (Nat.succ_le_succ ih)

theorem ofEntries_of_ordered {entries : List Entry} (ordered : entries.Pairwise (·.1 < ·.1))
    (noThumbnail : ∀ entry ∈ entries, entry.1 ≠ Exchange.thumbnailName) :
    ofEntries entries = ⟨entries, false⟩ := by
  induction entries using List.reverseRecOn with
  | nil => rfl
  | append_singleton entries entry ih =>
      obtain ⟨frontOrdered, _, frontBefore⟩ := List.pairwise_append.mp ordered
      have isTag : entry.1 ≠ Exchange.thumbnailName := noThumbnail entry (by simp)
      have last : ∀ other ∈ entries, other.1 < entry.1 :=
        fun other member => frontBefore other member entry (by simp)
      have front := ih frontOrdered fun other member =>
        noThumbnail other (List.mem_append_left _ member)
      rw [ofEntries_append, front, add, if_neg isTag, Attributes.set, if_neg isTag]
      simp only [insert_last last]

end PhotoTags.Attributes

import PhotoTags.Proofs.Tiff.Directory

/-!
Runs: the elements of a list with one key, in their order. Sorting by the key changes no run, and a
sorted list is told by its runs, so whatever is sorted comes out alike from lists with the same runs.
-/

namespace PhotoTags

def SameRuns {α κ : Type} [DecidableEq κ] (key : α → κ) (first second : List α) : Prop :=
  ∀ k, first.filter (key · = k) = second.filter (key · = k)

namespace SameRuns

variable {α β κ ι : Type} [DecidableEq κ] [DecidableEq ι] {key : α → κ} {other : β → ι}
  {first second third : List α}

theorem refl (key : α → κ) (items : List α) : SameRuns key items items :=
  fun _ => rfl

theorem symm (same : SameRuns key first second) : SameRuns key second first :=
  fun k => (same k).symm

theorem trans (same : SameRuns key first second) (next : SameRuns key second third) :
    SameRuns key first third :=
  fun k => (same k).trans (next k)

theorem append {behind after : List α} (front : SameRuns key first second)
    (back : SameRuns key behind after) : SameRuns key (first ++ behind) (second ++ after) := by
  intro k
  rw [List.filter_append, List.filter_append, front k, back k]

theorem cons (same : SameRuns key first second) (item : α) :
    SameRuns key (item :: first) (item :: second) :=
  SameRuns.append (.refl key [item]) same

theorem swap {item next : α} (apart : key item ≠ key next) (rest : List α) :
    SameRuns key (item :: next :: rest) (next :: item :: rest) := by
  intro k
  by_cases own : key item = k
  · have away : key next ≠ k := fun same => apart (own.trans same.symm)
    simp [own, away]
  · simp [List.filter_cons, own]

theorem filter (same : SameRuns key first second) (keep : α → Bool) :
    SameRuns key (first.filter keep) (second.filter keep) := by
  intro k
  rw [List.filter_comm, same k, List.filter_comm]

theorem partition (goesFirst : κ → Bool) (items : List α) :
    SameRuns key (items.filter (fun item => goesFirst (key item)) ++
      items.filter fun item => !goesFirst (key item)) items := by
  intro k
  have run (keep : κ → Bool) : (items.filter fun item => keep (key item)).filter (key · = k) =
      if keep k then items.filter (key · = k) else [] := by
    rw [List.filter_filter]
    split
    · rename_i kept
      refine List.filter_congr fun item _ => ?_
      by_cases own : key item = k <;> simp [own, kept]
    · rename_i dropped
      refine List.filter_eq_nil_iff.mpr fun item _ => ?_
      by_cases own : key item = k <;> simp [own, dropped]
  rw [List.filter_append, run, run fun k => !goesFirst k]
  cases goesFirst k <;> simp

theorem mem_iff (same : SameRuns key first second) (item : α) : item ∈ first ↔ item ∈ second := by
  have own (items : List α) : item ∈ items ↔ item ∈ items.filter (key · = key item) := by
    simp
  rw [own first, own second, same]

theorem perm (same : SameRuns key first second) : first.Perm second := by
  classical
  rw [List.perm_iff_count]
  intro item
  have own (items : List α) : items.count item = (items.filter (key · = key item)).count item :=
    (List.count_filter (by simp)).symm
  rw [own first, own second, same]

theorem isEmpty_eq (same : SameRuns key first second) : first.isEmpty = second.isEmpty := by
  rw [Bool.eq_iff_iff, List.isEmpty_iff_length_eq_zero, List.isEmpty_iff_length_eq_zero,
    same.perm.length_eq]

/-- Where each key of the result comes from one key of the source, runs are kept. -/
theorem flatMap (same : SameRuns key first second) {made : α → List β}
    (keyed : ∀ i, ∃ k, ∀ item, ∀ result ∈ made item, other result = i → key item = k) :
    SameRuns other (first.flatMap made) (second.flatMap made) := by
  intro i
  obtain ⟨k, keyOf⟩ := keyed i
  have elsewhere (item : α) (away : key item ≠ k) : (made item).filter (other · = i) = [] := by
    refine List.filter_eq_nil_iff.mpr fun result member => ?_
    rw [decide_eq_true_eq]
    exact mt (keyOf item result member) away
  have own (items : List α) : (items.flatMap made).filter (other · = i) =
      (items.filter (key · = k)).flatMap fun item => (made item).filter (other · = i) := by
    rw [List.filter_flatMap]
    induction items with
    | nil => rfl
    | cons item rest ih =>
        by_cases here : key item = k
        · simp [here, ih]
        · simp [here, ih, elsewhere item here]
  rw [own first, own second, same k]

theorem map (same : SameRuns key first second) {made : α → β}
    (keyed : ∀ i, ∃ k, ∀ item, other (made item) = i → key item = k) :
    SameRuns other (first.map made) (second.map made) := by
  rw [List.map_eq_flatMap, List.map_eq_flatMap]
  refine same.flatMap fun i => (keyed i).imp fun k keyOf item result member => ?_
  rw [List.mem_singleton.mp member]
  exact keyOf item

theorem filterMap (same : SameRuns key first second) {made? : α → Option β}
    (keyed : ∀ i, ∃ k, ∀ item result, made? item = some result → other result = i → key item = k) :
    SameRuns other (first.filterMap made?) (second.filterMap made?) := by
  rw [List.filterMap_eq_flatMap_toList, List.filterMap_eq_flatMap_toList]
  refine same.flatMap fun i => (keyed i).imp fun k keyOf item result member => ?_
  exact keyOf item result (Option.mem_toList.mp member)

/-- A list in the order of its keys is told by its runs. -/
theorem eq_of_pairwise {key : α → Nat} {first second : List α} (same : SameRuns key first second)
    (firstOrdered : first.Pairwise (key · ≤ key ·)) (secondOrdered : second.Pairwise (key · ≤ key ·)) :
    first = second := by
  induction first generalizing second with
  | nil =>
      refine (List.eq_nil_iff_forall_not_mem.mpr fun item member => ?_).symm
      exact absurd ((same.mem_iff item).mpr member) List.not_mem_nil
  | cons item rest ih =>
      cases second with
      | nil => exact absurd ((same.mem_iff item).mp (List.mem_cons_self ..)) List.not_mem_nil
      | cons next others =>
          obtain ⟨least, restOrdered⟩ := List.pairwise_cons.mp firstOrdered
          obtain ⟨otherLeast, othersOrdered⟩ := List.pairwise_cons.mp secondOrdered
          have forth : key item ≤ key next := by
            rcases List.mem_cons.mp ((same.mem_iff next).mpr (List.mem_cons_self ..)) with rfl | later
            · exact Nat.le_refl _
            · exact least next later
          have back : key next ≤ key item := by
            rcases List.mem_cons.mp ((same.mem_iff item).mp (List.mem_cons_self ..)) with rfl | later
            · exact Nat.le_refl _
            · exact otherLeast item later
          have sameKey : key next = key item := Nat.le_antisymm back forth
          -- Both lists start with the run of the least key, and so with its first element.
          have run := same (key item)
          rw [List.filter_cons_of_pos (by simp), List.filter_cons_of_pos (by simp [sameKey])] at run
          obtain ⟨rfl, behind⟩ := List.cons.inj run
          rw [ih (fun k => ?_) restOrdered othersOrdered]
          by_cases own : key item = k
          · exact own ▸ behind
          · have run := same k
            rwa [List.filter_cons_of_neg (by simp [own]),
              List.filter_cons_of_neg (by simp [own])] at run

end SameRuns

namespace Tiff

namespace Item

theorem sameRuns_insert (item : Item) (items : List Item) :
    SameRuns (·.id) (insert item items) (item :: items) := by
  induction items with
  | nil => exact .refl _ _
  | cons next rest ih =>
      rw [insert]
      split
      · exact .refl _ _
      · rename_i before
        have apart : next.id ≠ item.id := by omega
        exact (ih.cons next).trans (.swap apart rest)

/-- Items with one number stay in their order. -/
theorem sameRuns_sorted (items : List Item) : SameRuns (·.id) (sorted items) items := by
  induction items with
  | nil => exact .refl _ _
  | cons item rest ih => exact (sameRuns_insert item (sorted rest)).trans (ih.cons item)

theorem sorted_congr {items others : List Item} (same : SameRuns (·.id) items others) :
    sorted items = sorted others :=
  (((sameRuns_sorted items).trans same).trans (sameRuns_sorted others).symm).eq_of_pairwise
    (pairwise_sorted items) (pairwise_sorted others)

end Item

end Tiff

end PhotoTags

import PhotoTags.Proofs.Tiff.Reached
import PhotoTags.Tiff.Location

/-!
When a block gives a position, and what the position is made of. It is given as soon as the directory
for it has some entry of a known number, with the coordinates or without them; only a coordinate of
too few ratios prevents it. Whatever the position says, apart from coordinates that it does not know,
comes from an entry of the directory.
-/

namespace PhotoTags.Tiff

def Survey.positionListing? (survey : Survey) (block : Bytes) : Option (List (Nat × Outcome)) :=
  let pointer := survey.visits.find? fun visit =>
    visit.id == gpsPointer && visit.outcome != .unreadable
  match pointer with
  | some ⟨_, _, .directory offset⟩ =>
      (wholeAt? survey.order block offset).map fun found =>
        listing survey.order block survey.zone found.1
  | _ => none

theorem location?_eq_bind (survey : Survey) (block : Bytes) :
    survey.location? block = (survey.positionListing? block).bind Location.ofListing? := by
  unfold Survey.location? Survey.positionListing?
  generalize survey.visits.find? _ = pointer
  rcases pointer with _ | ⟨_, _, offset | value | _⟩
  · rfl
  · dsimp only
    cases wholeAt? survey.order block offset <;> rfl
  · rfl
  · rfl

theorem mem_of_mem_listing {order : ByteOrder} {block : Bytes} {zone : Option (List Char)}
    {entries : List Entry} {item : Nat × Outcome} (member : item ∈ listing order block zone entries) :
    ∃ entry ∈ entries, entry.id = item.1 := by
  obtain ⟨entry, taken, rfl⟩ := List.mem_map.mp member
  exact ⟨entry, (List.takeWhile_sublist _).mem taken, rfl⟩

theorem hasPositionField_of_mem {block : Bytes} {survey : Survey}
    (surveyed : survey? block = some survey) {items : List (Nat × Outcome)}
    (listed : survey.positionListing? block = some items) {item : Nat × Outcome}
    (member : item ∈ items) : HasPositionField block item.1 := by
  unfold Survey.positionListing? at listed
  dsimp only at listed
  split at listed
  · rename_i chain id offset found
    obtain ⟨header, headed, order, visits⟩ := survey?_eq_some surveyed
    have visited := List.mem_of_find?_eq_some found
    have wanted := List.find?_some found
    simp only [Bool.and_eq_true, beq_iff_eq] at wanted
    rw [visits] at visited
    obtain ⟨pointer, seen, sameId, sameOutcome⟩ := exists_seen_of_mem_visits .first visited
    obtain ⟨⟨entries, rest⟩, whole, rfl⟩ := Option.map_eq_some_iff.mp listed
    obtain ⟨entry, there, numbered⟩ := mem_of_mem_listing member
    rw [order] at whole
    refine ⟨header, chain, pointer, offset, entries, rest, entry, headed, seen, ?_, ?_, whole, there,
      numbered⟩
    · exact sameId.symm.trans wanted.1
    · exact outcome_eq_directory_iff.mp sameOutcome.symm
  · simp at listed

def Outcome.IsShort (outcome : Outcome) : Prop :=
  ∃ isSigned ratios, outcome = .datum (.ratios isSigned ratios) ∧ ratios.length ≠ 1 ∧
    ratios.length < 3

namespace Location

def isCoordinateId (id : Nat) : Bool :=
  id == 2 || id == 4

def Gives (location : Location) (id : Nat) : Prop :=
  (id = 1 ∧ location.latitudeRef ≠ none) ∨ (id = 2 ∧ location.latitude ≠ .missing) ∨
    (id = 3 ∧ location.longitudeRef ≠ none) ∨ (id = 4 ∧ location.longitude ≠ .missing)

theorem isSome_coordinateOr?_iff (kept : Coordinate) (outcome : Outcome) :
    (coordinateOr? kept outcome).isSome = true ↔ ¬ outcome.IsShort := by
  unfold coordinateOr?
  split
  · simp [Outcome.IsShort]
  · rename_i isSigned ratios several
    have notOne : ratios.length ≠ 1 := by
      intro one
      obtain ⟨ratio, rfl⟩ := List.length_eq_one_iff.mp one
      exact several ratio rfl
    have enough : (coordinate? ratios).isSome = true ↔ 3 ≤ ratios.length := by
      rcases ratios with _ | ⟨_, _ | ⟨_, _ | ⟨_, _⟩⟩⟩ <;> simp [coordinate?]
    rw [enough]
    constructor
    · rintro many ⟨_, others, same, -, few⟩
      cases same
      omega
    · intro long
      apply Nat.le_of_not_lt
      intro few
      exact long ⟨isSigned, ratios, rfl, notOne, few⟩
  · rename_i noRatio noRatios
    simp only [Option.isSome_some, true_iff]
    rintro ⟨isSigned, ratios, rfl, -, -⟩
    exact noRatios isSigned ratios rfl

theorem isSome_add?_iff (location : Location) (item : Nat × Outcome) :
    (location.add? item).isSome = true ↔
      (isCoordinateId item.1 = true → ¬ item.2.IsShort) := by
  obtain ⟨id, outcome⟩ := item
  unfold add?
  by_cases first : id = 1
  · simp [first, isCoordinateId]
  · by_cases second : id = 2
    · simp [second, isCoordinateId, isSome_coordinateOr?_iff]
    · by_cases third : id = 3
      · simp [third, isCoordinateId]
      · by_cases fourth : id = 4
        · simp [fourth, isCoordinateId, isSome_coordinateOr?_iff]
        · simp [first, second, third, fourth, isCoordinateId]

theorem isSome_foldlM_add?_iff (items : List (Nat × Outcome)) (location : Location) :
    (items.foldlM add? location).isSome = true ↔
      ∀ item ∈ items, isCoordinateId item.1 = true → ¬ item.2.IsShort := by
  induction items generalizing location with
  | nil => simp
  | cons item rest ih =>
      rw [List.foldlM_cons, List.forall_mem_cons, ← isSome_add?_iff location item]
      cases added : location.add? item with
      | none => simp
      | some next => simpa using ih next

theorem isSome_ofListing?_iff (items : List (Nat × Outcome)) :
    (ofListing? items).isSome = true ↔
      (∃ item ∈ items, isKnownId item.1 = true) ∧
        ∀ item ∈ items, isCoordinateId item.1 = true → ¬ item.2.IsShort := by
  unfold ofListing?
  rw [← List.any_eq_true]
  split
  · rename_i known
    simp only [isSome_foldlM_add?_iff, known, true_and]
  · rename_i unknown
    simp [unknown]

theorem gives_of_add? {location after : Location} {item : Nat × Outcome}
    (added : location.add? item = some after) {id : Nat} (given : after.Gives id) :
    location.Gives id ∨ item.1 = id := by
  obtain ⟨number, outcome⟩ := item
  by_cases same : number = id
  · exact .inr same
  · left
    unfold add? at added
    unfold Gives at given ⊢
    dsimp only at added
    by_cases first : number = 1
    · rw [if_pos first] at added
      obtain rfl := Option.some.inj added
      simpa [show id ≠ 1 by omega] using given
    · rw [if_neg first] at added
      by_cases second : number = 2
      · rw [if_pos second] at added
        obtain ⟨_, -, rfl⟩ := Option.map_eq_some_iff.mp added
        simpa [show id ≠ 2 by omega] using given
      · rw [if_neg second] at added
        by_cases third : number = 3
        · rw [if_pos third] at added
          obtain rfl := Option.some.inj added
          simpa [show id ≠ 3 by omega] using given
        · rw [if_neg third] at added
          by_cases fourth : number = 4
          · rw [if_pos fourth] at added
            obtain ⟨_, -, rfl⟩ := Option.map_eq_some_iff.mp added
            simpa [show id ≠ 4 by omega] using given
          · rw [if_neg fourth] at added
            obtain rfl := Option.some.inj added
            exact given

theorem gives_of_foldlM {items : List (Nat × Outcome)} {location after : Location}
    (folded : items.foldlM add? location = some after) {id : Nat} (given : after.Gives id) :
    location.Gives id ∨ ∃ item ∈ items, item.1 = id := by
  induction items generalizing location with
  | nil =>
      obtain rfl := Option.some.inj folded
      exact .inl given
  | cons item rest ih =>
      rw [List.foldlM_cons] at folded
      obtain ⟨next, added, later⟩ := Option.bind_eq_some_iff.mp folded
      rcases ih later with before | ⟨other, member, same⟩
      · rcases gives_of_add? added before with already | here
        · exact .inl already
        · exact .inr ⟨item, List.mem_cons_self .., here⟩
      · exact .inr ⟨other, List.mem_cons_of_mem _ member, same⟩

theorem exists_of_gives {items : List (Nat × Outcome)} {location : Location}
    (found : ofListing? items = some location) {id : Nat} (given : location.Gives id) :
    ∃ item ∈ items, item.1 = id := by
  unfold ofListing? at found
  split at found
  · rcases gives_of_foldlM found given with nothing | there
    · simp [Gives, empty] at nothing
    · exact there
  · simp at found

end Location

end PhotoTags.Tiff

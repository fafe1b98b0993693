import PhotoTags.Proofs.Tiff.Datum
import PhotoTags.Proofs.Tiff.Visited
import PhotoTags.Tiff.Location

/-!
What is found in a written block. A number under which one field was written gives that field's
datum, and the position is that of the fields of its own directory.
-/

namespace PhotoTags.Tiff

def zoneIds : List Nat := [offsetTime, offsetTimeTaken, offsetTimeDigitized]

def Outcome.datum? : Outcome → Option Datum
  | .datum value => some value
  | .directory offset => some (.numbers .long [offset])
  | .unreadable => none

theorem find?_eq (survey : Survey) (chain id : Nat) :
    survey.find? chain id = survey.visits.findSome? fun visit =>
      if visit.chain = chain ∧ visit.id = id then visit.outcome.datum? else none :=
  rfl

theorem find?_eq_none_of_chain {survey : Survey} {chain : Nat}
    (elsewhere : ∀ visit ∈ survey.visits, visit.chain ≠ chain) (id : Nat) :
    survey.find? chain id = none := by
  rw [find?_eq]
  exact List.findSome?_eq_none_iff.mpr fun visit listed =>
    if_neg fun both => elsewhere visit listed both.1

theorem thumbnail?_eq_none {survey : Survey} (first : ∀ visit ∈ survey.visits, visit.chain = 0)
    (block : Bytes) : survey.thumbnail? block = none := by
  have elsewhere : ∀ visit ∈ survey.visits, visit.chain ≠ 1 := by
    intro visit listed
    rw [first visit listed]
    decide
  rw [Survey.thumbnail?, find?_eq_none_of_chain elsewhere]
  rfl

theorem outcome_ofField (order : ByteOrder) (field : Field) :
    (Item.ofField order field).outcome order none =
      match field.datum? order with
      | some datum => .datum datum
      | none => .unreadable :=
  rfl

theorem findSome?_eq_of_unique {α β : Type} {items : List α} {read : α → Option β}
    {result : Option β} (there : ∃ item ∈ items, read item = result)
    (only : ∀ item ∈ items, read item = result ∨ read item = none) :
    items.findSome? read = result := by
  cases found : items.findSome? read with
  | none =>
      obtain ⟨item, member, same⟩ := there
      rw [← same, List.findSome?_eq_none_iff.mp found item member]
  | some value =>
      obtain ⟨item, member, same⟩ := List.exists_of_findSome?_eq_some found
      rcases only item member with equal | nothing
      · rw [← same, equal]
      · simp [same] at nothing

theorem find?_eq_some_of_unique {α : Type} {items : List α} {wanted : α → Bool} {item : α}
    (member : item ∈ items) (fits : wanted item = true)
    (only : ∀ other ∈ items, wanted other = true → other = item) :
    items.find? wanted = some item := by
  cases found : items.find? wanted with
  | none => exact absurd fits (List.find?_eq_none.mp found item member)
  | some other =>
      rw [only other (List.mem_of_find?_eq_some found) (List.find?_some found)]

theorem zoneText?_eq_none {items : List (Nat × Outcome)}
    (noZone : ∀ item ∈ items, item.1 ∉ zoneIds) : zoneText? items = none := by
  have ofPicture : items.find? (fun item =>
      item.1 == offsetTimeTaken || item.1 == offsetTimeDigitized) = none := by
    refine List.find?_eq_none.mpr fun item member => ?_
    have other := noZone item member
    simp only [zoneIds, List.mem_cons, List.not_mem_nil, or_false, not_or] at other
    simp [other]
  have ofFile : items.filter (fun item => item.1 == offsetTime) = [] := by
    refine List.filter_eq_nil_iff.mpr fun item member => ?_
    have other := noZone item member
    simp only [zoneIds, List.mem_cons, List.not_mem_nil, or_false, not_or] at other
    simp [other]
  simp [zoneText?, ofPicture, ofFile]

structure Surveyed (order : ByteOrder) (block : Bytes) (fields : List Field) (gpsAt : Nat)
    (survey : Survey) : Prop where
  orderIs : survey.order = order
  zoneless : survey.zone = none
  visits : ∃ exifAt, ∀ visit, visit ∈ survey.visits ↔
    (∃ field ∈ fields, visit = (Item.ofField order field).visit order none 0) ∨
    (itemsIn order .exif fields ≠ [] ∧ visit = ⟨0, exifPointer, .directory exifAt⟩) ∨
    (itemsIn order .gps fields ≠ [] ∧ visit = ⟨0, gpsPointer, .directory gpsAt⟩)

section

variable {order : ByteOrder} {block : Bytes} {fields : List Field} {exifAt gpsAt : Nat}

theorem zoneText?_laid (laid : Laid order block fields exifAt gpsAt)
    (sound : ∀ field ∈ fields, field.Sound) (noZone : ∀ field ∈ fields, field.id ∉ zoneIds)
    {entries : List Entry}
    (held : List.Forall₂ (Item.HeldBy order block)
      (Item.sorted (mainItems order fields exifAt gpsAt)) entries) :
    zoneText? (exifListing order block entries) = none := by
  unfold exifListing
  cases found : entries.find? (·.id == exifPointer) with
  | none => rfl
  | some entry =>
      obtain ⟨item, listed, itemHeld⟩ :=
        exists_of_mem_forall₂ held (List.mem_of_find?_eq_some found)
      have isExif : item.id = exifPointer := by
        rw [← itemHeld.id]
        simpa using List.find?_some found
      dsimp only
      rw [(laid.branching sound).outcome_eq none item listed entry itemHeld, mainOutcome,
        if_pos isExif]
      dsimp only
      -- Only the pointer itself has the number under which the listing is looked up.
      rcases (laid.branching sound).mem_iff.mp listed with own | ⟨filled, -⟩ | ⟨-, rfl⟩
      · have leaf := (isPointerId_eq_false_iff.mp (id_of_mem_itemsIn sound own).2.1).1
        exact absurd isExif leaf
      · obtain ⟨inner, rest, whole, list⟩ := listing_leaves none (laid.exif filled)
          (leaves_itemsIn sound .exif)
        rw [whole]
        dsimp only
        rw [list]
        refine zoneText?_eq_none fun visited member => ?_
        obtain ⟨leaf, leafListed, rfl⟩ := List.mem_map.mp member
        obtain ⟨field, fieldMember, -, rfl⟩ :=
          mem_itemsIn.mp ((Item.perm_sorted _).mem_iff.mp leafListed)
        exact noZone field fieldMember
      · exact absurd isExif exifPointer_ne_gpsPointer.symm

theorem survey?_laid (laid : Laid order block fields exifAt gpsAt)
    (sound : ∀ field ∈ fields, field.Sound) (noZone : ∀ field ∈ fields, field.id ∉ zoneIds) :
    ∃ survey, survey? block = some survey ∧ Surveyed order block fields gpsAt survey := by
  obtain ⟨entries, rest, whole, held, -⟩ := laid.main
  obtain ⟨fuel, enough⟩ := Nat.exists_eq_succ_of_ne_zero
    (mt List.length_eq_zero_iff.mp (ne_nil_of_header? laid.header))
  refine ⟨⟨order, none, (walkAt order block none (fuel + 2) 0 [] headerSize).visits⟩, ?_, rfl, rfl,
    exifAt, mem_visits_walkAt_main laid sound none fuel⟩
  simp only [survey?, laid.header, whole, zoneText?_laid laid sound noZone held, enough]

end

section

variable {order : ByteOrder} {block : Bytes} {fields : List Field} {gpsAt : Nat} {survey : Survey}
  (surveyed : Surveyed order block fields gpsAt survey)

include surveyed

theorem find?_written (sound : ∀ field ∈ fields, field.Sound) {field : Field}
    (member : field ∈ fields) (unique : ∀ other ∈ fields, other.id = field.id → other = field) :
    survey.find? 0 field.id = field.datum? order := by
  obtain ⟨exifAt, visits⟩ := surveyed.visits
  obtain ⟨notExif, notGps⟩ := isPointerId_eq_false_iff.mp (sound field member).noPointer
  have read : (if ((Item.ofField order field).visit order none 0).chain = 0 ∧
      ((Item.ofField order field).visit order none 0).id = field.id then
        ((Item.ofField order field).visit order none 0).outcome.datum? else none) =
          field.datum? order := by
    rw [if_pos ⟨rfl, rfl⟩, Item.visit, outcome_ofField]
    cases field.datum? order <;> rfl
  rw [find?_eq]
  refine findSome?_eq_of_unique ⟨_, (visits _).mpr (.inl ⟨field, member, rfl⟩), read⟩ ?_
  intro visit listed
  rcases (visits visit).mp listed with ⟨other, otherMember, rfl⟩ | ⟨-, rfl⟩ | ⟨-, rfl⟩
  · by_cases same : other.id = field.id
    · obtain rfl := unique other otherMember same
      exact .inl read
    · exact .inr (if_neg fun both => same both.2)
  · exact .inr (if_neg fun both => notExif both.2.symm)
  · exact .inr (if_neg fun both => notGps both.2.symm)

theorem find?_unwritten {id : Nat} (noPointer : isPointerId id = false)
    (absent : ∀ field ∈ fields, field.id ≠ id) : survey.find? 0 id = none := by
  obtain ⟨exifAt, visits⟩ := surveyed.visits
  obtain ⟨notExif, notGps⟩ := isPointerId_eq_false_iff.mp noPointer
  rw [find?_eq]
  refine List.findSome?_eq_none_iff.mpr fun visit listed => if_neg fun both => ?_
  rcases (visits visit).mp listed with ⟨field, member, rfl⟩ | ⟨-, rfl⟩ | ⟨-, rfl⟩
  · exact absent field member both.2
  · exact notExif both.2.symm
  · exact notGps both.2.symm

theorem thumbnail?_written (other : Bytes) : survey.thumbnail? other = none := by
  obtain ⟨exifAt, visits⟩ := surveyed.visits
  refine thumbnail?_eq_none (fun visit listed => ?_) other
  rcases (visits visit).mp listed with ⟨field, -, rfl⟩ | ⟨-, rfl⟩ | ⟨-, rfl⟩ <;> rfl

theorem location?_unwritten (sound : ∀ field ∈ fields, field.Sound)
    (noGps : itemsIn order .gps fields = []) : survey.location? block = none := by
  obtain ⟨exifAt, visits⟩ := surveyed.visits
  have noPointer : survey.visits.find? (fun visit =>
      visit.id == gpsPointer && visit.outcome != .unreadable) = none := by
    refine List.find?_eq_none.mpr fun visit listed wanted => ?_
    simp only [Bool.and_eq_true, beq_iff_eq] at wanted
    rcases (visits visit).mp listed with ⟨field, member, rfl⟩ | ⟨-, rfl⟩ | ⟨filled, -⟩
    · exact (isPointerId_eq_false_iff.mp (sound field member).noPointer).2 wanted.1
    · exact exifPointer_ne_gpsPointer wanted.1
    · exact filled noGps
  simp [Survey.location?, noPointer]

theorem location?_written {exifAt : Nat} (laid : Laid order block fields exifAt gpsAt)
    (sound : ∀ field ∈ fields, field.Sound) (filled : itemsIn order .gps fields ≠ []) :
    survey.location? block = Location.ofListing?
      ((Item.sorted (itemsIn order .gps fields)).map fun item =>
        (item.id, item.outcome order none)) := by
  obtain ⟨_, visits⟩ := surveyed.visits
  have pointer : survey.visits.find? (fun visit =>
      visit.id == gpsPointer && visit.outcome != .unreadable) =
        some ⟨0, gpsPointer, .directory gpsAt⟩ := by
    refine find?_eq_some_of_unique ((visits _).mpr (.inr (.inr ⟨filled, rfl⟩))) rfl ?_
    intro visit listed wanted
    simp only [Bool.and_eq_true, beq_iff_eq] at wanted
    rcases (visits visit).mp listed with ⟨field, member, rfl⟩ | ⟨-, rfl⟩ | ⟨-, same⟩
    · exact absurd wanted.1 (isPointerId_eq_false_iff.mp (sound field member).noPointer).2
    · exact absurd wanted.1 exifPointer_ne_gpsPointer
    · exact same
  obtain ⟨entries, rest, whole, list⟩ :=
    listing_leaves none (laid.gps filled) (leaves_itemsIn sound .gps)
  simp only [Survey.location?, pointer, surveyed.orderIs, surveyed.zoneless, whole, list]

end

end PhotoTags.Tiff

import PhotoTags.Proofs.Tiff.Found

/-!
The thumbnail of a written block, as values are looked up there. The walk comes from the main
directory to that of the thumbnail, where the two numbers that tell where the thumbnail is stand
before all pointers. Only an entry with the number 0, which ends the walk of its directory, can hide
them.
-/

namespace PhotoTags.Tiff

theorem snd_entriesOf (order : ByteOrder) (count : Nat) (bytes : Bytes) :
    (entriesOf order count bytes).2 =
      bytes.drop (Entry.size * (entriesOf order count bytes).1.length) := by
  induction count generalizing bytes with
  | zero => simp [entriesOf]
  | succ count ih =>
      rw [entriesOf]
      split
      · rw [ih, List.drop_drop, List.length_cons, Nat.mul_succ, Nat.add_comm Entry.size]
      · simp

theorem length_rest_of_wholeAt? {order : ByteOrder} {block : Bytes} {offset : Nat}
    {entries : List Entry} {rest : Bytes}
    (whole : wholeAt? order block offset = some (entries, rest)) :
    rest.length = block.length - (offset + 2 + Entry.size * entries.length) := by
  obtain ⟨-, read⟩ := wholeAt?_eq_some_iff.mp whole
  unfold entriesAt at read
  split at read
  · simp at read
  · rename_i count _
    have behind := snd_entriesOf order count (block.drop (offset + 2))
    split at read
    rename_i found after split
    obtain ⟨rfl, there⟩ := Prod.mk.inj read
    rw [split] at behind
    split at there
    · obtain rfl := Option.some.inj there
      dsimp only at behind
      rw [behind, List.length_drop, List.length_drop]
      omega
    · simp at there

theorem exists_split_at {items : List Item} (ordered : items.Pairwise (·.id ≤ ·.id)) (bound : Nat) :
    ∃ front behind, items = front ++ behind ∧ (∀ item ∈ front, item.id ≤ bound) ∧
      ∀ item ∈ behind, bound < item.id := by
  induction items with
  | nil => exact ⟨[], [], rfl, by simp, by simp⟩
  | cons item rest ih =>
      obtain ⟨least, restOrdered⟩ := List.pairwise_cons.mp ordered
      by_cases small : item.id ≤ bound
      · obtain ⟨front, behind, rfl, low, high⟩ := ih restOrdered
        refine ⟨item :: front, behind, rfl, ?_, high⟩
        intro other member
        rcases List.mem_cons.mp member with rfl | later
        · exact small
        · exact low other later
      · refine ⟨[], item :: rest, rfl, by simp, ?_⟩
        intro other member
        rcases List.mem_cons.mp member with rfl | later
        · omega
        · have := least other later
          omega

section

variable {order : ByteOrder} {block : Bytes} {start next : Nat} {items : List Item}
  (found : DirectoryAt order block start next items)

include found

/-- An item with the number 0 is the first one, and nothing is visited. -/
theorem walkAt_zero (ordered : items.Pairwise (·.id ≤ ·.id)) (zero : ∃ item ∈ items, item.id = 0)
    (zone : Option (List Char)) (fuel chain : Nat) (entered : List Nat) :
    walkAt order block zone (fuel + 1) chain entered start = ⟨[], entered⟩ := by
  obtain ⟨entries, rest, whole, held, -⟩ := found
  rw [walkAt_eq whole]
  cases held with
  | nil => simp at zero
  | @cons item entry items entries first _ =>
      obtain ⟨least, -⟩ := List.pairwise_cons.mp ordered
      have isZero : item.id = 0 := by
        obtain ⟨other, member, zero⟩ := zero
        rcases List.mem_cons.mp member with rfl | later
        · exact zero
        · have := least other later
          omega
      rw [walkEntries, first.id, if_pos isZero]

theorem walkAt_front {front behind : List Item} (split : items = front ++ behind)
    (leaves : Leaves front) (zone : Option (List Char)) (fuel chain : Nat) (entered : List Nat) :
    ∃ others, (walkAt order block zone (fuel + 1) chain entered start).visits =
      front.map (Item.visit order zone chain) ++ others := by
  obtain ⟨entries, rest, whole, held, -⟩ := found
  have heldFront := List.forall₂_take front.length held
  rw [split, List.take_left] at heldFront
  have same : ∀ item ∈ front, ∀ entry, item.HeldBy order block entry →
      outcome order block zone entry = item.outcome order zone :=
    fun item member entry held => held.outcome_eq (leaves item member).2 zone
  have noTargets : targets order block zone (entries.take front.length) = [] := by
    rw [targets_eq heldFront same]
    simp [Item.target?_outcome]
  rw [walkAt_eq whole, ← List.take_append_drop front.length entries,
    walkEntries_append (fun _ => []) _
      (numbered_of_forall₂ heldFront fun item member => (leaves item member).1) (by simp [noTargets])
      (by simp [noTargets]) (by simp [noTargets]), visits_eq heldFront same]
  refine ⟨_, congrArg (· ++ _) ?_⟩
  simp [visitsOf, Item.target?_outcome, Item.visit, List.map_eq_flatMap]

end

theorem outcome_pointer {order : ByteOrder} {id number : Nat} (bound : number < 65536)
    (noDate : dateIds.contains id = false) (zone : Option (List Char)) :
    (Item.pointer order id number).outcome order zone = .datum (.numbers .long [number]) := by
  have held : numbersOf order 4 1 (order.encode 4 number) = [number] := by
    have small : number < Nat.pow 256 4 := Nat.lt_trans bound (by decide)
    rw [numbersOf, List.take_of_length_le (Nat.le_of_eq (order.length_encode 4 number)),
      order.decode_encode 4 number small]
    rfl
  have read : Datum.ofValue? order zone id .long 1 (order.encode 4 number) =
      some (.numbers .long [number]) := by
    rw [Datum.ofValue?, noDate]
    exact congrArg (fun numbers => some (Datum.numbers .long numbers)) held
  simp only [Item.outcome, Item.pointer, read]

theorem find?_of_front {order : ByteOrder} {zone : Option (List Char)} {survey : Survey}
    {chain : Nat} {before others : List Visit} {front : List Item}
    (visits : survey.visits = before ++ (front.map (Item.visit order zone chain) ++ others))
    (elsewhere : ∀ visit ∈ before, visit.chain ≠ chain) {item : Item} (member : item ∈ front)
    (only : ∀ other ∈ front, other.id = item.id → other = item) {value : Datum}
    (read : item.outcome order zone = .datum value) : survey.find? chain item.id = some value := by
  have nothing : before.findSome? (fun visit =>
      if visit.chain = chain ∧ visit.id = item.id then visit.outcome.datum? else none) = none :=
    List.findSome?_eq_none_iff.mpr fun visit listed =>
      if_neg fun both => elsewhere visit listed both.1
  have own : (front.map (Item.visit order zone chain)).findSome? (fun visit =>
      if visit.chain = chain ∧ visit.id = item.id then visit.outcome.datum? else none) =
        some value := by
    have shown : (item.visit order zone chain).outcome.datum? = some value := by
      rw [Item.visit, read]
      rfl
    refine findSome?_eq_of_unique
      ⟨_, List.mem_map_of_mem member, (if_pos ⟨rfl, rfl⟩).trans shown⟩ fun visit listed => ?_
    obtain ⟨other, otherListed, rfl⟩ := List.mem_map.mp listed
    by_cases same : other.id = item.id
    · rw [only other otherListed same]
      exact .inl ((if_pos ⟨rfl, rfl⟩).trans shown)
    · exact .inr (if_neg fun both => same both.2)
  rw [find?_eq, visits, List.findSome?_append, nothing, Option.none_or, List.findSome?_append, own]
  rfl

namespace Link

variable {link : Link} {order : ByteOrder} {places : Places}
  (writable : ∀ field ∈ link.fields, isWritable field = true)

include writable

theorem mem_thumbnailPointers_of_id {item : Item} (member : item ∈ link.mainItems order places)
    (number : item.id = thumbnailOffset ∨ item.id = thumbnailLength) :
    item ∈ link.thumbnailPointers order places.thumbnail := by
  rcases mainItem_cases writable member with ⟨own, -⟩ | ⟨-, rfl⟩ | ⟨-, rfl⟩ | ⟨pointer, -⟩
  · have noLayout := not_mem_layoutIds writable own
    rcases number with same | same <;> rw [same] at noLayout <;> exact absurd (by decide) noLayout
  · exact absurd number (by rw [id_pointer]; decide)
  · exact absurd number (by rw [id_pointer]; decide)
  · exact pointer

theorem noPointer_of_id_le {item : Item} (member : item ∈ link.mainItems order places)
    (low : item.id ≤ thumbnailLength) : isPointerId item.id = false := by
  rcases mainItem_cases writable member with ⟨-, flat⟩ | ⟨-, rfl⟩ | ⟨-, rfl⟩ | ⟨-, flat⟩
  · exact flat
  · exact absurd low (by rw [id_pointer]; decide)
  · exact absurd low (by rw [id_pointer]; decide)
  · exact flat

end Link

theorem exists_zero_iff {order : ByteOrder} {fields : List Field} {thumbnail : Option Bytes}
    {chain : Nat} {places : Places} :
    (∃ item ∈ Item.sorted ((linkOf fields thumbnail chain).mainItems order places), item.id = 0) ↔
      ∃ field ∈ fields, field.chain = chain ∧ field.directory = .main ∧ field.id = 0 := by
  constructor
  · rintro ⟨item, member, zero⟩
    have listed := (Item.perm_sorted _).mem_iff.mp member
    rcases Link.mainItem_cases (writable_linkOf chain) listed with
      ⟨own, -⟩ | ⟨-, rfl⟩ | ⟨-, rfl⟩ | ⟨pointer, -⟩
    · obtain ⟨field, there, main, rfl⟩ := Link.mem_items.mp own
      obtain ⟨kept, linked, -⟩ := mem_linkOf.mp there
      exact ⟨field, kept, linked, main, zero⟩
    · exact absurd zero (by rw [id_pointer]; decide)
    · exact absurd zero (by rw [id_pointer]; decide)
    · rcases Link.mem_thumbnailPointers pointer with same | same <;> rw [same] at zero <;>
        exact absurd zero (by decide)
  · rintro ⟨field, member, linked, main, zero⟩
    have writable : isWritable field = true := by
      simp [isWritable, main, zero, layoutIds, exifPointer, gpsPointer, thumbnailOffset,
        thumbnailLength]
    have own : Item.ofField order field ∈ (linkOf fields thumbnail chain).items order .main :=
      Link.mem_items.mpr ⟨field, mem_linkOf.mpr ⟨member, linked, writable⟩, main, rfl⟩
    refine ⟨Item.ofField order field, (Item.perm_sorted _).mem_iff.mpr ?_, zero⟩
    simp only [Link.mainItems, List.mem_append]
    exact .inl (.inl (.inl own))

section

variable {order : ByteOrder} {block : Bytes} {fields : List Field} {thumbnail : Option Bytes}
  {second : Nat} {places later : Places}
  (chained : Chained order block fields thumbnail second places later)

include chained

theorem Chained.nextOffset?_eq {bytes : Bytes} (held : thumbnail = some bytes)
    {entries : List Entry} {rest : Bytes}
    (whole : wholeAt? order block headerSize = some (entries, rest))
    (count : entries.length =
      (Item.sorted ((linkOf fields thumbnail 0).mainItems order places)).length)
    (stands : Stands rest 0 (order.encode 4 second)) :
    nextOffset? order block rest = some second := by
  subst held
  obtain ⟨found, bound, behind⟩ := chained.next (isEmpty_linkOf_some bytes)
  obtain ⟨laterEntries, laterRest, laterWhole, laterHeld, laterStands⟩ := found.main
  have room := laterStands.within (List.ne_nil_of_length_pos (by rw [order.length_encode]; decide))
  have mainRoom := (linkOf fields (some bytes) 0).length_mainItems_le order places headerSize second
  have laterCount := laterHeld.length_eq
  have pointers : 2 ≤ ((linkOf fields (some bytes) 1).mainItems order later).length := by
    rw [Link.length_mainItems]
    simp [linkOf]
  rw [(Item.perm_sorted _).length_eq] at count laterCount
  rw [order.length_encode, length_rest_of_wholeAt? laterWhole] at room
  rw [directorySize] at mainRoom
  simp only [Entry.size] at room mainRoom
  have long : ¬ rest.length < Entry.size := by
    rw [length_rest_of_wholeAt? whole]
    simp only [Entry.size]
    omega
  have there : second ≠ 0 := by
    rw [headerSize] at behind
    omega
  rw [nextOffset?, if_neg long, stands.number?_eq (Nat.lt_trans bound (by decide))]
  simp only [if_neg there, found.main.fitsAt, if_true]

theorem Chained.survey?_eq : ∃ survey fuel, survey? block = some survey ∧
    survey.visits = (walkAt order block survey.zone (fuel + 2) 0 [] headerSize).visits := by
  obtain ⟨entries, rest, whole, -⟩ := chained.first.main
  obtain ⟨fuel, enough⟩ :=
    Nat.exists_eq_succ_of_ne_zero (mt List.length_eq_zero_iff.mp (ne_nil_of_header? chained.header))
  let zone := zoneText? (exifListing order block entries)
  refine ⟨⟨order, zone, (walkAt order block zone (fuel + 2) 0 [] headerSize).visits⟩, fuel, ?_, rfl⟩
  simp only [survey?, chained.header, whole, enough]
  rfl

/-- In the second directory both numbers are visited before any other directory. -/
theorem Chained.walkAt_second {bytes : Bytes} (held : thumbnail = some bytes)
    (numbered : ¬ ∃ item ∈ Item.sorted ((linkOf fields thumbnail 1).mainItems order later),
      item.id = 0) (zone : Option (List Char)) (fuel : Nat) (entered : List Nat) :
    ∃ (front : List Item) (others : List Visit),
      (walkAt order block zone (fuel + 1) 1 entered second).visits =
        front.map (Item.visit order zone 1) ++ others ∧
      ∀ item, item ∈ front ∧ (item.id = thumbnailOffset ∨ item.id = thumbnailLength) ↔
        item ∈ Link.thumbnailItems order later.thumbnail bytes := by
  subst held
  obtain ⟨found, -, -⟩ := chained.next (isEmpty_linkOf_some bytes)
  have writable : ∀ field ∈ (linkOf fields (some bytes) 1).fields, isWritable field = true :=
    writable_linkOf 1
  obtain ⟨front, behind, split, low, high⟩ := exists_split_at
    (Item.pairwise_sorted ((linkOf fields (some bytes) 1).mainItems order later)) thumbnailLength
  have listed {item : Item} (member : item ∈ front ++ behind) :
      item ∈ (linkOf fields (some bytes) 1).mainItems order later := by
    rw [← split] at member
    exact (Item.perm_sorted _).mem_iff.mp member
  have leaves : Leaves front := by
    intro item member
    have whole := List.mem_append_left behind member
    refine ⟨fun zero => numbered ⟨item, split ▸ whole, zero⟩, ?_⟩
    exact Link.noPointer_of_id_le writable (listed whole) (low item member)
  obtain ⟨others, visits⟩ := walkAt_front found.main split leaves zone fuel 1 entered
  refine ⟨front, others, visits, fun item => ⟨?_, fun pointer => ?_⟩⟩
  · rintro ⟨member, number⟩
    exact Link.mem_thumbnailPointers_of_id writable (listed (List.mem_append_left _ member)) number
  · have own : item ∈ (linkOf fields (some bytes) 1).thumbnailPointers order later.thumbnail :=
      pointer
    have number := Link.mem_thumbnailPointers own
    refine ⟨?_, number⟩
    have there : item ∈ front ++ behind := by
      rw [← split, (Item.perm_sorted _).mem_iff, Link.mainItems]
      exact List.mem_append_right _ own
    refine (List.mem_append.mp there).resolve_right fun later => ?_
    have := high item later
    rcases number with same | same <;> rw [same] at this <;> exact absurd this (by decide)

theorem Chained.thumbnail?_of_numbered {bytes : Bytes} (held : thumbnail = some bytes)
    (nonempty : bytes ≠ []) {survey : Survey} {before others : List Visit} {front : List Item}
    (visits : survey.visits =
      before ++ (front.map (Item.visit order survey.zone 1) ++ others))
    (first : ∀ visit ∈ before, visit.chain = 0)
    (pointers : ∀ item, item ∈ front ∧ (item.id = thumbnailOffset ∨ item.id = thumbnailLength) ↔
      item ∈ Link.thumbnailItems order later.thumbnail bytes) :
    survey.thumbnail? block = some bytes := by
  obtain ⟨stands, offsetBound, lengthBound⟩ := chained.thumbnail_stands held
  have elsewhere : ∀ visit ∈ before, visit.chain ≠ 1 := by
    intro visit listed
    rw [first visit listed]
    decide
  have find {id number : Nat} (named : id = thumbnailOffset ∨ id = thumbnailLength)
      (bound : number < 65536) (noDate : dateIds.contains id = false)
      (listed : Item.pointer order id number ∈
        Link.thumbnailItems order later.thumbnail bytes) :
      survey.find? 1 id = some (.numbers .long [number]) := by
    refine find?_of_front visits elsewhere ((pointers _).mpr listed).1 ?_
      (outcome_pointer bound noDate survey.zone)
    intro other member same
    have both : other ∈ Link.thumbnailItems order later.thumbnail bytes :=
      (pointers other).mp ⟨member, same ▸ named⟩
    have apart : ((Link.thumbnailItems order later.thumbnail bytes).map (·.id)).Nodup :=
      (by decide : [thumbnailOffset, thumbnailLength].Nodup)
    exact List.inj_on_of_nodup_map apart both listed same
  have offset := find (.inl rfl) offsetBound (by decide) (List.mem_cons_self ..)
  have length := find (.inr rfl) lengthBound (by decide)
    (List.mem_cons_of_mem _ (List.mem_cons_self ..))
  have filled : bytes.length ≠ 0 := mt List.length_eq_zero_iff.mp nonempty
  rw [Survey.thumbnail?, offset, length]
  exact (if_neg filled).trans stands.slice?_eq

variable (flat : ∀ field ∈ fields, field.chain = 0 → field.directory = .exif ∨ field.directory = .gps →
    isPointerId field.id = false)

include flat

theorem Chained.branching :
    Branching order block (Item.sorted ((linkOf fields thumbnail 0).mainItems order places))
      ((linkOf fields thumbnail 0).items order .main)
      ((linkOf fields thumbnail 0).exifItems order places)
      ((linkOf fields thumbnail 0).items order .gps) places.exif places.gps := by
  have flatIn {directory : Directory} (hanging : directory = .exif ∨ directory = .gps) :
      ∀ item ∈ (linkOf fields thumbnail 0).items order directory, isPointerId item.id = false := by
    intro item member
    obtain ⟨field, listed, rfl, rfl⟩ := Link.mem_items.mp member
    obtain ⟨own, chain, -⟩ := mem_linkOf.mp listed
    exact flat field own chain hanging
  refine ⟨?_, chained.first.exif, chained.first.gps, ?_, ?_, flatIn (.inr rfl), chained.first.apart,
    chained.first.bounds.1, chained.first.bounds.2.1⟩
  · have none : (linkOf fields thumbnail 0).thumbnailPointers order places.thumbnail = [] := rfl
    refine (Item.perm_sorted _).trans ?_
    rw [Link.mainItems, none, List.append_nil]
  · exact fun item => Link.noPointer_main (writable_linkOf 0)
  · intro item member
    rcases List.mem_append.mp member with own | pointer
    · exact flatIn (.inl rfl) item own
    · rw [(mem_pointerTo.mp pointer).2]
      rfl

variable (alone : thumbnail = none → ∀ field ∈ fields, field.chain = 0)

include alone

/-- The walk of the first link goes on with the second one, if there is a thumbnail. -/
theorem Chained.walkAt_first
    (numbered : ¬ ∃ item ∈ Item.sorted ((linkOf fields thumbnail 0).mainItems order places),
      item.id = 0) (zone : Option (List Char)) (fuel : Nat) :
    ∃ before entered, (∀ visit ∈ before, visit.chain = 0) ∧
      (walkAt order block zone (fuel + 2) 0 [] headerSize).visits = before ++
        if thumbnail.isSome then (walkAt order block zone (fuel + 1) 1 entered second).visits
        else [] := by
  have branching := chained.branching flat
  obtain ⟨rest, entered, ⟨entries, whole, count⟩, stands, within, visits⟩ :=
    branching.walkAt_main chained.first.main
      (fun item member zero => numbered ⟨item, member, zero⟩) zone fuel 0
  refine ⟨_, second :: entered, fun visit => branching.chain_of_mem_visits zone fuel 0, ?_⟩
  rw [visits]
  congr 1
  cases held : thumbnail with
  | none =>
      subst held
      have empty : (linkOf fields none 1).isEmpty = true := by
        have nothing : fields.filter (fun field => field.chain = 1 && isWritable field) = [] := by
          refine List.filter_eq_nil_iff.mpr fun field member => ?_
          simp [alone rfl field member]
        simp [Link.isEmpty, linkOf, nothing]
      rw [chained.last empty] at stands
      rw [walkNext_last stands]
      rfl
  | some bytes =>
      subst held
      have fresh : second ∉ entered := by
        intro member
        have behind := (chained.next (isEmpty_linkOf_some bytes)).2.2
        rcases within second member with ⟨filled, same⟩ | ⟨filled, same⟩
        · have := chained.first.before.1 filled
          omega
        · have := chained.first.before.2 filled
          omega
      rw [walkNext, chained.nextOffset?_eq rfl whole count stands]
      simp [fresh]

/-- The thumbnail that a block was written with is found if no main directory has an entry with the
number 0. -/
theorem Chained.thumbnail?_eq_some_iff (linked : ∀ field ∈ fields, field.chain = 0 ∨ field.chain = 1)
    (filled : thumbnail ≠ some []) :
    ∃ survey, survey? block = some survey ∧ ∀ bytes, survey.thumbnail? block = some bytes ↔
      thumbnail = some bytes ∧ ∀ field ∈ fields, field.directory = .main → field.id ≠ 0 := by
  obtain ⟨survey, fuel, surveyed, visits⟩ := chained.survey?_eq
  refine ⟨survey, surveyed, ?_⟩
  have absent (first : ∀ visit ∈ survey.visits, visit.chain = 0)
      (fails : thumbnail = none ∨
        ∃ field ∈ fields, field.directory = .main ∧ field.id = 0) :
      ∀ bytes, survey.thumbnail? block = some bytes ↔ thumbnail = some bytes ∧
        ∀ field ∈ fields, field.directory = .main → field.id ≠ 0 := by
    intro bytes
    rw [thumbnail?_eq_none first]
    refine iff_of_false (by simp) ?_
    rintro ⟨held, numbered⟩
    rcases fails with none | ⟨field, member, main, zero⟩
    · simp [none] at held
    · exact numbered field member main zero
  by_cases zero : ∃ item ∈ Item.sorted ((linkOf fields thumbnail 0).mainItems order places),
      item.id = 0
  · obtain ⟨field, member, -, main, isZero⟩ := exists_zero_iff.mp zero
    refine absent ?_ (.inr ⟨field, member, main, isZero⟩)
    rw [visits, walkAt_zero chained.first.main (Item.pairwise_sorted _) zero]
    simp
  · obtain ⟨before, entered, first, walked⟩ := chained.walkAt_first flat alone zero survey.zone fuel
    rw [walked] at visits
    cases held : thumbnail with
    | none =>
        subst held
        refine absent ?_ (.inl rfl)
        rw [visits]
        simpa using first
    | some bytes =>
        subst held
        rw [Option.isSome_some, if_pos rfl] at visits
        obtain ⟨found, -, -⟩ := chained.next (isEmpty_linkOf_some bytes)
        by_cases laterZero : ∃ item ∈
            Item.sorted ((linkOf fields (some bytes) 1).mainItems order later), item.id = 0
        · obtain ⟨field, member, -, main, isZero⟩ := exists_zero_iff.mp laterZero
          refine absent ?_ (.inr ⟨field, member, main, isZero⟩)
          rw [visits, walkAt_zero found.main (Item.pairwise_sorted _) laterZero]
          simpa using first
        · obtain ⟨front, others, there, pointers⟩ :=
            chained.walkAt_second rfl laterZero survey.zone fuel entered
          rw [there] at visits
          have nonempty : bytes ≠ [] := fun nothing => filled (congrArg some nothing)
          have shown := chained.thumbnail?_of_numbered rfl nonempty visits first pointers
          have numbered : ∀ field ∈ fields, field.directory = .main → field.id ≠ 0 := by
            intro field member main isZero
            rcases linked field member with chain | chain
            · exact zero (exists_zero_iff.mpr ⟨field, member, chain, main, isZero⟩)
            · exact laterZero (exists_zero_iff.mpr ⟨field, member, chain, main, isZero⟩)
          intro other
          rw [shown]
          exact (and_iff_left numbered).symm

end

end PhotoTags.Tiff

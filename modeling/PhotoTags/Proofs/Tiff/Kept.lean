import PhotoTags.Proofs.Tiff.Block
import PhotoTags.Proofs.Tiff.Runs

/-!
What is kept of a written block when it is written again: the fields that the layout takes over, once
each, with the thumbnail and the two numbers that tell where it is. Their order is that of the block,
in which the fields with one number in a directory are in the order in which they were written.
-/

namespace PhotoTags.Tiff

theorem flatMap_eq_of_forall₂ {α β γ : Type} {relates : α → β → Prop} {items : List α}
    {entries : List β} (related : List.Forall₂ relates items entries) {read : β → List γ}
    {meant : α → List γ}
    (same : ∀ item ∈ items, ∀ entry, relates item entry → read entry = meant item) :
    entries.flatMap read = items.flatMap meant := by
  induction related with
  | nil => rfl
  | @cons item entry items entries first _ ih =>
      rw [List.flatMap_cons, List.flatMap_cons, same item (List.mem_cons_self ..) entry first,
        ih fun other member => same other (List.mem_cons_of_mem _ member)]

theorem exifPointer_ne_gpsPointer : exifPointer ≠ gpsPointer := by decide

theorem id_pointer (order : ByteOrder) (id offset : Nat) : (Item.pointer order id offset).id = id :=
  rfl

theorem isPointerId_eq_false_iff {id : Nat} :
    isPointerId id = false ↔ id ≠ exifPointer ∧ id ≠ gpsPointer := by
  simp [isPointerId]

def Slot.place (slot : Slot) : Nat × Directory × Nat :=
  (slot.chain, slot.directory, slot.id)

def Field.place (field : Field) : Nat × Directory × Nat :=
  (field.chain, field.directory, field.id)

theorem Slot.place_of_field? {slot : Slot} {field : Field} (made : slot.field? = some field) :
    field.place = slot.place := by
  obtain ⟨value, -, rfl⟩ := Option.map_eq_some_iff.mp made
  rfl

def Item.slot (order : ByteOrder) (chain : Nat) (directory : Directory) (item : Item) : Slot :=
  ⟨directory, item.id, chain, some (Value.ofBytes order item.type item.count item.bytes)⟩

section

variable {order : ByteOrder} {block : Bytes}

theorem Item.HeldBy.value?_eq {item : Item} {entry : Entry} (held : item.HeldBy order block entry) :
    entry.value? order block = some (Value.ofBytes order item.type item.count item.bytes) := by
  rw [Entry.value?, held.typeCode, ofCode?_code]
  simp only [held.bytes, held.count, Option.map_some]

theorem Item.HeldBy.slotsOf_eq {item : Item} {entry : Entry} (held : item.HeldBy order block entry)
    (chain : Nat) (directory : Directory) :
    slotsOf order block chain directory entry = [item.slot order chain directory] := by
  simp [slotsOf, held.value?_eq, held.id, Item.slot]

theorem DirectoryAt.entriesAt_eq {offset next : Nat} {items : List Item}
    (found : DirectoryAt order block offset next items) (bound : next < 65536) :
    ∃ entries rest, entriesAt order block offset = (entries, some rest) ∧
      List.Forall₂ (Item.HeldBy order block) items entries ∧ number? order rest 0 4 = some next := by
  obtain ⟨entries, rest, whole, held, stands⟩ := found
  exact ⟨entries, rest, (wholeAt?_eq_some_iff.mp whole).2, held,
    stands.number?_eq (Nat.lt_trans bound (by decide))⟩

theorem leafSlots_eq {offset : Nat} {items : List Item}
    (found : DirectoryAt order block offset 0 items) (chain : Nat) (directory : Directory) :
    leafSlots order block chain directory offset = items.map (Item.slot order chain directory) := by
  obtain ⟨entries, rest, read, held, -⟩ := found.entriesAt_eq (by decide)
  rw [leafSlots, read, List.map_eq_flatMap]
  exact flatMap_eq_of_forall₂ held fun item _ entry held => held.slotsOf_eq chain directory

theorem ofBytes_pointer {number : Nat} (bound : number < 65536) :
    Value.ofBytes order .long 1 (order.encode 4 number) = ⟨.long, [number]⟩ := by
  have count : (Value.mk .long [number]).count = 1 := by
    simp [Value.count, FieldType.arity]
  have bytes : (Value.mk .long [number]).bytes order = order.encode 4 number := by
    simp [Value.bytes, FieldType.width]
  have stored : (Value.mk .long [number]).Stored := by
    refine ⟨?_, by rw [count]; rfl, by simp⟩
    intro other member
    rw [List.mem_singleton.mp member]
    exact Nat.lt_trans bound (show 65536 < Nat.pow 256 4 by decide)
  simpa only [bytes, count] using stored.ofBytes_bytes order

theorem slot_pointer {number : Nat} (bound : number < 65536) (id chain : Nat)
    (directory : Directory) : (Item.pointer order id number).slot order chain directory =
      ⟨directory, id, chain, some ⟨.long, [number]⟩⟩ := by
  simp only [Item.slot, Item.pointer, ofBytes_pointer bound]

theorem pointed_pointer {id offset : Nat} {entry : Entry} (bound : offset < 65536)
    (held : (Item.pointer order id offset).HeldBy order block entry) (slotsAt : Nat → List Slot) :
    pointed order block slotsAt entry = slotsAt offset := by
  rw [pointed, held.value?_eq]
  simp only [Item.pointer, ofBytes_pointer bound]
  rfl

theorem sameRuns_slots_of_sorted (items : List Item) (chain : Nat) (directory : Directory) :
    SameRuns Slot.place ((Item.sorted items).map (Item.slot order chain directory))
      (items.map (Item.slot order chain directory)) :=
  (Item.sameRuns_sorted items).map fun place =>
    ⟨place.2.2, fun _ same => congrArg (·.2.2) same⟩

theorem sameRuns_flatMap_pointerTo {id offset : Nat} {items : List Item} {meant : Item → List Slot}
    {slots : List Slot} (leads : SameRuns Slot.place (meant (Item.pointer order id offset)) slots)
    (nothing : items = [] → slots = []) :
    SameRuns Slot.place ((pointerTo order id offset items).flatMap meant) slots := by
  cases items with
  | nil =>
      rw [nothing rfl]
      exact .refl _ _
  | cons item rest => simpa [pointerTo] using leads

end

namespace Link

variable (link : Link) (order : ByteOrder) (chain : Nat) (places : Places)

def slotsIn (directory : Directory) : List Slot :=
  (link.items order directory).map (Item.slot order chain directory)

def exifSlotsOf (item : Item) : List Slot :=
  if item.id = interopPointer then
    (Item.sorted (link.items order .interop)).map (Item.slot order chain .interop)
  else [item.slot order chain .exif]

def mainSlotsOf (item : Item) : List Slot :=
  if item.id = exifPointer then
    (Item.sorted (link.exifItems order places)).flatMap (link.exifSlotsOf order chain)
  else if item.id = gpsPointer then
    (Item.sorted (link.items order .gps)).map (Item.slot order chain .gps)
  else [item.slot order chain .main]

def slots : List Slot :=
  (Item.sorted (link.mainItems order places)).flatMap (link.mainSlotsOf order chain places)

theorem mainSlotsOf_exif (offset : Nat) :
    link.mainSlotsOf order chain places (Item.pointer order exifPointer offset) =
      (Item.sorted (link.exifItems order places)).flatMap (link.exifSlotsOf order chain) :=
  if_pos rfl

theorem mainSlotsOf_gps (offset : Nat) :
    link.mainSlotsOf order chain places (Item.pointer order gpsPointer offset) =
      (Item.sorted (link.items order .gps)).map (Item.slot order chain .gps) :=
  (if_neg exifPointer_ne_gpsPointer.symm).trans (if_pos rfl)

variable {link order chain places}

theorem mem_exifSlotsOf {item : Item} {slot : Slot} (member : slot ∈ link.exifSlotsOf order chain item) :
    item.id = interopPointer ∧ slot.directory = .interop ∨
      slot.directory = .exif ∧ slot.id = item.id := by
  unfold exifSlotsOf at member
  split at member
  · rename_i pointer
    obtain ⟨other, -, rfl⟩ := List.mem_map.mp member
    exact .inl ⟨pointer, rfl⟩
  · rw [List.mem_singleton.mp member]
    exact .inr ⟨rfl, rfl⟩

theorem mem_mainSlotsOf {item : Item} {slot : Slot}
    (member : slot ∈ link.mainSlotsOf order chain places item) :
    item.id = exifPointer ∧ (slot.directory = .exif ∨ slot.directory = .interop) ∨
      item.id = gpsPointer ∧ slot.directory = .gps ∨
      slot.directory = .main ∧ slot.id = item.id := by
  unfold mainSlotsOf at member
  split at member
  · rename_i pointer
    obtain ⟨other, -, inside⟩ := List.mem_flatMap.mp member
    rcases mem_exifSlotsOf inside with ⟨-, interop⟩ | ⟨exif, -⟩
    · exact .inl ⟨pointer, .inr interop⟩
    · exact .inl ⟨pointer, .inl exif⟩
  · split at member
    · rename_i pointer
      obtain ⟨other, -, rfl⟩ := List.mem_map.mp member
      exact .inr (.inl ⟨pointer, rfl⟩)
    · rw [List.mem_singleton.mp member]
      exact .inr (.inr ⟨rfl, rfl⟩)

def mainKey (place : Nat × Directory × Nat) : Nat :=
  match place.2.1 with
  | .main => place.2.2
  | .gps => gpsPointer
  | .exif | .interop => exifPointer

def exifKey (place : Nat × Directory × Nat) : Nat :=
  match place.2.1 with
  | .exif => place.2.2
  | _ => interopPointer

theorem id_eq_exifKey {item : Item} {slot : Slot} (member : slot ∈ link.exifSlotsOf order chain item) :
    item.id = exifKey slot.place := by
  rcases mem_exifSlotsOf member with ⟨pointer, interop⟩ | ⟨exif, same⟩
  · simp [exifKey, Slot.place, interop, pointer]
  · simp [exifKey, Slot.place, exif, same]

theorem id_eq_mainKey {item : Item} {slot : Slot}
    (member : slot ∈ link.mainSlotsOf order chain places item) :
    item.id = mainKey slot.place := by
  rcases mem_mainSlotsOf member with ⟨pointer, exif | interop⟩ | ⟨pointer, gps⟩ | ⟨main, same⟩
  · simp [mainKey, Slot.place, exif, pointer]
  · simp [mainKey, Slot.place, interop, pointer]
  · simp [mainKey, Slot.place, gps, pointer]
  · simp [mainKey, Slot.place, main, same]

theorem mainSlotsOf_own {item : Item} (noPointer : isPointerId item.id = false) :
    link.mainSlotsOf order chain places item = [item.slot order chain .main] := by
  obtain ⟨notExif, notGps⟩ := isPointerId_eq_false_iff.mp noPointer
  exact (if_neg notExif).trans (if_neg notGps)

theorem mem_thumbnailPointers {offset : Nat} {item : Item}
    (member : item ∈ link.thumbnailPointers order offset) :
    item.id = thumbnailOffset ∨ item.id = thumbnailLength := by
  unfold thumbnailPointers at member
  split at member
  · simp at member
  · simp only [thumbnailItems, List.mem_cons, List.not_mem_nil, or_false] at member
    rcases member with rfl | rfl
    · exact .inl rfl
    · exact .inr rfl

theorem noPointer_thumbnailPointers {offset : Nat} {item : Item}
    (member : item ∈ link.thumbnailPointers order offset) : isPointerId item.id = false := by
  rcases mem_thumbnailPointers member with same | same <;> rw [same] <;> decide

section

variable (writable : ∀ field ∈ link.fields, isWritable field = true)

include writable

theorem not_mem_layoutIds {item : Item} (member : item ∈ link.items order .main) :
    item.id ∉ layoutIds := by
  obtain ⟨field, listed, place, rfl⟩ := mem_items.mp member
  simpa [isWritable, place, Item.ofField] using writable field listed

theorem noPointer_main {item : Item} (member : item ∈ link.items order .main) :
    isPointerId item.id = false := by
  have noLayout := not_mem_layoutIds writable member
  simp only [layoutIds, List.mem_cons, not_or] at noLayout
  exact isPointerId_eq_false_iff.mpr ⟨noLayout.1, noLayout.2.1⟩

theorem ne_interopPointer {item : Item} (member : item ∈ link.items order .exif) :
    item.id ≠ interopPointer := by
  obtain ⟨field, listed, place, rfl⟩ := mem_items.mp member
  simpa [isWritable, place, Item.ofField] using writable field listed

/-- The items of a main directory are its own, the two pointers and those of the thumbnail. -/
theorem mainItem_cases {item : Item} (member : item ∈ link.mainItems order places) :
    (item ∈ link.items order .main ∧ isPointerId item.id = false) ∨
      (link.exifItems order places ≠ [] ∧ item = Item.pointer order exifPointer places.exif) ∨
      (link.items order .gps ≠ [] ∧ item = Item.pointer order gpsPointer places.gps) ∨
      (item ∈ link.thumbnailPointers order places.thumbnail ∧ isPointerId item.id = false) := by
  simp only [mainItems, List.mem_append, mem_pointerTo] at member
  rcases member with ((own | exif) | gps) | thumbnail
  · exact .inl ⟨own, noPointer_main writable own⟩
  · exact .inr (.inl exif)
  · exact .inr (.inr (.inl gps))
  · exact .inr (.inr (.inr ⟨thumbnail, noPointer_thumbnailPointers thumbnail⟩))

section

variable {block : Bytes} {start next : Nat} (found : link.At order block start next places)

include found

theorem exifSlots_eq (nonempty : link.exifItems order places ≠ []) :
    exifSlots order block chain places.exif =
      (Item.sorted (link.exifItems order places)).flatMap (link.exifSlotsOf order chain) := by
  obtain ⟨entries, rest, read, held, -⟩ := (found.exif nonempty).entriesAt_eq (by decide)
  rw [exifSlots, read]
  refine flatMap_eq_of_forall₂ held fun item member entry held => ?_
  rcases List.mem_append.mp ((Item.perm_sorted _).mem_iff.mp member) with own | pointer
  · have leaf := ne_interopPointer writable own
    rw [exifSlotsOf, held.id, if_neg leaf, if_neg leaf, held.slotsOf_eq]
  · obtain ⟨filled, rfl⟩ := mem_pointerTo.mp pointer
    rw [exifSlotsOf, held.id, if_pos (id_pointer ..), if_pos (id_pointer ..),
      pointed_pointer found.bounds.2.2.1 held, leafSlots_eq (found.interop filled)]

theorem mainSlots_eq {entries : List Entry}
    (held : List.Forall₂ (Item.HeldBy order block) (Item.sorted (link.mainItems order places))
      entries) : mainSlots order block chain entries = link.slots order chain places := by
  refine flatMap_eq_of_forall₂ held fun item member entry held => ?_
  have own (noPointer : isPointerId item.id = false) :
      (if entry.id = exifPointer then pointed order block (exifSlots order block chain) entry
        else if entry.id = gpsPointer then
          pointed order block (leafSlots order block chain .gps) entry
        else slotsOf order block chain .main entry) = link.mainSlotsOf order chain places item := by
    obtain ⟨notExif, notGps⟩ := isPointerId_eq_false_iff.mp noPointer
    rw [held.id, mainSlotsOf_own noPointer, if_neg notExif, if_neg notGps, held.slotsOf_eq]
  rcases mainItem_cases writable ((Item.perm_sorted _).mem_iff.mp member) with
    ⟨-, leaf⟩ | ⟨filled, rfl⟩ | ⟨filled, rfl⟩ | ⟨-, leaf⟩
  · exact own leaf
  · rw [held.id, mainSlotsOf_exif, if_pos (id_pointer ..), pointed_pointer found.bounds.1 held,
      exifSlots_eq writable found filled]
  · rw [held.id, mainSlotsOf_gps, id_pointer, if_neg exifPointer_ne_gpsPointer.symm, if_pos rfl,
      pointed_pointer found.bounds.2.1 held, leafSlots_eq (found.gps filled)]
  · exact own leaf

end

theorem sameRuns_exifSlots : SameRuns Slot.place
    ((Item.sorted (link.exifItems order places)).flatMap (link.exifSlotsOf order chain))
    (link.slotsIn order chain .exif ++ link.slotsIn order chain .interop) := by
  refine ((Item.sameRuns_sorted _).flatMap fun place => ⟨exifKey place, ?_⟩).trans ?_
  · rintro item slot member rfl
    exact id_eq_exifKey member
  have own : (link.items order .exif).flatMap (link.exifSlotsOf order chain) =
      link.slotsIn order chain .exif := by
    rw [slotsIn, List.map_eq_flatMap]
    exact List.flatMap_congr fun item member => if_neg (ne_interopPointer writable member)
  rw [exifItems, List.flatMap_append, own]
  refine (SameRuns.refl _ _).append (sameRuns_flatMap_pointerTo ?_ fun nothing => ?_)
  · rw [exifSlotsOf, if_pos (id_pointer ..)]
    exact sameRuns_slots_of_sorted _ chain .interop
  · rw [slotsIn, nothing, List.map_nil]

theorem sameRuns_slots : SameRuns Slot.place (link.slots order chain places)
    (link.slotsIn order chain .main ++
      (link.slotsIn order chain .exif ++ link.slotsIn order chain .interop) ++
      link.slotsIn order chain .gps ++
      (link.thumbnailPointers order places.thumbnail).map (Item.slot order chain .main)) := by
  refine ((Item.sameRuns_sorted _).flatMap fun place => ⟨mainKey place, ?_⟩).trans ?_
  · rintro item slot member rfl
    exact id_eq_mainKey member
  have leaves {items : List Item} (leaf : ∀ item ∈ items, isPointerId item.id = false) :
      items.flatMap (link.mainSlotsOf order chain places) = items.map (Item.slot order chain .main) := by
    rw [List.map_eq_flatMap]
    exact List.flatMap_congr fun item member => mainSlotsOf_own (leaf item member)
  rw [mainItems, List.flatMap_append, List.flatMap_append, List.flatMap_append,
    leaves fun item => noPointer_main writable, leaves fun item => noPointer_thumbnailPointers]
  refine (((SameRuns.refl _ _).append ?_).append ?_).append (.refl _ _)
  · refine sameRuns_flatMap_pointerTo ?_ fun nothing => ?_
    · rw [mainSlotsOf_exif]
      exact sameRuns_exifSlots writable
    · obtain ⟨noExif, noPointer⟩ := List.append_eq_nil_iff.mp nothing
      rw [pointerTo_eq] at noPointer
      split at noPointer
      · rename_i noInterop
        rw [slotsIn, noExif, slotsIn, List.length_eq_zero_iff.mp noInterop]
        rfl
      · simp at noPointer
  · refine sameRuns_flatMap_pointerTo ?_ fun nothing => ?_
    · rw [mainSlotsOf_gps]
      exact sameRuns_slots_of_sorted _ chain .gps
    · rw [slotsIn, nothing, List.map_nil]

end

theorem filterMap_slotsIn (stored : ∀ field ∈ link.fields, field.Stored)
    (linked : ∀ field ∈ link.fields, field.chain = chain) (directory : Directory) :
    (link.slotsIn order chain directory).filterMap Slot.field? =
      link.fields.filter (·.directory = directory) := by
  rw [slotsIn, items, List.map_map, List.filterMap_map]
  refine (List.filterMap_congr fun field member => ?_).trans List.filterMap_some
  obtain ⟨listed, hung⟩ := List.mem_filter.mp member
  have value : Value.ofBytes order field.value.type field.value.count (field.value.bytes order) =
      field.value := (stored field listed).value.ofBytes_bytes order
  have chainIs := linked field listed
  have directoryIs : field.directory = directory := by simpa using hung
  obtain ⟨_, _, _, _⟩ := field
  subst directoryIs chainIs
  simp only [Function.comp_apply, Item.slot, Item.ofField, Slot.field?, value, Option.map_some]

end Link

theorem sameRuns_directories (fields : List Field) : SameRuns Field.place
    (fields.filter (·.directory = .main) ++
      (fields.filter (·.directory = .exif) ++ fields.filter (·.directory = .interop)) ++
      fields.filter (·.directory = .gps)) fields := by
  rintro ⟨chain, directory, id⟩
  have run (other : Directory) : (fields.filter (·.directory = other)).filter
      (·.place = (chain, directory, id)) =
        if other = directory then fields.filter (·.place = (chain, directory, id)) else [] := by
    split
    · rename_i own
      rw [List.filter_filter]
      refine List.filter_congr fun field _ => ?_
      simp only [Field.place, Prod.mk.injEq, own]
      grind
    · rename_i away
      refine List.filter_eq_nil_iff.mpr fun field member => ?_
      have inside : field.directory = other := by simpa using (List.mem_filter.mp member).2
      simp [Field.place, inside, away]
  rw [List.filter_append, List.filter_append, List.filter_append, run, run, run, run]
  cases directory <;> simp

def keptFields (fields : List Field) (thumbnail : Option Bytes) : List Field :=
  fields.filter fun field =>
    isWritable field && (field.chain = 0 || field.chain = 1 && thumbnail.isSome)

def thumbnailFields (thumbnail : Option Bytes) (offset : Nat) : List Field :=
  match thumbnail with
  | none => []
  | some bytes =>
      [⟨.main, thumbnailOffset, 1, ⟨.long, [offset]⟩⟩,
        ⟨.main, thumbnailLength, 1, ⟨.long, [bytes.length]⟩⟩]

def thumbnailSlots (thumbnail : Option Bytes) (offset : Nat) : List Slot :=
  (thumbnailFields thumbnail offset).map fun field =>
    ⟨field.directory, field.id, field.chain, some field.value⟩

namespace Link

variable {link : Link} {order : ByteOrder} {chain : Nat} {places : Places}

theorem slots_of_isEmpty (empty : link.isEmpty = true) : link.slots order chain places = [] := by
  obtain ⟨fields, thumbnail⟩ := link
  simp only [isEmpty, Bool.and_eq_true, List.isEmpty_iff, Option.isNone_iff_eq_none] at empty
  obtain ⟨rfl, rfl⟩ := empty
  rfl

theorem map_thumbnailPointers {offset : Nat} (bound : offset < 65536)
    (small : ∀ bytes, link.thumbnail = some bytes → bytes.length < 65536) :
    (link.thumbnailPointers order offset).map (Item.slot order 1 .main) =
      thumbnailSlots link.thumbnail offset := by
  unfold thumbnailPointers thumbnailSlots thumbnailFields
  cases held : link.thumbnail with
  | none => rfl
  | some bytes =>
      simp only [thumbnailItems, List.map_cons, List.map_nil, slot_pointer bound,
        slot_pointer (small bytes held)]

end Link

section

variable {order : ByteOrder} {block : Bytes} {fields : List Field} {thumbnail : Option Bytes}
  {second : Nat} {places later : Places}

theorem writable_linkOf (chain : Nat) :
    ∀ field ∈ (linkOf fields thumbnail chain).fields, isWritable field = true :=
  fun _ member => (mem_linkOf.mp member).2.2

theorem chain_linkOf (chain : Nat) :
    ∀ field ∈ (linkOf fields thumbnail chain).fields, field.chain = chain :=
  fun _ member => (mem_linkOf.mp member).2.1

theorem thumbnail_linkOf_first : (linkOf fields thumbnail 0).thumbnail = none :=
  rfl

theorem isEmpty_linkOf_some (bytes : Bytes) : (linkOf fields (some bytes) 1).isEmpty = false := by
  simp [Link.isEmpty, linkOf]

section

variable (chained : Chained order block fields thumbnail second places later)

include chained

theorem Chained.second_bound : second < 65536 := by
  cases empty : (linkOf fields thumbnail 1).isEmpty with
  | true => rw [chained.last empty]; decide
  | false => exact (chained.next empty).2.1

theorem Chained.thumbnail_stands {bytes : Bytes} (held : thumbnail = some bytes) :
    Stands block later.thumbnail bytes ∧ later.thumbnail < 65536 ∧ bytes.length < 65536 := by
  subst held
  obtain ⟨next, -⟩ := chained.next (isEmpty_linkOf_some bytes)
  have stands := next.thumbnail bytes rfl
  refine ⟨stands, next.bounds.2.2.2, ?_⟩
  have short := chained.short
  cases bytes with
  | nil => decide
  | cons byte rest =>
      have inside := stands.within (List.cons_ne_nil byte rest)
      omega

theorem Chained.chainSlots_eq :
    chainSlots order block headerSize = (linkOf fields thumbnail 0).slots order 0 places ++
      (linkOf fields thumbnail 1).slots order 1 later := by
  obtain ⟨entries, rest, read, held, next⟩ :=
    chained.first.main.entriesAt_eq chained.second_bound
  rw [chainSlots, if_neg (show headerSize ≠ 0 by decide), read]
  simp only [Option.bind_some, next, Option.getD_some]
  rw [Link.mainSlots_eq (writable_linkOf 0) chained.first held]
  congr 1
  cases empty : (linkOf fields thumbnail 1).isEmpty with
  | true => rw [chained.last empty, if_pos rfl, Link.slots_of_isEmpty empty]
  | false =>
      obtain ⟨found, -, behind⟩ := chained.next empty
      obtain ⟨laterEntries, _, laterRead, laterHeld, -⟩ := found.main.entriesAt_eq (by decide)
      have there : second ≠ 0 := by
        rw [headerSize] at behind
        omega
      rw [if_neg there, laterRead, Link.mainSlots_eq (writable_linkOf 1) found laterHeld]

theorem Chained.map_thumbnailPointers :
    ((linkOf fields thumbnail 1).thumbnailPointers order later.thumbnail).map
      (Item.slot order 1 .main) = thumbnailSlots thumbnail later.thumbnail := by
  cases held : thumbnail with
  | none => rfl
  | some bytes =>
      subst held
      obtain ⟨-, bound, small⟩ := chained.thumbnail_stands rfl
      refine Link.map_thumbnailPointers bound fun other same => ?_
      obtain rfl := Option.some.inj same
      exact small

end

theorem chain_of_mem_slots {link : Link} {chain : Nat}
    (writable : ∀ field ∈ link.fields, isWritable field = true) {slot : Slot}
    (member : slot ∈ link.slots order chain places) : slot.chain = chain := by
  have listed := ((Link.sameRuns_slots writable).mem_iff slot).mp member
  simp only [Link.slotsIn, List.mem_append, List.mem_map] at listed
  rcases listed with ((⟨_, _, rfl⟩ | ⟨_, _, rfl⟩ | ⟨_, _, rfl⟩) | ⟨_, _, rfl⟩) | ⟨_, _, rfl⟩ <;> rfl

theorem sameRuns_keptFields (offset : Nat) : SameRuns Field.place
    (((linkOf fields thumbnail 0).fields ++ (linkOf fields thumbnail 1).fields ++
      thumbnailFields thumbnail offset).filter fun field => field.chain = 0 || thumbnail.isSome)
    (keptFields fields thumbnail ++ thumbnailFields thumbnail offset) := by
  have first : (linkOf fields thumbnail 0).fields.filter (fun field =>
      field.chain = 0 || thumbnail.isSome) =
        (keptFields fields thumbnail).filter fun field => field.chain = 0 := by
    rw [linkOf, keptFields, List.filter_filter, List.filter_filter]
    refine List.filter_congr fun field _ => ?_
    by_cases zero : field.chain = 0 <;> simp [zero]
  have next : (linkOf fields thumbnail 1).fields.filter (fun field =>
      field.chain = 0 || thumbnail.isSome) =
        (keptFields fields thumbnail).filter fun field => !decide (field.chain = 0) := by
    rw [linkOf, keptFields, List.filter_filter, List.filter_filter]
    refine List.filter_congr fun field _ => ?_
    by_cases one : field.chain = 1
    · simp [one, Bool.and_comm]
    · by_cases zero : field.chain = 0 <;> simp [zero, one]
  have numbers : (thumbnailFields thumbnail offset).filter (fun field =>
      field.chain = 0 || thumbnail.isSome) = thumbnailFields thumbnail offset := by
    cases thumbnail <;> simp [thumbnailFields]
  rw [List.filter_append, List.filter_append, first, next, numbers]
  exact (SameRuns.partition (fun place : Nat × Directory × Nat => decide (place.1 = 0)) _).append
    (.refl _ _)

/-- The slots of a link with a number of the thumbnail are those that the layout writes itself. -/
theorem filter_slots_second {link : Link} (writable : ∀ field ∈ link.fields, isWritable field = true)
    (order : ByteOrder) (places : Places) {id : Nat}
    (number : id = thumbnailOffset ∨ id = thumbnailLength) :
    (link.slots order 1 places).filter (fun slot =>
        slot.directory = .main ∧ slot.chain = 1 ∧ slot.id = id) =
      ((link.thumbnailPointers order places.thumbnail).map (Item.slot order 1 .main)).filter
        fun slot => slot.directory = .main ∧ slot.chain = 1 ∧ slot.id = id := by
  have atPlace (slots : List Slot) : slots.filter (fun slot =>
      slot.directory = .main ∧ slot.chain = 1 ∧ slot.id = id) =
        slots.filter (·.place = (1, .main, id)) := by
    refine List.filter_congr fun slot _ => ?_
    simp [Slot.place, and_left_comm]
  have elsewhere {directory : Directory} (other : directory ≠ .main) :
      (link.slotsIn order 1 directory).filter (·.place = (1, .main, id)) = [] := by
    refine List.filter_eq_nil_iff.mpr fun slot member => ?_
    obtain ⟨item, -, rfl⟩ := List.mem_map.mp member
    simp [Item.slot, Slot.place, other]
  have own : (link.slotsIn order 1 .main).filter (·.place = (1, .main, id)) = [] := by
    refine List.filter_eq_nil_iff.mpr fun slot member => ?_
    obtain ⟨item, listed, rfl⟩ := List.mem_map.mp member
    have noLayout := Link.not_mem_layoutIds writable listed
    have other : item.id ≠ id := by
      rintro rfl
      rcases number with same | same <;> rw [same] at noLayout <;> exact noLayout (by decide)
    simp [Item.slot, Slot.place, other]
  rw [atPlace, atPlace, Link.sameRuns_slots writable]
  simp only [List.filter_append, own, elsewhere (show Directory.exif ≠ .main by decide),
    elsewhere (show Directory.gps ≠ .main by decide),
    elsewhere (show Directory.interop ≠ .main by decide), List.nil_append]

theorem filter_slots_first {id : Nat} :
    ((linkOf fields thumbnail 0).slots order 0 places).filter (fun slot =>
      slot.directory = .main ∧ slot.chain = 1 ∧ slot.id = id) = [] := by
  refine List.filter_eq_nil_iff.mpr fun slot member => ?_
  simp [chain_of_mem_slots (writable_linkOf 0) member]

section

variable (chained : Chained order block fields thumbnail second places later)

include chained

theorem Chained.secondNumber?_eq {id : Nat} (number : id = thumbnailOffset ∨ id = thumbnailLength) :
    secondNumber? (chainSlots order block headerSize) id =
      secondNumber? (thumbnailSlots thumbnail later.thumbnail) id := by
  have writable : ∀ field ∈ (linkOf fields thumbnail 1).fields, isWritable field = true :=
    writable_linkOf 1
  have second := filter_slots_second writable order later number
  rw [chained.map_thumbnailPointers] at second
  rw [secondNumber?, secondNumber?, chained.chainSlots_eq, List.filter_append, filter_slots_first,
    List.nil_append, second]

theorem Chained.thumbnailIn?_eq (filled : thumbnail ≠ some []) :
    thumbnailIn? block (secondNumber? (chainSlots order block headerSize) thumbnailOffset)
      (secondNumber? (chainSlots order block headerSize) thumbnailLength) = thumbnail := by
  rw [chained.secondNumber?_eq (.inl rfl), chained.secondNumber?_eq (.inr rfl)]
  cases held : thumbnail with
  | none => rfl
  | some bytes =>
      have nonempty : bytes.length ≠ 0 := by
        rintro nothing
        rw [held, List.length_eq_zero_iff.mp nothing] at filled
        exact filled rfl
      obtain ⟨stands, -⟩ := chained.thumbnail_stands held
      change (if bytes.length = 0 then none else slice? block later.thumbnail bytes.length) = some bytes
      rw [if_neg nonempty, stands.slice?_eq]

theorem Chained.sameRuns_fields (stored : ∀ field ∈ fields, field.Stored) : SameRuns Field.place
    ((chainSlots order block headerSize).filterMap Slot.field?)
    ((linkOf fields thumbnail 0).fields ++ (linkOf fields thumbnail 1).fields ++
      thumbnailFields thumbnail later.thumbnail) := by
  have own (chain : Nat) (at' : Places) : SameRuns Field.place
      (((linkOf fields thumbnail chain).slots order chain at').filterMap Slot.field?)
      ((linkOf fields thumbnail chain).fields ++
        (((linkOf fields thumbnail chain).thumbnailPointers order at'.thumbnail).map
          (Item.slot order chain .main)).filterMap Slot.field?) := by
    refine ((Link.sameRuns_slots (writable_linkOf chain)).filterMap fun place =>
      ⟨place, fun slot field made same => (Slot.place_of_field? made).symm.trans same⟩).trans ?_
    simp only [List.filterMap_append,
      Link.filterMap_slotsIn (stored_linkOf stored thumbnail chain) (chain_linkOf chain)]
    exact (sameRuns_directories _).append (.refl _ _)
  have numbers : (thumbnailSlots thumbnail later.thumbnail).filterMap Slot.field? =
      thumbnailFields thumbnail later.thumbnail := by
    unfold thumbnailSlots thumbnailFields
    cases thumbnail <;> rfl
  have first := own 0 places
  have next := own 1 later
  rw [Link.thumbnailPointers, thumbnail_linkOf_first, List.map_nil, List.filterMap_nil,
    List.append_nil] at first
  rw [chained.map_thumbnailPointers, numbers] at next
  rw [chained.chainSlots_eq, List.filterMap_append, List.append_assoc]
  exact first.append next

/-- What is kept of a written block are the fields that the layout takes over and the thumbnail. -/
theorem Chained.ofBlock_eq (stored : ∀ field ∈ fields, field.Stored) (filled : thumbnail ≠ some []) :
    ∃ kept, Content.ofBlock block = ⟨order, kept, thumbnail⟩ ∧ SameRuns Field.place kept
      (keptFields fields thumbnail ++ thumbnailFields thumbnail later.thumbnail) := by
  refine ⟨((chainSlots order block headerSize).filterMap Slot.field?).filter fun field =>
    field.chain = 0 || thumbnail.isSome, ?_, ?_⟩
  · simp only [Content.ofBlock, chained.header, chained.thumbnailIn?_eq filled]
  · exact ((chained.sameRuns_fields stored).filter _).trans (sameRuns_keptFields _)

end

end

theorem ofBlock_sound {order : ByteOrder} {block : Bytes} {fields : List Field}
    (sound : ∀ field ∈ fields, field.Sound) (encoded : blockBytes? order fields none = some block)
    (short : block.length < 65536) :
    ∃ kept, Content.ofBlock block = ⟨order, kept, none⟩ ∧ kept.Perm fields := by
  have stored : ∀ field ∈ fields, field.Stored := fun field member => (sound field member).stored
  obtain ⟨second, places, later, chained⟩ := chained_of_blockBytes? stored encoded short
  obtain ⟨kept, content, same⟩ := chained.ofBlock_eq stored (by simp)
  have all : keptFields fields none = fields := by
    refine List.filter_eq_self.mpr fun field member => ?_
    simp [(sound field member).chain, (sound field member).writable]
  rw [all, thumbnailFields, List.append_nil] at same
  exact ⟨kept, content, same.perm⟩

section

variable {order : ByteOrder} {fields : List Field}

theorem id_of_mem_itemsIn (sound : ∀ field ∈ fields, field.Sound) {directory : Directory}
    {item : Item} (member : item ∈ itemsIn order directory fields) :
    0 < item.id ∧ isPointerId item.id = false ∧ item.id ≠ interopPointer := by
  obtain ⟨field, listed, -, rfl⟩ := mem_itemsIn.mp member
  have fieldSound := sound field listed
  exact ⟨fieldSound.id.1, fieldSound.noPointer, fieldSound.noInterop.2⟩

end

end PhotoTags.Tiff

import Mathlib.Data.List.TakeWhile
import PhotoTags.Proofs.Tiff.Kept

/-!
The walk over a written block. It visits each field that the block was written with and the pointers
between the three directories, and nothing else; no directory is entered twice, since the two
pointers lead to different places.
-/

namespace PhotoTags.Tiff

def Item.outcome (order : ByteOrder) (zone : Option (List Char)) (item : Item) : Outcome :=
  match Datum.ofValue? order zone item.id item.type item.count item.bytes with
  | some datum => .datum datum
  | none => .unreadable

def Outcome.target? : Outcome → Option Nat
  | .directory offset => some offset
  | _ => none

theorem Item.target?_outcome (order : ByteOrder) (zone : Option (List Char)) (item : Item) :
    (item.outcome order zone).target? = none := by
  unfold Item.outcome
  split <;> rfl

def Item.visit (order : ByteOrder) (zone : Option (List Char)) (chain : Nat) (item : Item) : Visit :=
  ⟨chain, item.id, item.outcome order zone⟩

section

variable {order : ByteOrder} {block : Bytes}

theorem Item.HeldBy.outcome_eq {item : Item} {entry : Entry} (held : item.HeldBy order block entry)
    (leaf : isPointerId item.id = false) (zone : Option (List Char)) :
    Tiff.outcome order block zone entry = item.outcome order zone := by
  rw [Tiff.outcome, held.typeCode, ofCode?_code]
  simp only [held.bytes, held.id, held.count, leaf, Bool.false_and, Bool.false_eq_true, if_false]
  rfl

theorem Item.HeldBy.offset_eq {id offset : Nat} {entry : Entry} (bound : offset < 65536)
    (held : (Item.pointer order id offset).HeldBy order block entry) :
    entry.offset order = offset := by
  have bytes : entry.valueBytes? order block .long = some (order.encode 4 offset) := held.bytes
  have count : entry.count = 1 := held.count
  have whole : entry.field.take 4 = entry.field := List.take_of_length_le (Nat.le_of_eq held.field)
  rw [Entry.valueBytes?, count, if_pos (show FieldType.long.size * 1 ≤ 4 by decide),
    show FieldType.long.size * 1 = 4 from rfl, whole] at bytes
  rw [Entry.offset, Option.some.inj bytes]
  exact order.decode_encode 4 offset (Nat.lt_trans bound (by decide))

theorem DirectoryAt.fitsAt {offset next : Nat} {items : List Item}
    (found : DirectoryAt order block offset next items) : fitsAt order block offset = true := by
  obtain ⟨entries, rest, whole, -⟩ := found
  exact (wholeAt?_eq_some_iff.mp whole).1

theorem Item.HeldBy.outcome_pointer {id offset next : Nat} {items : List Item} {entry : Entry}
    (bound : offset < 65536) (held : (Item.pointer order id offset).HeldBy order block entry)
    (leads : isPointerId id = true) (found : DirectoryAt order block offset next items)
    (zone : Option (List Char)) : Tiff.outcome order block zone entry = .directory offset := by
  have type : entry.typeCode = FieldType.long.code := held.typeCode
  have bytes : entry.valueBytes? order block .long = some (order.encode 4 offset) := held.bytes
  have same : entry.id = id := held.id
  rw [Tiff.outcome, type, ofCode?_code]
  simp only [bytes, same, leads, held.offset_eq bound, found.fitsAt, Bool.and_self, if_true]

theorem nextOffset?_eq_none {rest : Bytes} (last : Stands rest 0 (order.encode 4 0)) :
    nextOffset? order block rest = none := by
  unfold nextOffset?
  split
  · rfl
  · rw [last.number?_eq (by decide)]
    rfl

end

section

variable {order : ByteOrder} {block : Bytes} {zone : Option (List Char)}

def targets (order : ByteOrder) (block : Bytes) (zone : Option (List Char)) (entries : List Entry) :
    List Nat :=
  entries.filterMap fun entry => (outcome order block zone entry).target?

/-- The visits that an entry leads to, where `inside` are those of the directory at an offset. -/
def visitsOf (chain id : Nat) (outcome : Outcome) (inside : Nat → List Visit) : List Visit :=
  ⟨chain, id, outcome⟩ :: (outcome.target?.map inside).getD []

theorem visitsOf_directory (chain id offset : Nat) (inside : Nat → List Visit) :
    visitsOf chain id (.directory offset) inside = ⟨chain, id, .directory offset⟩ :: inside offset :=
  rfl

/-- Entries that lead to different directories, which were not entered before, are all visited, and
each of those directories is entered where its entry stands. Then the walk goes on behind them. -/
theorem walkEntries_append {chain : Nat} {enter : List Nat → Nat → Trace} {next : List Nat → Trace}
    (inside : Nat → List Visit) {front : List Entry} (behind : List Entry) {entered : List Nat}
    (numbered : ∀ entry ∈ front, entry.id ≠ 0)
    (enters : ∀ offset ∈ targets order block zone front, ∀ entered,
      enter entered offset = ⟨inside offset, entered⟩)
    (apart : (targets order block zone front).Nodup)
    (fresh : ∀ offset ∈ targets order block zone front, offset ∉ entered) :
    walkEntries order block zone chain enter next (front ++ behind) entered =
      let others := walkEntries order block zone chain enter next behind
        ((targets order block zone front).reverse ++ entered)
      ⟨(front.flatMap fun entry =>
          visitsOf chain entry.id (outcome order block zone entry) inside) ++ others.visits,
        others.entered⟩ := by
  -- The directories entered so far grow on the way. Those still ahead stay new, since no two entries
  -- lead to the same one.
  induction front generalizing entered with
  | nil => rfl
  | cons entry rest ih =>
      have restNumbered : ∀ entry ∈ rest, entry.id ≠ 0 := fun other member =>
        numbered other (List.mem_cons_of_mem _ member)
      rw [List.cons_append, walkEntries, if_neg (numbered entry (List.mem_cons_self ..)),
        List.flatMap_cons]
      cases found : outcome order block zone entry with
      | directory offset =>
          have split : targets order block zone (entry :: rest) =
              offset :: targets order block zone rest := by
            simp [targets, found, Outcome.target?]
          rw [split] at enters apart fresh ⊢
          obtain ⟨elsewhere, restApart⟩ := List.nodup_cons.mp apart
          have new : offset ∉ entered := fresh offset (List.mem_cons_self ..)
          have here := enters offset (List.mem_cons_self ..) (offset :: entered)
          have stillFresh : ∀ other ∈ targets order block zone rest,
              other ∉ offset :: entered := by
            intro other member
            rw [List.mem_cons, not_or]
            refine ⟨?_, fresh other (List.mem_cons_of_mem _ member)⟩
            rintro rfl
            exact elsewhere member
          have others := ih restNumbered
            (fun other member => enters other (List.mem_cons_of_mem _ member)) restApart stillFresh
          simp [new, here, others, visitsOf, Outcome.target?]
      | datum _ | unreadable =>
          have split : targets order block zone (entry :: rest) = targets order block zone rest := by
            simp [targets, found, Outcome.target?]
          rw [split] at enters apart fresh ⊢
          simp [ih restNumbered enters apart fresh, visitsOf, Outcome.target?]

theorem walkEntries_eq {chain : Nat} {enter : List Nat → Nat → Trace} {next : List Nat → Trace}
    (inside : Nat → List Visit) {entries : List Entry} {entered : List Nat}
    (numbered : ∀ entry ∈ entries, entry.id ≠ 0)
    (enters : ∀ offset ∈ targets order block zone entries, ∀ entered,
      enter entered offset = ⟨inside offset, entered⟩)
    (apart : (targets order block zone entries).Nodup)
    (fresh : ∀ offset ∈ targets order block zone entries, offset ∉ entered) :
    walkEntries order block zone chain enter next entries entered =
      let others := next ((targets order block zone entries).reverse ++ entered)
      ⟨(entries.flatMap fun entry =>
          visitsOf chain entry.id (outcome order block zone entry) inside) ++ others.visits,
        others.entered⟩ := by
  have all : walkEntries order block zone chain enter next (entries ++ []) entered = _ :=
    walkEntries_append inside [] numbered enters apart fresh
  rwa [List.append_nil] at all

theorem exists_of_mem_forall₂ {items : List Item} {entries : List Entry}
    (held : List.Forall₂ (Item.HeldBy order block) items entries) {entry : Entry}
    (member : entry ∈ entries) : ∃ item ∈ items, item.HeldBy order block entry := by
  induction held with
  | nil => simp at member
  | cons first _ ih =>
      rcases List.mem_cons.mp member with rfl | later
      · exact ⟨_, List.mem_cons_self .., first⟩
      · obtain ⟨item, listed, itemHeld⟩ := ih later
        exact ⟨item, List.mem_cons_of_mem _ listed, itemHeld⟩

theorem numbered_of_forall₂ {items : List Item} {entries : List Entry}
    (held : List.Forall₂ (Item.HeldBy order block) items entries)
    (numbered : ∀ item ∈ items, item.id ≠ 0) : ∀ entry ∈ entries, entry.id ≠ 0 := by
  intro entry member
  obtain ⟨item, listed, itemHeld⟩ := exists_of_mem_forall₂ held member
  rw [itemHeld.id]
  exact numbered item listed

theorem targets_eq {items : List Item} {entries : List Entry} {meant : Item → Outcome}
    (held : List.Forall₂ (Item.HeldBy order block) items entries)
    (same : ∀ item ∈ items, ∀ entry, item.HeldBy order block entry →
      outcome order block zone entry = meant item) :
    targets order block zone entries = items.filterMap fun item => (meant item).target? := by
  rw [targets, List.filterMap_eq_flatMap_toList, List.filterMap_eq_flatMap_toList]
  refine flatMap_eq_of_forall₂ held fun item member entry held => ?_
  rw [same item member entry held]

theorem visits_eq {items : List Item} {entries : List Entry} {meant : Item → Outcome}
    (held : List.Forall₂ (Item.HeldBy order block) items entries)
    (same : ∀ item ∈ items, ∀ entry, item.HeldBy order block entry →
      outcome order block zone entry = meant item) (chain : Nat) (inside : Nat → List Visit) :
    (entries.flatMap fun entry => visitsOf chain entry.id (outcome order block zone entry) inside) =
      items.flatMap fun item => visitsOf chain item.id (meant item) inside := by
  refine flatMap_eq_of_forall₂ held fun item member entry held => ?_
  rw [same item member entry held, held.id]

def walkNext (order : ByteOrder) (block : Bytes) (zone : Option (List Char)) (fuel chain : Nat)
    (rest : Bytes) (entered : List Nat) : Trace :=
  match nextOffset? order block rest with
  | none => ⟨[], entered⟩
  | some offset =>
      if entered.contains offset then ⟨[], entered⟩
      else walkAt order block zone fuel (chain + 1) (offset :: entered) offset

theorem walkAt_eq {offset : Nat} {entries : List Entry} {rest : Bytes}
    (whole : wholeAt? order block offset = some (entries, rest)) (fuel chain : Nat)
    (entered : List Nat) :
    walkAt order block zone (fuel + 1) chain entered offset =
      walkEntries order block zone chain (walkAt order block zone fuel chain)
        (walkNext order block zone fuel chain rest) entries entered := by
  rw [walkAt, whole]
  rfl

theorem walkNext_last {rest : Bytes} (last : Stands rest 0 (order.encode 4 0)) (fuel chain : Nat)
    (entered : List Nat) : walkNext order block zone fuel chain rest entered = ⟨[], entered⟩ := by
  rw [walkNext, nextOffset?_eq_none last]

/-- A directory without pointers is walked up to the first item with the number 0. -/
theorem walkAt_flat {offset : Nat} {items : List Item}
    (found : DirectoryAt order block offset 0 items)
    (flat : ∀ item ∈ items, isPointerId item.id = false) (fuel chain : Nat) (entered : List Nat) :
    walkAt order block zone (fuel + 1) chain entered offset =
      ⟨(items.takeWhile (·.id != 0)).map (Item.visit order zone chain), entered⟩ := by
  obtain ⟨entries, rest, whole, held, next⟩ := found
  rw [walkAt_eq whole]
  clear whole
  induction held with
  | nil => exact walkNext_last next fuel chain entered
  | @cons item entry items entries first _ ih =>
      have others := ih fun other member => flat other (List.mem_cons_of_mem _ member)
      have same := first.outcome_eq (flat item (List.mem_cons_self ..)) zone
      rw [walkEntries, first.id]
      by_cases zero : item.id = 0
      · simp [zero]
      · rw [if_neg zero, same]
        have leaf := item.target?_outcome order zone
        cases read : item.outcome order zone with
        | directory target => simp [read, Outcome.target?] at leaf
        | datum _ | unreadable => simp [zero, others, Item.visit, read]

def Leaves (items : List Item) : Prop :=
  ∀ item ∈ items, item.id ≠ 0 ∧ isPointerId item.id = false

theorem walkAt_leaves {offset : Nat} {items : List Item}
    (found : DirectoryAt order block offset 0 items) (leaves : Leaves items) (fuel : Nat)
    (entered : List Nat) :
    walkAt order block zone (fuel + 1) 0 entered offset =
      ⟨items.map (Item.visit order zone 0), entered⟩ := by
  have numbered : ∀ item ∈ items, (item.id != 0) = true := fun item member =>
    bne_iff_ne.mpr (leaves item member).1
  rw [walkAt_flat found fun item member => (leaves item member).2,
    List.takeWhile_eq_self_iff.mpr numbered]

theorem listing_leaves (zone : Option (List Char)) {offset next : Nat} {items : List Item}
    (found : DirectoryAt order block offset next items) (leaves : Leaves items) :
    ∃ entries rest, wholeAt? order block offset = some (entries, rest) ∧
      listing order block zone entries =
        items.map fun item => (item.id, item.outcome order zone) := by
  obtain ⟨entries, rest, whole, held, -⟩ := found
  refine ⟨entries, rest, whole, ?_⟩
  have numbered : ∀ entry ∈ entries, (entry.id != 0) = true := fun entry member =>
    bne_iff_ne.mpr (numbered_of_forall₂ held (fun item listed => (leaves item listed).1) entry member)
  rw [listing, List.takeWhile_eq_self_iff.mpr numbered, List.map_eq_flatMap, List.map_eq_flatMap]
  refine flatMap_eq_of_forall₂ held fun item member entry held => ?_
  rw [held.outcome_eq (leaves item member).2, held.id]

end

def mainOutcome (order : ByteOrder) (zone : Option (List Char)) (exifAt gpsAt : Nat) (item : Item) :
    Outcome :=
  if item.id = exifPointer then .directory exifAt
  else if item.id = gpsPointer then .directory gpsAt
  else item.outcome order zone

theorem filterMap_pointerTo {order : ByteOrder} {id offset target : Nat} {items : List Item}
    {meant : Item → Outcome} (leads : meant (Item.pointer order id offset) = .directory target) :
    (pointerTo order id offset items).filterMap (fun item => (meant item).target?) =
      if items = [] then [] else [target] := by
  cases items with
  | nil => rfl
  | cons item rest => simp [pointerTo, leads, Outcome.target?]

theorem mainOutcome_own {item : Item} (flat : isPointerId item.id = false) (order : ByteOrder)
    (zone : Option (List Char)) (exifAt gpsAt : Nat) :
    mainOutcome order zone exifAt gpsAt item = item.outcome order zone := by
  obtain ⟨notExif, notGps⟩ := isPointerId_eq_false_iff.mp flat
  rw [mainOutcome, if_neg notExif, if_neg notGps]

theorem mainOutcome_exif (order : ByteOrder) (zone : Option (List Char)) (exifAt gpsAt offset : Nat) :
    mainOutcome order zone exifAt gpsAt (Item.pointer order exifPointer offset) =
      .directory exifAt :=
  if_pos rfl

theorem mainOutcome_gps (order : ByteOrder) (zone : Option (List Char)) (exifAt gpsAt offset : Nat) :
    mainOutcome order zone exifAt gpsAt (Item.pointer order gpsPointer offset) =
      .directory gpsAt :=
  (if_neg exifPointer_ne_gpsPointer.symm).trans (if_pos rfl)

structure Branching (order : ByteOrder) (block : Bytes) (items own exif gps : List Item)
    (exifAt gpsAt : Nat) : Prop where
  split : items.Perm (own ++ pointerTo order exifPointer exifAt exif ++
    pointerTo order gpsPointer gpsAt gps)
  exifThere : exif ≠ [] → DirectoryAt order block exifAt 0 (Item.sorted exif)
  gpsThere : gps ≠ [] → DirectoryAt order block gpsAt 0 (Item.sorted gps)
  ownFlat : ∀ item ∈ own, isPointerId item.id = false
  exifFlat : ∀ item ∈ exif, isPointerId item.id = false
  gpsFlat : ∀ item ∈ gps, isPointerId item.id = false
  apart : exif ≠ [] → exifAt ≠ gpsAt
  bounds : exifAt < 65536 ∧ gpsAt < 65536

namespace Branching

variable {order : ByteOrder} {block : Bytes} {items own exif gps : List Item} {exifAt gpsAt : Nat}
  (branching : Branching order block items own exif gps exifAt gpsAt)

include branching

theorem mem_iff {item : Item} :
    item ∈ items ↔ item ∈ own ∨ (exif ≠ [] ∧ item = Item.pointer order exifPointer exifAt) ∨
      (gps ≠ [] ∧ item = Item.pointer order gpsPointer gpsAt) := by
  rw [branching.split.mem_iff]
  simp only [List.mem_append, mem_pointerTo, or_assoc]

theorem outcome_eq (zone : Option (List Char)) :
    ∀ item ∈ items, ∀ entry, item.HeldBy order block entry →
      outcome order block zone entry = mainOutcome order zone exifAt gpsAt item := by
  intro item member entry held
  rcases branching.mem_iff.mp member with listed | ⟨filled, rfl⟩ | ⟨filled, rfl⟩
  · have flat := branching.ownFlat item listed
    rw [mainOutcome_own flat, held.outcome_eq flat]
  · rw [mainOutcome_exif]
    exact held.outcome_pointer branching.bounds.1 rfl (branching.exifThere filled) zone
  · rw [mainOutcome_gps]
    exact held.outcome_pointer branching.bounds.2 rfl (branching.gpsThere filled) zone

theorem perm_targets (zone : Option (List Char)) :
    (items.filterMap fun item => (mainOutcome order zone exifAt gpsAt item).target?).Perm
      ((if exif = [] then [] else [exifAt]) ++ if gps = [] then [] else [gpsAt]) := by
  refine (branching.split.filterMap _).trans ?_
  have none : own.filterMap (fun item => (mainOutcome order zone exifAt gpsAt item).target?) = [] := by
    refine List.filterMap_eq_nil_iff.mpr fun item member => ?_
    rw [mainOutcome_own (branching.ownFlat item member), Item.target?_outcome]
  rw [List.filterMap_append, List.filterMap_append, none, List.nil_append]
  rw [filterMap_pointerTo (mainOutcome_exif order zone exifAt gpsAt exifAt),
    filterMap_pointerTo (mainOutcome_gps order zone exifAt gpsAt gpsAt)]

theorem mem_targets (zone : Option (List Char)) {offset : Nat} :
    offset ∈ (items.filterMap fun item => (mainOutcome order zone exifAt gpsAt item).target?) ↔
      (exif ≠ [] ∧ offset = exifAt) ∨ (gps ≠ [] ∧ offset = gpsAt) := by
  rw [(branching.perm_targets zone).mem_iff, List.mem_append]
  by_cases noExif : exif = [] <;> by_cases noGps : gps = [] <;> simp [noExif, noGps]

theorem nodup_targets (zone : Option (List Char)) :
    (items.filterMap fun item => (mainOutcome order zone exifAt gpsAt item).target?).Nodup := by
  refine (branching.perm_targets zone).nodup_iff.mpr ?_
  by_cases noExif : exif = []
  · by_cases noGps : gps = [] <;> simp [noExif, noGps]
  · by_cases noGps : gps = [] <;> simp [noExif, noGps, branching.apart noExif]

theorem walkAt_exif (filled : exif ≠ []) (zone : Option (List Char)) (fuel chain : Nat)
    (entered : List Nat) : walkAt order block zone (fuel + 1) chain entered exifAt =
      ⟨((Item.sorted exif).takeWhile (·.id != 0)).map (Item.visit order zone chain), entered⟩ :=
  walkAt_flat (branching.exifThere filled)
    (fun item member => branching.exifFlat item ((Item.perm_sorted _).mem_iff.mp member)) ..

theorem walkAt_gps (filled : gps ≠ []) (zone : Option (List Char)) (fuel chain : Nat)
    (entered : List Nat) : walkAt order block zone (fuel + 1) chain entered gpsAt =
      ⟨((Item.sorted gps).takeWhile (·.id != 0)).map (Item.visit order zone chain), entered⟩ :=
  walkAt_flat (branching.gpsThere filled)
    (fun item member => branching.gpsFlat item ((Item.perm_sorted _).mem_iff.mp member)) ..

theorem chain_of_mem_visits (zone : Option (List Char)) (fuel chain : Nat) {visit : Visit}
    (member : visit ∈ items.flatMap fun item =>
      visitsOf chain item.id (mainOutcome order zone exifAt gpsAt item) fun offset =>
        (walkAt order block zone (fuel + 1) chain [] offset).visits) : visit.chain = chain := by
  obtain ⟨item, listed, visited⟩ := List.mem_flatMap.mp member
  rcases branching.mem_iff.mp listed with own | ⟨filled, rfl⟩ | ⟨filled, rfl⟩
  · rw [mainOutcome_own (branching.ownFlat item own), visitsOf, Item.target?_outcome] at visited
    rw [List.mem_singleton.mp visited]
  · rw [mainOutcome_exif, visitsOf_directory, branching.walkAt_exif filled] at visited
    rcases List.mem_cons.mp visited with rfl | inside
    · rfl
    · obtain ⟨_, -, rfl⟩ := List.mem_map.mp inside
      rfl
  · rw [mainOutcome_gps, visitsOf_directory, branching.walkAt_gps filled] at visited
    rcases List.mem_cons.mp visited with rfl | inside
    · rfl
    · obtain ⟨_, -, rfl⟩ := List.mem_map.mp inside
      rfl

/-- A main directory none of whose items has the number 0 is walked with the two directories that
hang from it, and then the next one of the chain. -/
theorem walkAt_main {start next : Nat} (found : DirectoryAt order block start next items)
    (numbered : ∀ item ∈ items, item.id ≠ 0) (zone : Option (List Char)) (fuel chain : Nat) :
    ∃ rest entered, (∃ entries, wholeAt? order block start = some (entries, rest) ∧
        entries.length = items.length) ∧ Stands rest 0 (order.encode 4 next) ∧
      (∀ offset ∈ entered, (exif ≠ [] ∧ offset = exifAt) ∨ (gps ≠ [] ∧ offset = gpsAt)) ∧
      (walkAt order block zone (fuel + 2) chain [] start).visits =
        (items.flatMap fun item =>
          visitsOf chain item.id (mainOutcome order zone exifAt gpsAt item) fun offset =>
            (walkAt order block zone (fuel + 1) chain [] offset).visits) ++
          (walkNext order block zone (fuel + 1) chain rest entered).visits := by
  obtain ⟨entries, rest, whole, held, stands⟩ := found
  have same := branching.outcome_eq zone
  have targetsAre := targets_eq held same
  have enters : ∀ offset ∈ targets order block zone entries, ∀ entered,
      walkAt order block zone (fuel + 1) chain entered offset =
        ⟨(walkAt order block zone (fuel + 1) chain [] offset).visits, entered⟩ := by
    intro offset member entered
    rw [targetsAre, branching.mem_targets] at member
    rcases member with ⟨filled, rfl⟩ | ⟨filled, rfl⟩
    · rw [branching.walkAt_exif filled, branching.walkAt_exif filled]
    · rw [branching.walkAt_gps filled, branching.walkAt_gps filled]
  have apart : (targets order block zone entries).Nodup := by
    rw [targetsAre]
    exact branching.nodup_targets zone
  refine ⟨rest, (targets order block zone entries).reverse ++ [],
    ⟨entries, whole, held.length_eq.symm⟩, stands, ?_, ?_⟩
  · intro offset member
    rw [List.append_nil, List.mem_reverse, targetsAre] at member
    exact (branching.mem_targets zone).mp member
  · rw [walkAt_eq whole, walkEntries_eq _ (numbered_of_forall₂ held numbered) enters apart (by simp),
      visits_eq held same]

end Branching

section

variable {order : ByteOrder} {block : Bytes} {fields : List Field} {exifAt gpsAt : Nat}

theorem leaves_itemsIn (sound : ∀ field ∈ fields, field.Sound) (directory : Directory) :
    Leaves (Item.sorted (itemsIn order directory fields)) := by
  intro item member
  obtain ⟨numbered, leaf, -⟩ := id_of_mem_itemsIn sound ((Item.perm_sorted _).mem_iff.mp member)
  exact ⟨by omega, leaf⟩

theorem Laid.branching (laid : Laid order block fields exifAt gpsAt)
    (sound : ∀ field ∈ fields, field.Sound) :
    Branching order block (Item.sorted (mainItems order fields exifAt gpsAt))
      (itemsIn order .main fields) (itemsIn order .exif fields) (itemsIn order .gps fields)
      exifAt gpsAt := by
  have flat (directory : Directory) :
      ∀ item ∈ itemsIn order directory fields, isPointerId item.id = false :=
    fun item member => (id_of_mem_itemsIn sound member).2.1
  exact ⟨Item.perm_sorted _, laid.exif, laid.gps, flat .main, flat .exif, flat .gps, laid.apart,
    laid.bounds⟩

theorem visits_walkAt_main (laid : Laid order block fields exifAt gpsAt)
    (sound : ∀ field ∈ fields, field.Sound) (zone : Option (List Char)) (fuel : Nat) :
    (walkAt order block zone (fuel + 2) 0 [] headerSize).visits =
      (Item.sorted (mainItems order fields exifAt gpsAt)).flatMap fun item =>
        visitsOf 0 item.id (mainOutcome order zone exifAt gpsAt item) fun offset =>
          (walkAt order block zone (fuel + 1) 0 [] offset).visits := by
  have branching := laid.branching sound
  have numbered : ∀ item ∈ Item.sorted (mainItems order fields exifAt gpsAt), item.id ≠ 0 := by
    intro item listed
    rcases branching.mem_iff.mp listed with own | ⟨-, rfl⟩ | ⟨-, rfl⟩
    · exact Nat.ne_of_gt (id_of_mem_itemsIn sound own).1
    · exact (by decide : exifPointer ≠ 0)
    · exact (by decide : gpsPointer ≠ 0)
  obtain ⟨rest, entered, -, last, -, visits⟩ := branching.walkAt_main laid.main numbered zone fuel 0
  rw [visits, walkNext_last last]
  exact List.append_nil _

theorem visitsOf_own (sound : ∀ field ∈ fields, field.Sound) (zone : Option (List Char))
    {item : Item} (own : item ∈ itemsIn order .main fields) (inside : Nat → List Visit) :
    visitsOf 0 item.id (mainOutcome order zone exifAt gpsAt item) inside =
      [item.visit order zone 0] := by
  rw [mainOutcome_own (id_of_mem_itemsIn sound own).2.1, visitsOf, Item.target?_outcome]
  rfl

theorem mem_map_visit {zone : Option (List Char)} {directory : Directory} {visit : Visit} :
    visit ∈ (Item.sorted (itemsIn order directory fields)).map (Item.visit order zone 0) ↔
      ∃ field ∈ fields, field.directory = directory ∧
        visit = (Item.ofField order field).visit order zone 0 := by
  simp only [List.mem_map, (Item.perm_sorted _).mem_iff, mem_itemsIn]
  constructor
  · rintro ⟨_, ⟨field, member, place, rfl⟩, rfl⟩
    exact ⟨field, member, place, rfl⟩
  · rintro ⟨field, member, place, rfl⟩
    exact ⟨_, ⟨field, member, place, rfl⟩, rfl⟩

theorem itemsIn_ne_nil {directory : Directory} {field : Field} (member : field ∈ fields)
    (place : field.directory = directory) : itemsIn order directory fields ≠ [] :=
  List.ne_nil_of_mem (mem_itemsIn.mpr ⟨field, member, place, rfl⟩)

/-- A walk visits the fields of a written block and the pointers to the directories that it has. -/
theorem mem_visits_walkAt_main (laid : Laid order block fields exifAt gpsAt)
    (sound : ∀ field ∈ fields, field.Sound) (zone : Option (List Char)) (fuel : Nat)
    (visit : Visit) :
    visit ∈ (walkAt order block zone (fuel + 2) 0 [] headerSize).visits ↔
      (∃ field ∈ fields, visit = (Item.ofField order field).visit order zone 0) ∨
      (itemsIn order .exif fields ≠ [] ∧ visit = ⟨0, exifPointer, .directory exifAt⟩) ∨
      (itemsIn order .gps fields ≠ [] ∧ visit = ⟨0, gpsPointer, .directory gpsAt⟩) := by
  have inExif (filled : itemsIn order .exif fields ≠ []) :
      (walkAt order block zone (fuel + 1) 0 [] exifAt).visits = _ :=
    congrArg Trace.visits (walkAt_leaves (laid.exif filled) (leaves_itemsIn sound .exif) fuel [])
  have inGps (filled : itemsIn order .gps fields ≠ []) :
      (walkAt order block zone (fuel + 1) 0 [] gpsAt).visits = _ :=
    congrArg Trace.visits (walkAt_leaves (laid.gps filled) (leaves_itemsIn sound .gps) fuel [])
  rw [visits_walkAt_main laid sound, List.mem_flatMap]
  constructor
  · rintro ⟨item, member, visited⟩
    rcases (laid.branching sound).mem_iff.mp member with own | ⟨filled, rfl⟩ | ⟨filled, rfl⟩
    · rw [visitsOf_own sound zone own, List.mem_singleton] at visited
      obtain ⟨field, listed, -, rfl⟩ := mem_itemsIn.mp own
      exact .inl ⟨field, listed, visited⟩
    · rw [mainOutcome_exif, id_pointer, visitsOf_directory, inExif filled] at visited
      rcases List.mem_cons.mp visited with pointer | inside
      · exact .inr (.inl ⟨filled, pointer⟩)
      · obtain ⟨field, listed, -, same⟩ := mem_map_visit.mp inside
        exact .inl ⟨field, listed, same⟩
    · rw [mainOutcome_gps, id_pointer, visitsOf_directory, inGps filled] at visited
      rcases List.mem_cons.mp visited with pointer | inside
      · exact .inr (.inr ⟨filled, pointer⟩)
      · obtain ⟨field, listed, -, same⟩ := mem_map_visit.mp inside
        exact .inl ⟨field, listed, same⟩
  · have exifListed (filled : itemsIn order .exif fields ≠ []) :
        Item.pointer order exifPointer exifAt ∈ Item.sorted (mainItems order fields exifAt gpsAt) :=
      (laid.branching sound).mem_iff.mpr (.inr (.inl ⟨filled, rfl⟩))
    have gpsListed (filled : itemsIn order .gps fields ≠ []) :
        Item.pointer order gpsPointer gpsAt ∈ Item.sorted (mainItems order fields exifAt gpsAt) :=
      (laid.branching sound).mem_iff.mpr (.inr (.inr ⟨filled, rfl⟩))
    rintro (⟨field, member, rfl⟩ | ⟨filled, rfl⟩ | ⟨filled, rfl⟩)
    · cases place : field.directory with
      | main =>
          have own : Item.ofField order field ∈ itemsIn order .main fields :=
            mem_itemsIn.mpr ⟨field, member, place, rfl⟩
          refine ⟨_, (laid.branching sound).mem_iff.mpr (.inl own), ?_⟩
          rw [visitsOf_own sound zone own]
          exact List.mem_singleton_self _
      | exif =>
          have filled : itemsIn order .exif fields ≠ [] := itemsIn_ne_nil member place
          refine ⟨_, exifListed filled, ?_⟩
          rw [mainOutcome_exif, visitsOf_directory, inExif filled]
          exact List.mem_cons_of_mem _ (mem_map_visit.mpr ⟨field, member, place, rfl⟩)
      | gps =>
          have filled : itemsIn order .gps fields ≠ [] := itemsIn_ne_nil member place
          refine ⟨_, gpsListed filled, ?_⟩
          rw [mainOutcome_gps, visitsOf_directory, inGps filled]
          exact List.mem_cons_of_mem _ (mem_map_visit.mpr ⟨field, member, place, rfl⟩)
      | interop => exact absurd place (sound field member).noInterop.1
    · refine ⟨_, exifListed filled, ?_⟩
      rw [mainOutcome_exif]
      exact List.mem_cons_self ..
    · refine ⟨_, gpsListed filled, ?_⟩
      rw [mainOutcome_gps]
      exact List.mem_cons_self ..

end

end PhotoTags.Tiff

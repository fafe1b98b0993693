import Mathlib.Data.List.Forall2
import Mathlib.Data.List.Nodup
import PhotoTags.Proofs.Tiff.Part
import PhotoTags.Tiff.Layout
import PhotoTags.Tiff.Walk

/-!
Directories that were written into a block and are read from it. The entries stand together and long
values elsewhere; wherever both stand, the directory is read back item by item.
-/

namespace PhotoTags.Tiff

structure Item.Whole (item : Item) : Prop where
  id : item.id < 65536
  length : item.bytes.length = item.type.size * item.count

structure Item.Fits (item : Item) : Prop extends item.Whole where
  count : item.count < 4294967296

structure Item.HeldBy (order : ByteOrder) (block : Bytes) (item : Item) (entry : Entry) : Prop where
  id : entry.id = item.id
  typeCode : entry.typeCode = item.type.code
  count : entry.count = item.count
  field : entry.field.length = 4
  bytes : entry.valueBytes? order block item.type = some item.bytes

def DirectoryAt (order : ByteOrder) (block : Bytes) (offset next : Nat) (items : List Item) : Prop :=
  ∃ entries rest, wholeAt? order block offset = some (entries, rest) ∧
    List.Forall₂ (Item.HeldBy order block) items entries ∧ Stands rest 0 (order.encode 4 next)

theorem wholeAt?_eq_some_iff {order : ByteOrder} {block : Bytes} {offset : Nat}
    {entries : List Entry} {rest : Bytes} :
    wholeAt? order block offset = some (entries, rest) ↔
      fitsAt order block offset = true ∧ entriesAt order block offset = (entries, some rest) := by
  unfold wholeAt?
  rcases entriesAt order block offset with ⟨found, _ | behind⟩ <;>
    cases fitsAt order block offset <;> simp

namespace Item

variable (order : ByteOrder)

def head (item : Item) : Bytes :=
  order.encode 2 item.id ++ order.encode 2 item.type.code ++ order.encode 4 item.count

theorem length_head (item : Item) : (item.head order).length = 8 := by
  simp [head, order.length_encode]

def fieldBytes (position : Nat) (item : Item) : Bytes :=
  if item.bytes.length ≤ 4 then item.bytes ++ List.replicate (4 - item.bytes.length) 0
  else order.encode 4 (position + position % 2)

theorem length_fieldBytes (position : Nat) (item : Item) :
    (item.fieldBytes order position).length = 4 := by
  unfold fieldBytes
  split
  · simp
    omega
  · exact order.length_encode 4 _

theorem place_fst (position : Nat) (item : Item) :
    (item.place order position).1 = item.head order ++ item.fieldBytes order position := by
  unfold place fieldBytes head
  split <;> simp

theorem length_place_fst (position : Nat) (item : Item) :
    (item.place order position).1.length = Entry.size := by
  rw [place_fst, List.length_append, length_head, length_fieldBytes, Entry.size]

theorem ofBytes_place {item : Item} (fits : item.Fits) (position : Nat) (rest : Bytes) :
    Entry.ofBytes order ((item.place order position).1 ++ rest) =
      ⟨item.id, item.type.code, item.count, item.fieldBytes order position⟩ := by
  have two (number : Nat) := order.length_encode 2 number
  have four := order.length_encode 4 item.count
  have split : (item.place order position).1 ++ rest = order.encode 2 item.id ++
      (order.encode 2 item.type.code ++
        (order.encode 4 item.count ++ (item.fieldBytes order position ++ rest))) := by
    simp [place_fst, head]
  rw [split]
  generalize behind : order.encode 4 item.count ++ (item.fieldBytes order position ++ rest) = tail
  have behindCode : (order.encode 2 item.id ++ (order.encode 2 item.type.code ++ tail)).drop 4 =
      tail := by
    rw [show 4 = 2 + 2 from rfl, ← List.drop_drop, List.drop_left' (two _), List.drop_left' (two _)]
  have behindCount : (order.encode 2 item.id ++ (order.encode 2 item.type.code ++ tail)).drop 8 =
      item.fieldBytes order position ++ rest := by
    rw [show 8 = 4 + 4 from rfl, ← List.drop_drop, behindCode, ← behind, List.drop_left' four]
  rw [Entry.ofBytes, behindCode, behindCount, List.take_left' (two _), List.drop_left' (two _),
    List.take_left' (two _), ← behind, List.take_left' four,
    List.take_left' (length_fieldBytes order position item), order.decode_encode 2 _ fits.id,
    order.decode_encode 2 _ (code_lt item.type), order.decode_encode 4 _ fits.count]

/-- Wherever the value of a placed item stands, its entry gives the value. -/
theorem heldBy_place {item : Item} (fits : item.Fits) {block : Bytes} {position : Nat}
    (stands : Stands block position (item.place order position).2)
    (bound : position + (item.place order position).2.length < 4294967296) (rest : Bytes) :
    item.HeldBy order block (Entry.ofBytes order ((item.place order position).1 ++ rest)) := by
  rw [ofBytes_place order fits]
  refine ⟨rfl, rfl, rfl, length_fieldBytes order position item, ?_⟩
  unfold Entry.valueBytes?
  rw [← fits.length]
  by_cases short : item.bytes.length ≤ 4
  · simp [short, fieldBytes]
  · rw [place, if_neg short] at stands bound
    have value := (stands_append_iff.mp stands).2
    rw [padding, List.length_replicate] at value
    have at' : position + position % 2 < 4294967296 := by
      simp [padding] at bound
      omega
    simp only [if_neg short, Entry.offset, fieldBytes, order.decode_encode 4 _ at']
    exact value.slice?_eq

theorem placeAll_cons (position : Nat) (item : Item) (rest : List Item) :
    placeAll order position (item :: rest) =
      ((item.place order position).1 ++
          (placeAll order (position + (item.place order position).2.length) rest).1,
        (item.place order position).2 ++
          (placeAll order (position + (item.place order position).2.length) rest).2) :=
  rfl

theorem length_placeAll_fst (position : Nat) (items : List Item) :
    (placeAll order position items).1.length = Entry.size * items.length := by
  induction items generalizing position with
  | nil => rfl
  | cons item rest ih =>
      rw [placeAll_cons, List.length_append, length_place_fst, ih, List.length_cons, Nat.mul_succ,
        Nat.add_comm]

theorem length_bytes_le (position : Nat) (items : List Item) :
    ∀ item ∈ items, item.bytes.length ≤ 4 + (placeAll order position items).2.length := by
  induction items generalizing position with
  | nil => simp
  | cons item rest ih =>
      intro other member
      rw [placeAll_cons, List.length_append]
      rcases List.mem_cons.mp member with rfl | later
      · unfold place
        split
        · omega
        · rw [List.length_append]
          omega
      · have := ih (position + (item.place order position).2.length) other later
        omega

/-- Entries are read back one after another, wherever their long values stand. -/
theorem entriesOf_placeAll {block : Bytes} {items : List Item} (fit : ∀ item ∈ items, item.Fits)
    {position : Nat} (stands : Stands block position (placeAll order position items).2)
    (bound : position + (placeAll order position items).2.length < 4294967296) (rest : Bytes) :
    ∃ entries, entriesOf order items.length ((placeAll order position items).1 ++ rest) =
        (entries, rest) ∧ List.Forall₂ (Item.HeldBy order block) items entries := by
  -- Each item moves the position on by its long value, so both lists of bytes shrink together.
  induction items generalizing position with
  | nil => exact ⟨[], rfl, .nil⟩
  | cons item later ih =>
      rw [placeAll_cons] at stands bound ⊢
      rw [List.length_append] at bound
      obtain ⟨value, values⟩ := stands_append_iff.mp stands
      obtain ⟨entries, read, held⟩ :=
        ih (fun other member => fit other (List.mem_cons_of_mem _ member)) values (by omega)
      have size := length_place_fst order position item
      have first := heldBy_place order (fit item (List.mem_cons_self ..)) value (by omega)
        ((placeAll order (position + (item.place order position).2.length) later).1 ++ rest)
      refine ⟨_ :: entries, ?_, .cons first held⟩
      rw [List.length_cons, entriesOf, List.append_assoc, List.take_left' size, if_pos size,
        List.drop_left' size, read]

theorem perm_insert (item : Item) (items : List Item) : (insert item items).Perm (item :: items) := by
  induction items with
  | nil => exact .refl _
  | cons next rest ih =>
      unfold insert
      split
      · exact .refl _
      · exact (ih.cons next).trans (.swap ..)

theorem perm_sorted (items : List Item) : (sorted items).Perm items := by
  induction items with
  | nil => exact .refl _
  | cons item rest ih => exact (perm_insert item (sorted rest)).trans (ih.cons item)

theorem pairwise_insert {items : List Item} (item : Item)
    (ordered : items.Pairwise (·.id ≤ ·.id)) : (insert item items).Pairwise (·.id ≤ ·.id) := by
  induction items with
  | nil => simp [insert]
  | cons next rest ih =>
      obtain ⟨first, later⟩ := List.pairwise_cons.mp ordered
      unfold insert
      split
      · rename_i before
        refine List.pairwise_cons.mpr ⟨?_, ordered⟩
        intro other member
        rcases List.mem_cons.mp member with rfl | behind
        · exact before
        · exact Nat.le_trans before (first other behind)
      · rename_i behind
        refine List.pairwise_cons.mpr ⟨?_, ih later⟩
        intro other member
        rcases List.mem_cons.mp ((perm_insert item rest).mem_iff.mp member) with rfl | kept
        · omega
        · exact first other kept

theorem pairwise_sorted (items : List Item) : (sorted items).Pairwise (·.id ≤ ·.id) := by
  induction items with
  | nil => exact .nil
  | cons item rest ih => exact pairwise_insert item ih

theorem sorted_eq_of_perm {items ordered : List Item} (perm : items.Perm ordered)
    (increasing : ordered.Pairwise (·.id < ·.id)) : sorted items = ordered := by
  have all := (perm_sorted items).trans perm
  have apart : (ordered.map (·.id)).Nodup :=
    List.pairwise_map.mpr (increasing.imp Nat.ne_of_lt)
  refine List.Perm.eq_of_pairwise ?_ (pairwise_sorted items) (increasing.imp Nat.le_of_lt) all
  intro first second member other before behind
  exact List.inj_on_of_nodup_map apart (all.mem_iff.mp member) other (Nat.le_antisymm before behind)

def Alike (item other : Item) : Prop :=
  item.id = other.id ∧
    ∀ position, (item.place order position).2 = (other.place order position).2

theorem alike_pointer (id number other : Nat) :
    Alike order (pointer order id number) (pointer order id other) := by
  have short (number position : Nat) : ((pointer order id number).place order position).2 = [] := by
    simp [place, pointer, order.length_encode]
  exact ⟨rfl, fun position => by rw [short, short]⟩

variable {order} in
theorem forall₂_insert {item other : Item} {items others : List Item}
    (first : Alike order item other) (alike : List.Forall₂ (Alike order) items others) :
    List.Forall₂ (Alike order) (insert item items) (insert other others) := by
  induction alike with
  | nil => exact .cons first .nil
  | cons next rest ih =>
      rw [insert, insert, first.1, next.1]
      split
      · exact .cons first (.cons next rest)
      · exact .cons next ih

variable {order} in
theorem forall₂_sorted {items others : List Item}
    (alike : List.Forall₂ (Alike order) items others) :
    List.Forall₂ (Alike order) (sorted items) (sorted others) := by
  induction alike with
  | nil => exact .nil
  | cons first _ ih => exact forall₂_insert first ih

variable {order} in
theorem placeAll_snd_eq {items others : List Item}
    (alike : List.Forall₂ (Alike order) items others) (position : Nat) :
    (placeAll order position items).2 = (placeAll order position others).2 := by
  induction alike generalizing position with
  | nil => rfl
  | cons first _ ih => rw [placeAll_cons, placeAll_cons, first.2, ih]

end Item

/-- Long values stand where they do whatever the pointers beside them say. -/
theorem directoryBytes_snd_eq {order : ByteOrder} {items others : List Item}
    (alike : List.Forall₂ (Item.Alike order) items others) (position next : Nat) :
    (directoryBytes order position next items).2 = (directoryBytes order position next others).2 :=
  Item.placeAll_snd_eq (Item.forall₂_sorted alike) position

theorem length_directoryBytes_fst (order : ByteOrder) (position next : Nat) (items : List Item) :
    (directoryBytes order position next items).1.length = directorySize items.length := by
  simp only [directoryBytes, List.length_append, order.length_encode, Item.length_placeAll_fst,
    (Item.perm_sorted items).length_eq, directorySize]

theorem fits_of_whole {order : ByteOrder} {position : Nat} {items : List Item}
    (whole : ∀ item ∈ items, item.Whole)
    (bound : (Item.placeAll order position items).2.length + 4 < 4294967296) :
    ∀ item ∈ items, item.Fits := by
  intro item member
  have short := Item.length_bytes_le order position items item member
  have counted := Nat.le_mul_of_pos_left item.count (size_pos item.type)
  rw [(whole item member).length] at short
  exact ⟨whole item member, by omega⟩

/-- A directory is there wherever its bytes and those of its long values stand. -/
theorem directoryAt_of_stands {order : ByteOrder} {block : Bytes} {offset position next : Nat}
    {items : List Item} (whole : ∀ item ∈ items, item.Whole)
    (entries : Stands block offset (directoryBytes order position next items).1)
    (values : Stands block position (directoryBytes order position next items).2)
    (many : items.length < 65536)
    (bound : position + (directoryBytes order position next items).2.length + 4 < 4294967296) :
    DirectoryAt order block offset next (Item.sorted items) := by
  have placedBound : position + (Item.placeAll order position (Item.sorted items)).2.length + 4 <
      4294967296 := bound
  have fit : ∀ item ∈ Item.sorted items, item.Fits := by
    have within : (Item.placeAll order position (Item.sorted items)).2.length + 4 < 4294967296 := by
      omega
    refine fits_of_whole (fun item member => ?_) within
    exact whole item ((Item.perm_sorted items).mem_iff.mp member)
  obtain ⟨behind, split⟩ := id entries
  obtain ⟨read, entriesRead, held⟩ :=
    Item.entriesOf_placeAll order fit values (by omega) (order.encode 4 next ++ behind)
  have count : number? order block offset 2 = some items.length := by
    have first := (stands_append_iff.mp (stands_append_iff.mp entries).1).1
    exact first.number?_eq many
  have size := length_directoryBytes_fst order position next items
  have within : offset + 2 + Entry.size * items.length ≤ block.length := by
    have filled : (directoryBytes order position next items).1 ≠ [] := by
      rw [← List.length_pos_iff, size, directorySize]
      omega
    have inside := entries.within filled
    rw [size, directorySize] at inside
    omega
  have body : block.drop (offset + 2) =
      (Item.placeAll order position (Item.sorted items)).1 ++ (order.encode 4 next ++ behind) := by
    rw [← List.drop_drop, ← split, directoryBytes, List.append_assoc, List.append_assoc,
      List.drop_left' (order.length_encode 2 _)]
  refine ⟨read, order.encode 4 next ++ behind, ?_, held, List.prefix_append _ _⟩
  rw [(Item.perm_sorted items).length_eq] at entriesRead
  have all : read.length = items.length := by
    rw [← held.length_eq, (Item.perm_sorted items).length_eq]
  refine wholeAt?_eq_some_iff.mpr ⟨?_, ?_⟩
  · simp only [fitsAt, count, decide_eq_true_eq]
    exact within
  · simp only [entriesAt, count, body, entriesRead, all, if_true]

end PhotoTags.Tiff

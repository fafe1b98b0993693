import PhotoTags.Proofs.Tiff.Stored

/-!
Blocks that are read and written again. A block is told by the fields that the layout takes over,
those with one number in a directory in their order; the order of all others does not count. What is
read from a written block has these fields again, so the same block is written of it.
-/

namespace PhotoTags.Tiff

theorem directoryBytes_congr {items others : List Item} (same : SameRuns (·.id) items others)
    (order : ByteOrder) (position next : Nat) :
    directoryBytes order position next items = directoryBytes order position next others := by
  rw [directoryBytes, directoryBytes, Item.sorted_congr same, same.perm.length_eq]

namespace Link

theorem hangingBytes_congr {items others : List Item} (same : SameRuns (·.id) items others)
    (order : ByteOrder) (position : Nat) :
    hangingBytes order position items = hangingBytes order position others := by
  rw [hangingBytes, hangingBytes, same.isEmpty_eq, directoryBytes_congr same]

variable {link other : Link} {order : ByteOrder}

theorem bytes_congr (thumbnail : link.thumbnail = other.thumbnail)
    (same : ∀ directory, SameRuns (·.id) (link.items order directory) (other.items order directory))
    (start next : Nat) : link.bytes order start next = other.bytes order start next := by
  have length (directory : Directory) :
      (link.items order directory).length = (other.items order directory).length :=
    (same directory).perm.length_eq
  have isEmpty (directory : Directory) :
      (link.items order directory).isEmpty = (other.items order directory).isEmpty :=
    (same directory).isEmpty_eq
  have main (behind : List Item) := directoryBytes_congr ((same .main).append (.refl _ behind))
  have exif (behind : List Item) := hangingBytes_congr ((same .exif).append (.refl _ behind))
  have gps := hangingBytes_congr (same .gps)
  have interop := hangingBytes_congr (same .interop)
  unfold bytes
  simp only [length, isEmpty, thumbnail, List.append_assoc, main, exif, gps, interop]

end Link

section

variable {fields others : List Field} (order : ByteOrder) (thumbnail : Option Bytes)

theorem filter_items_linkOf (chain : Nat) (directory : Directory) (id : Nat) :
    ((linkOf fields thumbnail chain).items order directory).filter (·.id = id) =
      ((fields.filter isWritable).filter (·.place = (chain, directory, id))).map
        (Item.ofField order) := by
  rw [Link.items, linkOf, List.filter_map, List.filter_filter, List.filter_filter,
    List.filter_filter]
  congr 1
  refine List.filter_congr fun field _ => ?_
  simp only [Function.comp_apply, Item.ofField, Field.place, Prod.mk.injEq, Bool.decide_and]
  cases isWritable field <;> grind

variable (same : SameRuns Field.place (fields.filter isWritable) (others.filter isWritable))

include same

theorem isEmpty_linkOf_congr (chain : Nat) :
    (linkOf fields thumbnail chain).isEmpty = (linkOf others thumbnail chain).isEmpty := by
  have own (fields : List Field) : (linkOf fields thumbnail chain).fields =
      (fields.filter isWritable).filter (·.chain = chain) := by
    rw [linkOf, List.filter_filter]
  rw [Link.isEmpty, Link.isEmpty, own, own, (same.filter _).isEmpty_eq]
  rfl

theorem blockBytes?_congr :
    blockBytes? order fields thumbnail = blockBytes? order others thumbnail := by
  have bytes (chain start next : Nat) : (linkOf fields thumbnail chain).bytes order start next =
      (linkOf others thumbnail chain).bytes order start next := by
    have thumbnails : (linkOf fields thumbnail chain).thumbnail =
        (linkOf others thumbnail chain).thumbnail := rfl
    refine Link.bytes_congr thumbnails (fun directory id => ?_) start next
    rw [filter_items_linkOf, filter_items_linkOf, same]
  simp only [blockBytes?, bytes, isEmpty_linkOf_congr thumbnail same]

end

/-- What is read from a written block are the fields that the layout took over, and the thumbnail
with its numbers. -/
theorem sameRuns_ofBlock {order : ByteOrder} {fields : List Field} {thumbnail : Option Bytes}
    {block : Bytes} (stored : ∀ field ∈ fields, field.Stored)
    (linked : ∀ field ∈ fields, field.chain = 0 ∨ field.chain = 1)
    (alone : thumbnail = none → ∀ field ∈ fields, field.chain = 0) (filled : thumbnail ≠ some [])
    (encoded : blockBytes? order fields thumbnail = some block) (short : block.length < 65536) :
    ∃ kept, Content.ofBlock block = ⟨order, kept, thumbnail⟩ ∧
      SameRuns Field.place (kept.filter isWritable) (fields.filter isWritable) := by
  obtain ⟨second, places, later, chained⟩ := chained_of_blockBytes? stored encoded short
  obtain ⟨kept, content, same⟩ := chained.ofBlock_eq stored filled
  have numbers : (thumbnailFields thumbnail later.thumbnail).filter isWritable = [] := by
    cases thumbnail with
    | none => rfl
    | some bytes => exact List.filter_eq_nil_iff.mpr (by simp [thumbnailFields, isWritable, layoutIds])
  have all : (keptFields fields thumbnail).filter isWritable = fields.filter isWritable := by
    rw [keptFields, List.filter_filter]
    refine List.filter_congr fun field member => ?_
    rcases linked field member with first | next
    · simp [first]
    · have held : thumbnail.isSome = true := by
        rw [Option.isSome_iff_ne_none]
        intro none
        simp [alone none field member] at next
      simp [next, held]
  have writable := same.filter isWritable
  rw [List.filter_append, numbers, all, List.append_nil] at writable
  exact ⟨kept, content, writable⟩

end PhotoTags.Tiff

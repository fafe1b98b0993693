import PhotoTags.Jpeg.Exif
import PhotoTags.Proofs.Jpeg.Rereading

/-!
How an Exif segment gets to its place, step by step: it is put at a fixed index of the other
segments, which have to reach that far, and then moved forward to where the first one was. Moving
takes a segment out and puts it back, and the indices of both are always within bounds. All steps
together are `withExif?`.
-/

namespace PhotoTags.Jpeg

def isOther (segment : Segment) : Bool :=
  !segment.isExif

def insertAt? (index : Nat) (segment : Segment) (segments : List Segment) :
    Option (List Segment) :=
  if index ≤ segments.length then some (insertAt index segment segments) else none

def removeAt? (index : Nat) (segments : List Segment) : Option (Segment × List Segment) :=
  match segments.drop index with
  | [] => none
  | segment :: behind => some (segment, segments.take index ++ behind)

def setExif? (segments : List Segment) (block : Bytes) : Option (List Segment) :=
  insertAt? latestPlace (.ofBlock block) (segments.filter isOther)

/-- Moves the Exif segment to its original index, or to index 1 if it had none, but not back. -/
def moveForward? (original : Option Nat) (segments : List Segment) : Option (List Segment) :=
  match exifIndex? segments with
  | none => some segments
  | some place =>
      if original.getD 1 < place then
        (removeAt? place segments).bind fun (segment, others) =>
          insertAt? (original.getD 1) segment others
      else some segments

theorem isExif_ofBlock (block : Bytes) : (Segment.ofBlock block).isExif = true := by
  simp [Segment.isExif, Segment.ofBlock, hasExifMark]

theorem exifIndex?_insertAt {others : List Segment} (plain : ∀ other ∈ others, other.isExif = false)
    (index : Nat) (bound : index ≤ others.length) (block : Bytes) :
    exifIndex? (insertAt index (.ofBlock block) others) = some index := by
  have front : (others.take index).findIdx? Segment.isExif = none :=
    List.findIdx?_eq_none_iff.mpr fun other member => plain other (List.mem_of_mem_take member)
  rw [exifIndex?, insertAt, List.findIdx?_append, front, List.findIdx?_cons,
    isExif_ofBlock]
  simp [bound]

theorem filter_insertAt {others : List Segment} (plain : ∀ other ∈ others, other.isExif = false)
    (index : Nat) (block : Bytes) :
    (insertAt index (.ofBlock block) others).filter isOther = others := by
  have all : others.filter isOther = others :=
    List.filter_eq_self.mpr fun other member => by simp [isOther, plain other member]
  have own : isOther (.ofBlock block) = false := by
    simp [isOther, isExif_ofBlock]
  rw [insertAt, List.filter_append, List.filter_cons_of_neg (by simp [own]), ← List.filter_append,
    List.take_append_drop, all]

theorem exifBlock?_insertAt {others : List Segment} (plain : ∀ other ∈ others, other.isExif = false)
    (index : Nat) (block : Bytes) :
    exifBlock? (insertAt index (.ofBlock block) others) = some block := by
  have front : (others.take index).find? Segment.isExif = none :=
    List.find?_eq_none.mpr fun other member => by simp [plain other (List.mem_of_mem_take member)]
  rw [exifBlock?, insertAt, List.find?_append, front, Option.none_or,
    List.find?_cons_of_pos (isExif_ofBlock block), Option.map_some]
  exact congrArg some List.drop_left

theorem removeAt?_insertAt (others : List Segment) (segment : Segment) (index : Nat)
    (bound : index ≤ others.length) :
    removeAt? index (insertAt index segment others) = some (segment, others) := by
  have taken : (others.take index).length = index := by
    rw [List.length_take]
    omega
  unfold removeAt? insertAt
  rw [List.drop_append_of_le_length (by omega), List.take_append_of_le_length (by omega),
    List.drop_of_length_le (by omega), List.take_of_length_le (by omega)]
  simp

/-- Putting the segment at the fixed index and moving it forward is putting it in place. -/
theorem withExif?_eq_bind (segments : List Segment) (block : Bytes) :
    withExif? segments block =
      (setExif? segments block).bind (moveForward? (exifIndex? segments)) := by
  have plain : ∀ other ∈ segments.filter isOther, other.isExif = false := by
    intro other member
    simpa [isOther] using (List.mem_filter.mp member).2
  unfold withExif? setExif? insertAt?
  by_cases few : (segments.filter isOther).length < latestPlace
  · rw [if_pos (show (segments.filter fun segment => !segment.isExif).length < latestPlace from few),
      if_neg (by omega)]
    rfl
  · have bound : latestPlace ≤ (segments.filter isOther).length := by omega
    rw [if_neg (show ¬ (segments.filter fun segment => !segment.isExif).length < latestPlace from few),
      if_pos bound, Option.bind_some, moveForward?, exifIndex?_insertAt plain _ bound]
    dsimp only
    by_cases earlier : (exifIndex? segments).getD 1 < latestPlace
    · have fits : (exifIndex? segments).getD 1 ≤ (segments.filter isOther).length := by omega
      rw [if_pos earlier, removeAt?_insertAt _ _ _ bound, Option.bind_some, insertAt?, if_pos fits,
        Nat.min_eq_left (by omega)]
      rfl
    · rw [if_neg earlier, Nat.min_eq_right (by omega)]
      rfl

/-- Taking a segment out and putting it back further in front is always within bounds. -/
theorem moveForward?_isSome (original : Option Nat) (segments : List Segment) :
    (moveForward? original segments).isSome = true := by
  unfold moveForward?
  cases found : exifIndex? segments with
  | none => rfl
  | some place =>
      have bound : place < segments.length := by
        obtain ⟨bound, _⟩ := List.findIdx?_eq_some_iff_getElem.mp found
        exact bound
      have there : segments.drop place = segments[place] :: segments.drop (place + 1) :=
        List.drop_eq_getElem_cons bound
      dsimp only
      split
      · rename_i earlier
        have fits : original.getD 1 ≤
            (segments.take place ++ segments.drop (place + 1)).length := by
          rw [List.length_append, List.length_take, List.length_drop]
          omega
        rw [removeAt?, there, Option.bind_some, insertAt?, if_pos fits]
        rfl
      · rfl

theorem withExif?_eq_none_iff {segments : List Segment} {block : Bytes} :
    withExif? segments block = none ↔ (segments.filter isOther).length < latestPlace := by
  unfold withExif?
  change (if (segments.filter isOther).length < latestPlace then _ else _) = _ ↔ _
  split <;> simp_all

theorem withExif?_eq_some {segments placed : List Segment} {block : Bytes}
    (found : withExif? segments block = some placed) :
    ∃ place ≤ (segments.filter isOther).length,
      place = min ((exifIndex? segments).getD 1) latestPlace ∧
      placed = insertAt place (.ofBlock block) (segments.filter isOther) := by
  unfold withExif? at found
  change (if (segments.filter isOther).length < latestPlace then _ else _) = _ at found
  split at found
  · simp at found
  · rename_i many
    refine ⟨_, ?_, rfl, (Option.some.inj found).symm⟩
    omega

theorem plain_ofBlock {block : Bytes} (short : (exifMark ++ block).length ≤ maxContents) :
    (Segment.ofBlock block).Plain where
  notEnd := (by decide : application1 ≠ endOfImage)
  notFill := (by decide : application1 ≠ 0xFF)
  notScan := (by decide : application1 ≠ startOfScan)
  noScan := rfl
  short := short
  bare := by simp [Segment.ofBlock, hasLength, application1]

theorem parsed_insertAt {segments : List Segment} (parsed : Parsed segments) {place : Nat}
    (plain : ∀ segment ∈ segments.take place, segment.Plain) {block : Bytes}
    (short : (exifMark ++ block).length ≤ maxContents) :
    Parsed (insertAt place (.ofBlock block) segments) :=
  parsed_append plain (.cons (plain_ofBlock short) (parsed.drop place))

theorem hasScan_insertAt_iff {segments : List Segment} {place : Nat} {block : Bytes} :
    HasScan (insertAt place (.ofBlock block) segments) ↔ HasScan segments := by
  have own : (Segment.ofBlock block).marker ≠ startOfScan :=
    (by decide : application1 ≠ startOfScan)
  have split (segment : Segment) : segment ∈ segments ↔
      segment ∈ segments.take place ∨ segment ∈ segments.drop place := by
    rw [← List.mem_append, List.take_append_drop]
  simp only [HasScan, insertAt, List.mem_append, List.mem_cons, split]
  constructor
  · rintro ⟨segment, front | rfl | behind, isScan, filled⟩
    · exact ⟨segment, .inl front, isScan, filled⟩
    · exact absurd isScan own
    · exact ⟨segment, .inr behind, isScan, filled⟩
  · rintro ⟨segment, front | behind, isScan, filled⟩
    · exact ⟨segment, .inl front, isScan, filled⟩
    · exact ⟨segment, .inr (.inr behind), isScan, filled⟩

end PhotoTags.Jpeg

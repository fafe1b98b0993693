import PhotoTags.Jpeg.Scan
import PhotoTags.Proofs.Jpeg.Placing

/-!
What the strict scan finds in a written image: the block of the first application segment 1, if that
is an Exif segment and every segment before it has a length.
-/

namespace PhotoTags.Jpeg

def blockIn? (contents : Bytes) : Option Bytes :=
  if hasExifMark contents ∧ contents ≠ exifMark then some (contents.drop exifMark.length) else none

def firstBlock? : List Segment → Option Bytes
  | [] => none
  | segment :: rest =>
      if hasLength segment.marker = false then none
      else if segment.marker = application1 then blockIn? segment.contents
      else if segment.marker = startOfScan then none
      else firstBlock? rest

theorem scanFrom_counted {marker : UInt8} {contents : Bytes} (counted : hasLength marker = true)
    (short : contents.length ≤ maxContents) (fuel : Nat) (rest : Bytes) :
    scanFrom (fuel + 1) (0xFF :: marker ::
        (Tiff.ByteOrder.big.encode 2 (contents.length + 2) ++ (contents ++ rest))) =
      if marker = application1 then blockIn? contents
      else if marker = startOfScan then none
      else scanFrom fuel rest := by
  have notStart : marker ≠ 0xD8 := by
    rintro rfl
    simp [hasLength] at counted
  rw [scanFrom, if_neg notStart, contentsAt?_written short]
  rfl

theorem scanFrom_bare {marker : UInt8} (fuel : Nat) (rest : Bytes) :
    scanFrom (fuel + 1) (0xFF :: marker :: 0 :: 0 :: rest) = none := by
  rw [scanFrom]
  split
  · cases fuel <;> rfl
  · simp [contentsAt?]

theorem scanFrom_flatMap_bytes {segments : List Segment} (parsed : Parsed segments) (fuel : Nat)
    (enough : segments.length ≤ fuel) :
    scanFrom fuel (segments.flatMap Segment.bytes) = firstBlock? segments := by
  -- Over the segments as reading gives them, each of which takes one step.
  induction parsed generalizing fuel with
  | ended => cases fuel <;> rfl
  | @scan contents scan short behind =>
      obtain ⟨fuel, rfl⟩ : ∃ less, fuel = less + 1 := ⟨fuel - 1, by simp at enough; omega⟩
      rw [List.flatMap_singleton, bytes_counted rfl, scanFrom_counted rfl short]
      rfl
  | @cons segment rest plain _ ih =>
      obtain ⟨fuel, rfl⟩ : ∃ less, fuel = less + 1 := ⟨fuel - 1, by simp at enough; omega⟩
      have later := ih fuel (by simpa using enough)
      obtain ⟨marker, contents, scan⟩ := segment
      obtain ⟨-, -, notScan, noScan, short, bare⟩ := plain
      dsimp only at notScan noScan short bare
      subst noScan
      rw [List.flatMap_cons, firstBlock?]
      cases counted : hasLength marker with
      | true =>
          simp only [bytes_counted counted, ite_self, List.append_nil, List.cons_append,
            List.append_assoc]
          rw [scanFrom_counted counted short, later]
          rfl
      | false =>
          obtain rfl := bare counted
          rw [bytes_bare counted]
          exact scanFrom_bare fuel _

theorem scan?_startBytes_append {segments : List Segment} (parsed : Parsed segments) :
    scan? (startBytes ++ segments.flatMap Segment.bytes) =
      if (startBytes ++ segments.flatMap Segment.bytes).length < scanMinimum then none
      else firstBlock? segments := by
  have enough := length_le_flatMap_bytes segments
  rw [scan?]
  refine ite_congr rfl (fun _ => rfl) fun _ => ?_
  have started : (startBytes ++ segments.flatMap Segment.bytes).take 2 = startBytes := rfl
  rw [if_pos started]
  exact scanFrom_flatMap_bytes parsed _ (by rw [List.length_append]; omega)

def IsPassable (segments : List Segment) : Prop :=
  ∃ first ∈ segments.head?, hasLength first.marker = true ∧ first.marker ≠ application1

instance (segments : List Segment) : Decidable (IsPassable segments) :=
  match segments with
  | [] => isFalse (by simp [IsPassable])
  | first :: _ => decidable_of_iff (hasLength first.marker = true ∧ first.marker ≠ application1)
      (by simp [IsPassable])

theorem blockIn?_exifMark {block : Bytes} (nonempty : block ≠ []) :
    blockIn? (exifMark ++ block) = some block := by
  simp [blockIn?, hasExifMark, nonempty]

def IsPassableTo (place : Nat) (segments : List Segment) : Prop :=
  ∀ segment ∈ segments.take place,
    hasLength segment.marker = true ∧ segment.marker ≠ application1

instance (place : Nat) (segments : List Segment) : Decidable (IsPassableTo place segments) :=
  inferInstanceAs (Decidable (∀ segment ∈ segments.take place, _))

theorem isPassableTo_one_iff {segments : List Segment} (nonempty : segments ≠ []) :
    IsPassableTo 1 segments ↔ IsPassable segments := by
  cases segments with
  | nil => exact absurd rfl nonempty
  | cons first rest => simp [IsPassableTo, IsPassable]

theorem firstBlock?_append {front : List Segment} (plain : ∀ segment ∈ front, segment.Plain)
    (others : ∀ segment ∈ front, segment.isExif = false) {block : Bytes} (nonempty : block ≠ [])
    (behind : List Segment) :
    firstBlock? (front ++ .ofBlock block :: behind) =
      if ∀ segment ∈ front, hasLength segment.marker = true ∧ segment.marker ≠ application1 then
        some block
      else none := by
  induction front with
  | nil =>
      have inserted : firstBlock? (Segment.ofBlock block :: behind) = some block :=
        blockIn?_exifMark nonempty
      simpa using inserted
  | cons first rest ih =>
      have later := ih (fun segment member => plain segment (List.mem_cons_of_mem _ member))
        (fun segment member => others segment (List.mem_cons_of_mem _ member))
      have noExif := others first (List.mem_cons_self ..)
      rw [List.cons_append, firstBlock?, later, if_neg (plain first (List.mem_cons_self ..)).notScan]
      cases counted : hasLength first.marker with
      | false => simp [counted]
      | true =>
          by_cases application : first.marker = application1
          · have unmarked : hasExifMark first.contents = false := by
              simpa [Segment.isExif, application] using noExif
            simp [application, blockIn?, unmarked]
          · simp [counted, application]

theorem firstBlock?_insertAt {segments : List Segment} {place : Nat}
    (plain : ∀ segment ∈ segments.take place, segment.Plain)
    (others : ∀ segment ∈ segments, segment.isExif = false) {block : Bytes}
    (nonempty : block ≠ []) :
    firstBlock? (insertAt place (.ofBlock block) segments) =
      if IsPassableTo place segments then some block else none :=
  firstBlock?_append plain (fun segment member => others segment (List.mem_of_mem_take member))
    nonempty _

end PhotoTags.Jpeg

import PhotoTags.Jpeg.Segment

/-!
Segments that were read from an image, and what becomes of them when they are written and read
again. The image data stay with the last segment, and only then does the written image have an end:
without image data the same segments are written, but nothing ends them, and the image cannot be
read any more.
-/

namespace PhotoTags.Jpeg

structure Segment.Plain (segment : Segment) : Prop where
  notEnd : segment.marker ≠ endOfImage
  notFill : segment.marker ≠ 0xFF
  notScan : segment.marker ≠ startOfScan
  noScan : segment.scan = []
  short : segment.contents.length ≤ maxContents
  bare : hasLength segment.marker = false → segment.contents = []

inductive Parsed : List Segment → Prop
  | ended : Parsed []
  | scan {contents scan : Bytes} : contents.length ≤ maxContents → scan ≠ [] →
      Parsed [⟨startOfScan, contents, scan⟩]
  | cons {segment : Segment} {rest : List Segment} : segment.Plain → Parsed rest →
      Parsed (segment :: rest)

def HasScan (segments : List Segment) : Prop :=
  ∃ segment ∈ segments, segment.marker = startOfScan ∧ segment.contents ≠ []

instance (segments : List Segment) : Decidable (HasScan segments) :=
  inferInstanceAs (Decidable (∃ segment ∈ segments, _))

theorem contentsAt?_eq_some {bytes contents rest : Bytes}
    (found : contentsAt? bytes = some (contents, rest)) : contents.length ≤ maxContents := by
  unfold contentsAt? at found
  split at found
  · rename_i high low behind
    have highByte := high.toNat_lt
    have lowByte := low.toNat_lt
    dsimp only at found
    split at found
    · rename_i fits
      simp only [Option.some.injEq, Prod.mk.injEq] at found
      rw [← found.1, fits.2, maxContents]
      omega
    · simp at found
  · simp at found

theorem markerAt?_ne_fill {bytes rest : Bytes} {marker : UInt8}
    (found : markerAt? bytes = some (marker, rest)) : marker ≠ 0xFF := by
  unfold markerAt? at found
  split at found
  · simp at found
  · rename_i first behind dropped
    simp only [Option.some.injEq, Prod.mk.injEq] at found
    have stopped := List.head?_dropWhile_not (· == 0xFF) (bytes.dropWhile (· != 0xFF))
    rw [dropped] at stopped
    rw [← found.1]
    simpa using stopped

theorem segmentsOf_nil (fuel : Nat) : segmentsOf fuel [] = .error .truncated := by
  cases fuel <;> rfl

theorem map_cons_eq_ok {segment : Segment} {later : Except ReadError (List Segment)}
    {segments : List Segment} (joined : later.map (segment :: ·) = .ok segments) :
    ∃ others, later = .ok others ∧ segments = segment :: others := by
  cases later with
  | error cause => simp [Except.map] at joined
  | ok others => exact ⟨others, rfl, (Except.ok.inj joined).symm⟩

/-- The step of reading: the image ends, its image data follow, or there is another segment. -/
theorem segmentsOf_eq_ok {fuel : Nat} {bytes : Bytes} {segments : List Segment}
    (read : segmentsOf (fuel + 1) bytes = .ok segments) :
    segments = [] ∨
      (∃ contents scan, contents.length ≤ maxContents ∧ scan ≠ [] ∧
        segments = [⟨startOfScan, contents, scan⟩]) ∨
      ∃ segment others behind, segment.Plain ∧ segmentsOf fuel behind = .ok others ∧
        segments = segment :: others := by
  unfold segmentsOf at read
  split at read
  · simp at read
  · rename_i marker rest marked
    have notFill := markerAt?_ne_fill marked
    split at read
    · exact Or.inl (Except.ok.inj read).symm
    · rename_i notEnd
      split at read
      · rename_i counted
        split at read
        · simp at read
        · rename_i contents behind taken
          have short := contentsAt?_eq_some taken
          split at read
          · rename_i last
            refine Or.inr (Or.inl ⟨contents, behind, short, last.2, ?_⟩)
            rw [← last.1]
            exact (Except.ok.inj read).symm
          · rename_i more
            obtain ⟨others, later, joined⟩ := map_cons_eq_ok read
            have notScan : marker ≠ startOfScan := by
              intro isScan
              have empty : behind = [] := by
                by_cases empty : behind = []
                · exact empty
                · exact absurd ⟨isScan, empty⟩ more
              rw [empty, segmentsOf_nil] at later
              simp at later
            refine Or.inr (Or.inr ⟨_, others, behind, ?_, later, joined⟩)
            refine ⟨notEnd, notFill, notScan, rfl, short, fun bare => ?_⟩
            rw [bare] at counted
            simp at counted
      · rename_i bare
        obtain ⟨others, later, joined⟩ := map_cons_eq_ok read
        have notScan : marker ≠ startOfScan := by
          rintro rfl
          exact bare (by decide)
        exact Or.inr (Or.inr ⟨_, others, rest, ⟨notEnd, notFill, notScan, rfl, by simp, fun _ => rfl⟩,
          later, joined⟩)

theorem parsed_of_segmentsOf {fuel : Nat} {bytes : Bytes} {segments : List Segment}
    (read : segmentsOf fuel bytes = .ok segments) : Parsed segments := by
  induction fuel generalizing bytes segments with
  | zero => simp [segmentsOf] at read
  | succ fuel ih =>
      rcases segmentsOf_eq_ok read with
        rfl | ⟨contents, scan, short, behind, rfl⟩ | ⟨segment, others, behind, plain, later, rfl⟩
      · exact .ended
      · exact .scan short behind
      · exact .cons plain (ih later)

theorem parsed_of_read {bytes : Bytes} {segments : List Segment}
    (parsed : read bytes = .ok segments) : Parsed segments := by
  unfold read at parsed
  split at parsed
  · split at parsed
    · exact parsed_of_segmentsOf parsed
    · simp at parsed
  · simp at parsed

theorem Parsed.short {segments : List Segment} (parsed : Parsed segments) :
    ∀ segment ∈ segments, segment.contents.length ≤ maxContents := by
  induction parsed with
  | ended => simp
  | scan short _ => simpa using short
  | cons plain _ ih =>
      intro segment member
      rcases List.mem_cons.mp member with rfl | later
      · exact plain.short
      · exact ih segment later

theorem Parsed.filter {segments : List Segment} (parsed : Parsed segments)
    (kept : Segment → Bool) : Parsed (segments.filter kept) := by
  induction parsed with
  | ended => exact .ended
  | @scan contents scan short behind =>
      cases own : kept ⟨startOfScan, contents, scan⟩ with
      | true => simpa [own] using Parsed.scan short behind
      | false => simpa [own] using Parsed.ended
  | @cons segment rest plain _ ih =>
      cases own : kept segment with
      | true => simpa [own] using Parsed.cons plain ih
      | false => simpa [own] using ih

theorem Parsed.drop {segments : List Segment} (parsed : Parsed segments) (count : Nat) :
    Parsed (segments.drop count) := by
  induction parsed generalizing count with
  | ended => simpa using Parsed.ended
  | scan short behind =>
      cases count with
      | zero => exact .scan short behind
      | succ count => simpa using Parsed.ended
  | cons plain later ih =>
      cases count with
      | zero => exact .cons plain later
      | succ count => exact ih count

/-- The image data come last, so that no segment with another one behind it has any. -/
theorem Parsed.plain_of_lt {segments : List Segment} (parsed : Parsed segments) {place : Nat}
    (bound : place < segments.length) : ∀ segment ∈ segments.take place, segment.Plain := by
  induction parsed generalizing place with
  | ended => simp at bound
  | scan _ _ =>
      obtain rfl : place = 0 := by simpa using bound
      simp
  | cons plain _ ih =>
      cases place with
      | zero => simp
      | succ place =>
          intro segment member
          rcases List.mem_cons.mp member with rfl | later
          · exact plain
          · exact ih (by simpa using bound) segment later

theorem parsed_append {front behind : List Segment} (plain : ∀ segment ∈ front, segment.Plain)
    (parsed : Parsed behind) : Parsed (front ++ behind) := by
  induction front with
  | nil => exact parsed
  | cons first rest ih =>
      apply Parsed.cons
      · exact plain first (List.mem_cons_self ..)
      · exact ih fun segment member => plain segment (List.mem_cons_of_mem _ member)

theorem big_encode_two (number : Nat) :
    Tiff.ByteOrder.big.encode 2 number = [UInt8.ofNat (number / 256), UInt8.ofNat number] := rfl

theorem contentsAt?_written {contents : Bytes} (short : contents.length ≤ maxContents)
    (rest : Bytes) :
    contentsAt? (Tiff.ByteOrder.big.encode 2 (contents.length + 2) ++ (contents ++ rest)) =
      some (contents, rest) := by
  have high : (contents.length + 2) / 256 < 256 := by
    rw [maxContents] at short
    omega
  have length : (UInt8.ofNat ((contents.length + 2) / 256)).toNat * 256 +
      (UInt8.ofNat (contents.length + 2)).toNat = contents.length + 2 := by
    rw [UInt8.toNat_ofNat_of_lt' high, UInt8.toNat_ofNat']
    omega
  rw [big_encode_two, List.cons_append, List.cons_append, List.nil_append, contentsAt?, length]
  simp

theorem markerAt?_written {marker : UInt8} (notFill : marker ≠ 0xFF) (rest : Bytes) :
    markerAt? (0xFF :: marker :: rest) = some (marker, rest) := by
  simp [markerAt?, notFill]

/-- The two zero bytes that stand for a missing length are passed over. -/
theorem segmentsOf_zeros (fuel : Nat) (rest : Bytes) :
    segmentsOf fuel (0 :: 0 :: rest) = segmentsOf fuel rest := by
  have skipped : markerAt? (0 :: 0 :: rest) = markerAt? rest := by
    simp [markerAt?]
  cases fuel with
  | zero => rfl
  | succ fuel => simp only [segmentsOf, skipped]

theorem bytes_counted {marker : UInt8} (counted : hasLength marker = true)
    (contents scan : Bytes) :
    Segment.bytes ⟨marker, contents, scan⟩ = 0xFF :: marker ::
      (Tiff.ByteOrder.big.encode 2 (contents.length + 2) ++
        (contents ++ if contents = [] then [] else scan)) := by
  simp [Segment.bytes, counted]

theorem bytes_bare {marker : UInt8} (bare : hasLength marker = false) :
    Segment.bytes ⟨marker, [], []⟩ = [0xFF, marker, 0, 0] := by
  simp [Segment.bytes, bare, big_encode_two]

theorem segmentsOf_plain {segment : Segment} (plain : segment.Plain) (fuel : Nat) (rest : Bytes) :
    segmentsOf (fuel + 1) (segment.bytes ++ rest) = (segmentsOf fuel rest).map (segment :: ·) := by
  obtain ⟨marker, contents, scan⟩ := segment
  obtain ⟨notEnd, notFill, notScan, noScan, short, bare⟩ := plain
  dsimp only at notEnd notFill notScan noScan short bare
  subst noScan
  cases counted : hasLength marker with
  | true =>
      simp only [bytes_counted counted, ite_self, List.append_nil, List.cons_append,
        List.append_assoc]
      rw [segmentsOf, markerAt?_written notFill]
      simp [notEnd, counted, contentsAt?_written short, notScan]
  | false =>
      obtain rfl := bare counted
      rw [bytes_bare counted, List.cons_append, List.cons_append, segmentsOf,
        markerAt?_written notFill]
      simp [notEnd, counted, segmentsOf_zeros]

theorem segmentsOf_scan {contents scan : Bytes} (short : contents.length ≤ maxContents)
    (behind : scan ≠ []) (fuel : Nat) :
    segmentsOf (fuel + 1) (Segment.bytes ⟨startOfScan, contents, scan⟩) =
      if contents = [] then .error .truncated else .ok [⟨startOfScan, contents, scan⟩] := by
  rw [bytes_counted rfl, segmentsOf, markerAt?_written (by decide)]
  simp only [contentsAt?_written short]
  by_cases empty : contents = []
  · simp [empty, segmentsOf_nil, startOfScan, endOfImage, hasLength, Except.map]
  · simp [empty, behind, startOfScan, endOfImage, hasLength]

theorem segmentsOf_flatMap_bytes {segments : List Segment} (parsed : Parsed segments) (fuel : Nat)
    (enough : segments.length ≤ fuel) :
    segmentsOf fuel (segments.flatMap Segment.bytes) =
      if HasScan segments then .ok segments else .error .truncated := by
  induction parsed generalizing fuel with
  | ended => simp [HasScan, segmentsOf_nil]
  | @scan contents scan short behind =>
      obtain ⟨fuel, rfl⟩ : ∃ less, fuel = less + 1 := ⟨fuel - 1, by simp at enough; omega⟩
      rw [List.flatMap_singleton, segmentsOf_scan short behind]
      by_cases empty : contents = [] <;> simp [HasScan, empty]
  | @cons segment rest plain _ ih =>
      obtain ⟨fuel, rfl⟩ : ∃ less, fuel = less + 1 := ⟨fuel - 1, by simp at enough; omega⟩
      have carried : HasScan (segment :: rest) ↔ HasScan rest := by
        simp [HasScan, plain.notScan]
      rw [List.flatMap_cons, segmentsOf_plain plain, ih fuel (by simpa using enough)]
      by_cases scanned : HasScan rest <;> simp [carried, scanned, Except.map]

theorem length_le_flatMap_bytes (segments : List Segment) :
    segments.length ≤ (segments.flatMap Segment.bytes).length := by
  induction segments with
  | nil => simp
  | cons segment rest ih =>
      have marked : 1 ≤ segment.bytes.length := by simp [Segment.bytes]
      rw [List.flatMap_cons, List.length_append, List.length_cons]
      omega

/-- Reading what was written gives the same segments, if they end with image data. -/
theorem read_startBytes_append {segments : List Segment} (parsed : Parsed segments) :
    read (startBytes ++ segments.flatMap Segment.bytes) =
      if HasScan segments then .ok segments else .error .truncated := by
  have enough := length_le_flatMap_bytes segments
  rw [show read (startBytes ++ segments.flatMap Segment.bytes) =
    segmentsOf ((segments.flatMap Segment.bytes).length + 1) (segments.flatMap Segment.bytes) from
      rfl]
  exact segmentsOf_flatMap_bytes parsed _ (by omega)

theorem write?_eq_some_iff {segments : List Segment} {bytes : Bytes} :
    write? segments = some bytes ↔
      (∀ segment ∈ segments, segment.contents.length ≤ maxContents) ∧
        bytes = startBytes ++ segments.flatMap Segment.bytes := by
  have shortIff : (segments.all fun segment => segment.contents.length ≤ maxContents) = true ↔
      ∀ segment ∈ segments, segment.contents.length ≤ maxContents := by
    simp [List.all_eq_true]
  unfold write?
  rw [← shortIff]
  split
  · rename_i short
    rw [Option.some.injEq, eq_comm]
    exact ⟨fun same => ⟨short, same⟩, fun both => both.2⟩
  · rename_i long
    exact ⟨fun none => by simp at none, fun both => absurd both.1 long⟩

end PhotoTags.Jpeg

import PhotoTags.Proofs.Jpeg.Scanning

/-!
The Exif segment among the others after it was replaced. All other segments stay as they are and in
their order, and no segment comes to stand before it that was not before the first Exif segment
already. What is written in the end can be read again if the image data are.
-/

namespace PhotoTags.Jpeg

def exifPlace (segments : List Segment) : Nat :=
  min ((exifIndex? segments).getD 1) latestPlace

section

variable {segments placed : List Segment} {block : Bytes}

theorem isExif_eq_false_of_isOther :
    ∀ segment ∈ segments.filter isOther, segment.isExif = false := by
  intro segment member
  simpa [isOther] using (List.mem_filter.mp member).2

theorem take_filter_isOther {place : Nat}
    (plain : ∀ segment ∈ segments.take place, segment.isExif = false) :
    (segments.filter isOther).take place = segments.take place := by
  induction segments generalizing place with
  | nil => rfl
  | cons first rest ih =>
      cases place with
      | zero => simp
      | succ place =>
          have own : isOther first = true := by
            simp [isOther, plain first (List.mem_cons_self ..)]
          rw [List.filter_cons_of_pos own, List.take_succ_cons, List.take_succ_cons, ih]
          intro segment member
          exact plain segment (List.mem_cons_of_mem _ member)

theorem take_exifPlace (segments : List Segment) :
    (segments.filter isOther).take (exifPlace segments) = segments.take (exifPlace segments) := by
  apply take_filter_isOther
  intro segment member
  cases found : exifIndex? segments with
  | none => exact List.findIdx?_eq_none_iff.mp found segment (List.mem_of_mem_take member)
  | some index =>
      obtain ⟨_, _, before⟩ := List.findIdx?_eq_some_iff_getElem.mp found
      obtain ⟨place, bound, rfl⟩ := List.mem_take_iff_getElem.mp member
      simp only [exifPlace, found, Option.getD_some] at bound
      simpa using before place (by omega)

theorem withExif?_eq_some_iff :
    withExif? segments block = some placed ↔
      latestPlace ≤ (segments.filter isOther).length ∧
        placed = insertAt (exifPlace segments) (.ofBlock block) (segments.filter isOther) := by
  unfold withExif?
  change (if (segments.filter isOther).length < latestPlace then _ else _) = _ ↔ _
  split
  · rename_i few
    constructor
    · intro none
      simp at none
    · intro ⟨many, _⟩
      omega
  · rename_i many
    rw [Option.some.injEq, eq_comm]
    exact ⟨fun same => ⟨by omega, same⟩, fun both => both.2⟩

section

variable (parsed : Parsed segments) (many : latestPlace ≤ (segments.filter isOther).length)

include parsed many

theorem plain_before_exifPlace :
    ∀ segment ∈ (segments.filter isOther).take (exifPlace segments), segment.Plain := by
  have bound : exifPlace segments < segments.length := by
    have fewer := List.length_filter_le isOther segments
    cases found : exifIndex? segments with
    | none =>
        simp only [exifPlace, found, Option.getD_none, latestPlace] at many ⊢
        omega
    | some index =>
        obtain ⟨inside, _⟩ := List.findIdx?_eq_some_iff_getElem.mp found
        simp only [exifPlace, found, Option.getD_some]
        omega
  rw [take_exifPlace]
  exact parsed.plain_of_lt bound

/-- The written image can be read if and only if the image data were kept. -/
theorem read_insertAt_exifPlace (short : (exifMark ++ block).length ≤ maxContents) :
    let placed := insertAt (exifPlace segments) (.ofBlock block) (segments.filter isOther)
    read (startBytes ++ placed.flatMap Segment.bytes) =
      if HasScan segments then .ok placed else .error .truncated := by
  intro placed
  have plain := plain_before_exifPlace parsed many
  have kept : HasScan placed ↔ HasScan segments := by
    rw [hasScan_insertAt_iff]
    have isOther_of_scan {segment : Segment} (isScan : segment.marker = startOfScan) :
        isOther segment = true := by
      simp [isOther, Segment.isExif, isScan, startOfScan, application1]
    constructor
    · rintro ⟨segment, member, isScan, filled⟩
      exact ⟨segment, (List.mem_filter.mp member).1, isScan, filled⟩
    · rintro ⟨segment, member, isScan, filled⟩
      exact ⟨segment, List.mem_filter.mpr ⟨member, isOther_of_scan isScan⟩, isScan, filled⟩
  rw [read_startBytes_append (parsed_insertAt (parsed.filter isOther) plain short)]
  exact ite_congr (propext kept) (fun _ => rfl) fun _ => rfl

end

theorem filter_isExif_insertAt {others : List Segment}
    (plain : ∀ other ∈ others, other.isExif = false) (place : Nat) :
    (insertAt place (.ofBlock block) others).filter Segment.isExif = [.ofBlock block] := by
  have none {some : List Segment} (within : ∀ other ∈ some, other ∈ others) :
      some.filter Segment.isExif = [] := by
    apply List.filter_eq_nil_iff.mpr
    intro other member
    simp [plain other (within other member)]
  have front := none fun other (member : other ∈ others.take place) => List.mem_of_mem_take member
  have behind := none fun other (member : other ∈ others.drop place) => List.mem_of_mem_drop member
  rw [insertAt, List.filter_append, front, List.filter_cons_of_pos (isExif_ofBlock block), behind]
  rfl

theorem take_insertAt {others : List Segment} {place : Nat} (bound : place ≤ others.length)
    (segment : Segment) : (insertAt place segment others).take place = others.take place := by
  have long : (others.take place).length = place := by
    rw [List.length_take]
    omega
  exact List.take_left' long

end

end PhotoTags.Jpeg

import PhotoTags.Proofs.Image.Outcome
import PhotoTags.Proofs.Jpeg.Placing

/-!
When writing attributes into an image aborts. There are two causes: the image has too few segments
to put the Exif segment among, or the new block is longer than a segment can be. Neither is looked
for beforehand. All other segments came from an image and fit into one again.
-/

namespace PhotoTags.Image

/-- A segment is too long exactly if the new one is. -/
theorem write?_insertAt_eq_none_iff {bytes block : Bytes} {segments : List Jpeg.Segment}
    (parsed : Jpeg.read bytes = .ok segments) (place : Nat) :
    Jpeg.write? (Jpeg.insertAt place (.ofBlock block) (segments.filter Jpeg.isOther)) = none ↔
      Jpeg.maxContents < (Jpeg.exifMark ++ block).length := by
  have others : ∀ segment ∈ segments.filter Jpeg.isOther,
      segment.contents.length ≤ Jpeg.maxContents := by
    intro segment member
    exact (Jpeg.parsed_of_read parsed).short segment (List.mem_filter.mp member).1
  constructor
  · intro unwritten
    apply Nat.lt_of_not_le
    intro short
    have all : ∀ segment ∈ Jpeg.insertAt place (.ofBlock block) (segments.filter Jpeg.isOther),
        segment.contents.length ≤ Jpeg.maxContents := by
      intro segment member
      rcases List.mem_append.mp member with front | there
      · exact others segment (List.mem_of_mem_take front)
      · rcases List.mem_cons.mp there with rfl | behind
        · exact short
        · exact others segment (List.mem_of_mem_drop behind)
    rw [Jpeg.write?_eq_some_iff.mpr ⟨all, rfl⟩] at unwritten
    simp at unwritten
  · intro long
    cases written : Jpeg.write? (Jpeg.insertAt place (.ofBlock block)
        (segments.filter Jpeg.isOther)) with
    | none => rfl
    | some output =>
        have short := (Jpeg.write?_eq_some_iff.mp written).1 (.ofBlock block)
          (List.mem_append_right _ (List.mem_cons_self ..))
        exact absurd long (Nat.not_lt.mpr short)

theorem abort_cases {failure : Failure Problem} {backups : Bool} {path : Path}
    {entries : List Entry} {tree after : FileTree}
    (outcome : Outcome backups path entries tree (.error failure) after)
    (aborted : failure = .abort) :
    ∃ bytes, tree.read path = .ok bytes ∧
      (plan bytes (Selection.ofEntries entries).fields = .error .abort ∨
        ∃ placed middle, plan bytes (Selection.ofEntries entries).fields = .ok (.segments placed) ∧
          backUpIf backups tree path = (.ok (), middle) ∧ Jpeg.write? placed = none) := by
  subst aborted
  generalize answer : (Except.error Failure.abort : Except (Failure Problem) Saved) = result
    at outcome
  cases outcome with
  | unread _ => simp at answer
  | @unplanned bytes failure read planned =>
      refine ⟨bytes, read, Or.inl ?_⟩
      cases failure with
      | error cause => simp [Failure.map] at answer
      | abort => exact planned
  | idle _ _ _ => simp at answer
  | noBackup _ _ _ => simp at answer
  | @unwritten bytes placed middle failure read planned copied stored =>
      obtain rfl := Except.error.inj answer
      exact ⟨bytes, read, Or.inr ⟨placed, _, planned, copied,
        writeSegments_eq_abort_iff.mp stored⟩⟩
  | written _ _ _ _ => simp at answer

theorem save_eq_abort_iff {backups : Bool} {path : Path} {entries : List Entry} {tree : FileTree} :
    (save backups path entries tree).1 = .error .abort ↔
      ∃ bytes, tree.read path = .ok bytes ∧
        (plan bytes (Selection.ofEntries entries).fields = .error .abort ∨
          ∃ placed middle,
            plan bytes (Selection.ofEntries entries).fields = .ok (.segments placed) ∧
              backUpIf backups tree path = (.ok (), middle) ∧ Jpeg.write? placed = none) := by
  constructor
  · intro aborted
    have outcome := save_outcome backups path entries tree
    rw [aborted] at outcome
    exact abort_cases outcome rfl
  · rintro ⟨bytes, read, planned | ⟨placed, middle, planned, copied, unwritten⟩⟩
    · simp [save, read, planned, Failure.map]
    · simp [save, read, planned, copied, writeSegments_eq_abort_iff.mpr unwritten]

/-- Writing aborts exactly if the image and what it keeps give a new block, and either there are less
than three other segments or the block is too long for one, unless the backup fails before that. In
moving the segment to its place no index can be out of bounds. -/
theorem save_aborts_iff (backups : Bool) (path : Path) (entries : List Entry) (tree : FileTree) :
    ((save backups path entries tree).1 = .error .abort ↔
      ∃ bytes segments block, tree.read path = .ok bytes ∧ Jpeg.read bytes = .ok segments ∧
        newBlock? segments (Selection.ofEntries entries).fields = some block ∧
        ((segments.filter Jpeg.isOther).length < Jpeg.latestPlace ∨
          Jpeg.maxContents < (Jpeg.exifMark ++ block).length ∧
            ∃ middle, backUpIf backups tree path = (.ok (), middle))) ∧
      (∀ segments block, Jpeg.withExif? segments block =
        (Jpeg.setExif? segments block).bind (Jpeg.moveForward? (Jpeg.exifIndex? segments))) ∧
      ∀ original segments, (Jpeg.moveForward? original segments).isSome = true := by
  refine ⟨?_, Jpeg.withExif?_eq_bind, Jpeg.moveForward?_isSome⟩
  rw [save_eq_abort_iff]
  constructor
  · rintro ⟨bytes, read, planned | ⟨placed, middle, planned, copied, unwritten⟩⟩
    · obtain ⟨segments, block, parsed, encoded, unplaced⟩ := plan_eq_abort_iff.mp planned
      exact ⟨bytes, segments, block, read, parsed, encoded,
        Or.inl (Jpeg.withExif?_eq_none_iff.mp unplaced)⟩
    · obtain ⟨segments, block, parsed, encoded, located⟩ := plan_eq_segments_iff.mp planned
      obtain ⟨place, _, _, rfl⟩ := Jpeg.withExif?_eq_some located
      exact ⟨bytes, segments, block, read, parsed, encoded,
        Or.inr ⟨(write?_insertAt_eq_none_iff parsed place).mp unwritten, middle, copied⟩⟩
  · rintro ⟨bytes, segments, block, read, parsed, encoded, few | ⟨long, middle, copied⟩⟩
    · exact ⟨bytes, read, Or.inl (plan_eq_abort_iff.mpr
        ⟨segments, block, parsed, encoded, Jpeg.withExif?_eq_none_iff.mpr few⟩)⟩
    · refine ⟨bytes, read, ?_⟩
      cases located : Jpeg.withExif? segments block with
      | none => exact Or.inl (plan_eq_abort_iff.mpr ⟨segments, block, parsed, encoded, located⟩)
      | some placed =>
          refine Or.inr ⟨placed, middle,
            plan_eq_segments_iff.mpr ⟨segments, block, parsed, encoded, located⟩, copied, ?_⟩
          obtain ⟨place, _, _, rfl⟩ := Jpeg.withExif?_eq_some located
          exact (write?_insertAt_eq_none_iff parsed place).mpr long

/-- An image of two segments can be read, but writing any tag into it aborts. -/
theorem save_aborts_two_segments :
    let bytes : Bytes := [0xFF, 0xD8, 0xFF, 0xE0, 0, 2, 0xFF, 0xFE, 0, 2, 0xFF, 0xD9]
    let tree : FileTree := { nodes := [(["a.jpg"], .file bytes)] }
    tree.read ⟨"a.jpg"⟩ = .ok bytes ∧ (Jpeg.read bytes).toOption.isSome = true ∧
      (save false ⟨"a.jpg"⟩ [("Make", "FOO")] tree).1 = .error .abort := by
  intro bytes tree
  exact ⟨rfl, rfl, rfl⟩

end PhotoTags.Image

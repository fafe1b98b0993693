import PhotoTags.Image.Save

/-!
How writing attributes into an image can end. Each of the ends has its own case, with what led to
it and the files that it leaves; whatever else is said about writing is read off these cases.
-/

namespace PhotoTags.Image

def contentOf (segments : List Jpeg.Segment) : Tiff.Content :=
  match Jpeg.exifBlock? segments with
  | some block => Tiff.Content.ofBlock block
  | none => .empty

def fieldsAfter (segments : List Jpeg.Segment) (new : List Tiff.Field) : List Tiff.Field :=
  merged (contentOf segments).fields new

def newBlock? (segments : List Jpeg.Segment) (new : List Tiff.Field) : Option Bytes :=
  Tiff.blockBytes? (contentOf segments).order (fieldsAfter segments new)
    (contentOf segments).thumbnail

/-- A block is about the image: its first directory has a field. -/
theorem filter_ne_nil_of_blockBytes? {order : Tiff.ByteOrder} {fields : List Tiff.Field}
    {thumbnail : Option Bytes} {block : Bytes}
    (encoded : Tiff.blockBytes? order fields thumbnail = some block) :
    fields.filter (fun field => field.chain = 0 && Tiff.isWritable field) ≠ [] := by
  intro nothing
  have first : (Tiff.linkOf fields thumbnail 0).isEmpty = true := by
    simp [Tiff.Link.isEmpty, Tiff.linkOf, nothing]
  simp [Tiff.blockBytes?, first] at encoded

theorem any_chain_of_blockBytes? {order : Tiff.ByteOrder} {fields : List Tiff.Field}
    {thumbnail : Option Bytes} {block : Bytes}
    (encoded : Tiff.blockBytes? order fields thumbnail = some block) :
    fields.any (·.chain = 0) = true := by
  obtain ⟨field, member⟩ := List.exists_mem_of_ne_nil _ (filter_ne_nil_of_blockBytes? encoded)
  obtain ⟨listed, kept⟩ := List.mem_filter.mp member
  rw [Bool.and_eq_true] at kept
  exact List.any_eq_true.mpr ⟨field, listed, kept.1⟩

theorem plan_of_read {bytes : Bytes} {segments : List Jpeg.Segment} (new : List Tiff.Field)
    (parsed : Jpeg.read bytes = .ok segments) :
    plan bytes new =
      if (fieldsAfter segments new).any (·.chain = 0) then
        match newBlock? segments new with
        | none => .error (.error .unencodable)
        | some block =>
            match Jpeg.withExif? segments block with
            | none => .error .abort
            | some placed => .ok (.segments placed)
      else .ok .unchanged := by
  unfold plan
  rw [parsed]
  rfl

/-- A plan that goes beyond a new block ends as putting the block among the segments does. -/
theorem plan_of_newBlock? {bytes block : Bytes} {segments : List Jpeg.Segment}
    {new : List Tiff.Field} (parsed : Jpeg.read bytes = .ok segments)
    (encoded : newBlock? segments new = some block) :
    plan bytes new =
      match Jpeg.withExif? segments block with
      | none => .error .abort
      | some placed => .ok (.segments placed) := by
  rw [plan_of_read new parsed, if_pos (any_chain_of_blockBytes? encoded), encoded]

theorem plan_cases (bytes : Bytes) (new : List Tiff.Field) :
    plan bytes new = .ok .unchanged ∨ (∃ cause, plan bytes new = .error (.error cause)) ∨
      ∃ segments block, Jpeg.read bytes = .ok segments ∧ newBlock? segments new = some block := by
  cases parsed : Jpeg.read bytes with
  | error cause =>
      refine Or.inr (Or.inl ⟨.unreadable cause, ?_⟩)
      simp [plan, parsed]
  | ok segments =>
      cases encoded : newBlock? segments new with
      | some block => exact Or.inr (Or.inr ⟨segments, block, rfl, encoded⟩)
      | none =>
          rw [plan_of_read new parsed, encoded]
          cases about : (fieldsAfter segments new).any (·.chain = 0) with
          | true => exact Or.inr (Or.inl ⟨.unencodable, rfl⟩)
          | false => exact Or.inl rfl

theorem plan_eq_segments_iff {bytes : Bytes} {new : List Tiff.Field}
    {placed : List Jpeg.Segment} :
    plan bytes new = .ok (.segments placed) ↔
      ∃ segments block, Jpeg.read bytes = .ok segments ∧ newBlock? segments new = some block ∧
        Jpeg.withExif? segments block = some placed := by
  constructor
  · intro planned
    rcases plan_cases bytes new with unchanged | ⟨cause, failed⟩ | ⟨segments, block, parsed, encoded⟩
    · simp [planned] at unchanged
    · simp [planned] at failed
    · rw [plan_of_newBlock? parsed encoded] at planned
      refine ⟨segments, block, parsed, encoded, ?_⟩
      split at planned <;> simp_all
  · rintro ⟨segments, block, parsed, encoded, located⟩
    rw [plan_of_newBlock? parsed encoded, located]

theorem plan_eq_unchanged_iff {bytes : Bytes} {new : List Tiff.Field} :
    plan bytes new = .ok .unchanged ↔
      ∃ segments, Jpeg.read bytes = .ok segments ∧
        (fieldsAfter segments new).any (·.chain = 0) = false := by
  cases parsed : Jpeg.read bytes with
  | error cause => simp [plan, parsed]
  | ok segments =>
      rw [plan_of_read new parsed]
      simp only [Except.ok.injEq, exists_eq_left']
      cases (fieldsAfter segments new).any (·.chain = 0) with
      | false => simp
      | true =>
          cases newBlock? segments new with
          | none => simp
          | some block => cases located : Jpeg.withExif? segments block <;> simp [located]

theorem plan_eq_abort_iff {bytes : Bytes} {new : List Tiff.Field} :
    plan bytes new = .error .abort ↔
      ∃ segments block, Jpeg.read bytes = .ok segments ∧ newBlock? segments new = some block ∧
        Jpeg.withExif? segments block = none := by
  constructor
  · intro planned
    rcases plan_cases bytes new with unchanged | ⟨cause, failed⟩ | ⟨segments, block, parsed, encoded⟩
    · simp [planned] at unchanged
    · simp [planned] at failed
    · rw [plan_of_newBlock? parsed encoded] at planned
      refine ⟨segments, block, parsed, encoded, ?_⟩
      split at planned <;> simp_all
  · rintro ⟨segments, block, parsed, encoded, unplaced⟩
    rw [plan_of_newBlock? parsed encoded, unplaced]

inductive Outcome (backups : Bool) (path : Path) (entries : List Entry) (tree : FileTree) :
    Except (Failure Problem) Saved → FileTree → Prop
  | unread {cause : FileError} : tree.read path = .error cause →
      Outcome backups path entries tree (.error (.error .unreadableFile)) tree
  | unplanned {bytes : Bytes} {failure : Failure PlanError} : tree.read path = .ok bytes →
      plan bytes (Selection.ofEntries entries).fields = .error failure →
      Outcome backups path entries tree (.error (failure.map PlanError.problem)) tree
  | idle {bytes : Bytes} {saved : Saved} : tree.read path = .ok bytes →
      plan bytes (Selection.ofEntries entries).fields = .ok .unchanged → saved.backup = none →
      Outcome backups path entries tree (.ok saved) tree
  | noBackup {bytes : Bytes} {segments : List Jpeg.Segment} {middle : FileTree}
      {problem : Problem} : tree.read path = .ok bytes →
      plan bytes (Selection.ofEntries entries).fields = .ok (.segments segments) →
      backUpIf backups tree path = (.error problem, middle) →
      Outcome backups path entries tree (.error (.error problem)) middle
  | unwritten {bytes : Bytes} {segments : List Jpeg.Segment} {middle : FileTree}
      {failure : Failure Problem} : tree.read path = .ok bytes →
      plan bytes (Selection.ofEntries entries).fields = .ok (.segments segments) →
      backUpIf backups tree path = (.ok (), middle) →
      writeSegments middle path segments = .error failure →
      Outcome backups path entries tree (.error failure) middle
  | written {bytes : Bytes} {segments : List Jpeg.Segment} {middle after : FileTree}
      {saved : Saved} : tree.read path = .ok bytes →
      plan bytes (Selection.ofEntries entries).fields = .ok (.segments segments) →
      backUpIf backups tree path = (.ok (), middle) →
      writeSegments middle path segments = .ok after →
      Outcome backups path entries tree (.ok saved) after

theorem save_outcome (backups : Bool) (path : Path) (entries : List Entry) (tree : FileTree) :
    Outcome backups path entries tree (save backups path entries tree).1
      (save backups path entries tree).2 := by
  unfold save
  cases read : tree.read path with
  | error cause => exact .unread read
  | ok bytes =>
      dsimp only
      cases planned : plan bytes (Selection.ofEntries entries).fields with
      | error failure => exact .unplanned read planned
      | ok planOk =>
          cases planOk with
          | unchanged => exact .idle read planned rfl
          | segments segments =>
              dsimp only
              rcases copied : backUpIf backups tree path with ⟨problem | _, middle⟩
              · exact .noBackup read planned copied
              · dsimp only
                cases stored : writeSegments middle path segments with
                | error failure => exact .unwritten read planned copied stored
                | ok after => exact .written read planned copied stored

theorem save_eq_ok_iff {backups : Bool} {path : Path} {entries : List Entry} {tree after : FileTree}
    {saved : Saved} :
    save backups path entries tree = (.ok saved, after) ↔
      ∃ bytes, tree.read path = .ok bytes ∧
        let selection := Selection.ofEntries entries
        (plan bytes selection.fields = .ok .unchanged ∧ after = tree ∧
            saved = ⟨selection.written, selection.skipped, none⟩ ∨
          ∃ placed middle, plan bytes selection.fields = .ok (.segments placed) ∧
            backUpIf backups tree path = (.ok (), middle) ∧
            writeSegments middle path placed = .ok after ∧
            saved = ⟨selection.written, selection.skipped,
              if backups then some path.backup else none⟩) := by
  unfold save
  cases read : tree.read path with
  | error cause => simp
  | ok bytes =>
      cases planned : plan bytes (Selection.ofEntries entries).fields with
      | error failure => simp [planned]
      | ok step =>
          cases step with
          | unchanged => simp [planned, eq_comm, and_comm]
          | segments placed =>
              rcases copied : backUpIf backups tree path with ⟨problem | _, middle⟩
              · simp [planned]
              · cases stored : writeSegments middle path placed with
                | error failure => simp [planned, stored]
                | ok final => simp [planned, stored, eq_comm, and_comm]

/-- Either nothing is done for the backup, or a copy is tried, and succeeds or not. -/
theorem backUpIf_cases {backups : Bool} {path : Path} {tree middle : FileTree}
    {result : Except Problem Unit} (copied : backUpIf backups tree path = (result, middle)) :
    result = .ok () ∧ middle = tree ∧ (backups = true → tree.holds path.backup = true) ∨
      backups = true ∧ tree.holds path.backup = false ∧
        middle = (tree.copy path path.backup).2 ∧
        (result = .ok () ↔ (tree.copy path path.backup).1 = .ok ()) := by
  unfold backUpIf at copied
  split at copied
  · rename_i wanted
    unfold backUp at copied
    split at copied
    · rename_i held
      obtain ⟨rfl, rfl⟩ := Prod.mk.inj copied
      exact .inl ⟨rfl, rfl, fun _ => held⟩
    · rename_i missing
      refine .inr ⟨wanted, by simpa using missing, ?_⟩
      rcases tried : tree.copy path path.backup with ⟨cause | _, other⟩ <;>
        rw [tried] at copied <;> obtain ⟨rfl, rfl⟩ := Prod.mk.inj copied
      · exact ⟨rfl, by simp⟩
      · exact ⟨rfl, by simp⟩
  · rename_i unwanted
    obtain ⟨rfl, rfl⟩ := Prod.mk.inj copied
    exact .inl ⟨rfl, rfl, fun wanted => absurd wanted unwanted⟩

theorem writeSegments_eq_ok_iff {tree after : FileTree} {path : Path}
    {segments : List Jpeg.Segment} :
    writeSegments tree path segments = .ok after ↔
      ∃ bytes, Jpeg.write? segments = some bytes ∧ tree.write path bytes = .ok after := by
  unfold writeSegments
  cases Jpeg.write? segments with
  | none => simp
  | some bytes => cases written : tree.write path bytes <;> simp [written]

theorem writeSegments_eq_abort_iff {tree : FileTree} {path : Path}
    {segments : List Jpeg.Segment} :
    writeSegments tree path segments = .error .abort ↔ Jpeg.write? segments = none := by
  unfold writeSegments
  cases Jpeg.write? segments with
  | none => simp
  | some bytes => cases written : tree.write path bytes <;> simp [written]

end PhotoTags.Image

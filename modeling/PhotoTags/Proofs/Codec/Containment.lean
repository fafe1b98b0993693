import PhotoTags.Codec.ImageFile
import PhotoTags.Codec.Jpeg
import PhotoTags.Proofs.Files.Writing
import PhotoTags.Proofs.Image.Outcome

/-!
What writing attributes can do to the files, whatever the image holds and however it ends. The only
places that can change are those of the image and of its backup. A write that fails or aborts leaves
every file as it was, but for a backup that it may have made; one that has no field about the image
to write changes nothing at all.
-/

namespace PhotoTags

namespace Image

def fieldsToWrite (bytes : Bytes) (entries : List Entry) : List Tiff.Field :=
  match Jpeg.read bytes with
  | .error _ => []
  | .ok segments =>
      (fieldsAfter segments (Selection.ofEntries entries).fields).filter fun field =>
        field.chain = 0 && Tiff.isWritable field

def OnlyBackupMade (backups : Bool) (path : Path) (before after : FileTree) : Prop :=
  ∀ location, after.node? location = before.node? location ∨
    backups = true ∧ before.locate path.backup = .ok location ∧ before.node? location = none ∧
      ∃ bytes, before.read path = .ok bytes ∧
        after.node? location = some (.file (before.fitting location bytes))

structure Contained {ε α : Type} (backups : Bool) (path : Path) (entries : Option (List Entry))
    (before : FileTree) (result : Except ε α) (after : FileTree) : Prop where
  failed : (∀ value, result ≠ .ok value) → OnlyBackupMade backups path before after
  idle : ∀ value bytes, result = .ok value → before.read path = .ok bytes →
    (∀ written, entries = some written → fieldsToWrite bytes written = []) → after = before
  elsewhere : ∀ location, after.node? location ≠ before.node? location →
    before.locate path = .ok location ∨
      backups = true ∧ before.locate path.backup = .ok location

theorem OnlyBackupMade.refl (backups : Bool) (path : Path) (tree : FileTree) :
    OnlyBackupMade backups path tree tree :=
  fun _ => Or.inl rfl

theorem OnlyBackupMade.elsewhere {backups : Bool} {path : Path} {before after : FileTree}
    (made : OnlyBackupMade backups path before after) (location : Location)
    (changed : after.node? location ≠ before.node? location) :
    backups = true ∧ before.locate path.backup = .ok location := by
  rcases made location with same | ⟨wanted, found, _⟩
  · exact absurd same changed
  · exact ⟨wanted, found⟩

theorem onlyBackupMade_of_copy {path : Path} {tree : FileTree}
    (missing : tree.holds path.backup = false) :
    OnlyBackupMade true path tree (tree.copy path path.backup).2 := by
  rcases tree.copy_cases path path.backup with ⟨cause, failed⟩ | ⟨bytes, place, read, found, copied⟩
  · rw [failed]
    exact .refl true path tree
  · obtain ⟨⟨-, located⟩, free, -⟩ := FileTree.writable_eq_ok_iff.mp found
    have vacant := FileTree.node?_of_not_holds missing located
    rw [copied]
    intro location
    rw [FileTree.node?_put_file free]
    split
    · rename_i same
      subst same
      exact Or.inr ⟨rfl, located, vacant, bytes, read, rfl⟩
    · exact Or.inl rfl

theorem onlyBackupMade_of_backUpIf {backups : Bool} {path : Path} {tree middle : FileTree}
    {result : Except Problem Unit} (copied : backUpIf backups tree path = (result, middle)) :
    OnlyBackupMade backups path tree middle := by
  rcases backUpIf_cases copied with ⟨-, rfl, -⟩ | ⟨rfl, missing, rfl, -⟩
  · exact .refl backups path middle
  · exact onlyBackupMade_of_copy missing

theorem locate_backUpIf_iff {backups : Bool} {path : Path} {tree middle : FileTree}
    {result : Except Problem Unit} (copied : backUpIf backups tree path = (result, middle))
    (other : Path) (location : Location) :
    middle.locate other = .ok location ↔ tree.locate other = .ok location := by
  rcases backUpIf_cases copied with ⟨-, rfl, -⟩ | ⟨-, -, rfl, -⟩
  · rfl
  · exact FileTree.locate_copy_iff tree path path.backup other location

theorem fieldsToWrite_ne_nil {bytes : Bytes} {entries : List Entry}
    {placed : List Jpeg.Segment}
    (planned : plan bytes (Selection.ofEntries entries).fields = .ok (.segments placed)) :
    fieldsToWrite bytes entries ≠ [] := by
  obtain ⟨segments, block, parsed, encoded, _⟩ := plan_eq_segments_iff.mp planned
  rw [fieldsToWrite, parsed]
  exact filter_ne_nil_of_blockBytes? encoded

theorem Contained.of_unchanged {ε α : Type} (backups : Bool) (path : Path)
    (entries : Option (List Entry)) (tree : FileTree) (result : Except ε α) :
    Contained backups path entries tree result tree := by
  constructor
  · exact fun _ => .refl backups path tree
  · exact fun _ _ _ _ _ => rfl
  · exact fun _ changed => absurd rfl changed

theorem Contained.of_failure {ε α : Type} {backups : Bool} {path : Path}
    {entries : Option (List Entry)} {before after : FileTree} {result : Except ε α}
    (made : OnlyBackupMade backups path before after) (failed : ∀ value, result ≠ .ok value) :
    Contained backups path entries before result after := by
  constructor
  · exact fun _ => made
  · exact fun value _ succeeded => absurd succeeded (failed value)
  · exact fun location changed => Or.inr (made.elsewhere location changed)

theorem contained_of_outcome {backups : Bool} {path : Path} {entries : List Entry}
    {tree after : FileTree} {result : Except (Failure Problem) Saved}
    (outcome : Outcome backups path entries tree result after) :
    Contained backups path (some entries) tree result after := by
  cases outcome with
  | unread _ => exact .of_unchanged ..
  | unplanned _ _ => exact .of_unchanged ..
  | idle _ _ _ => exact .of_unchanged ..
  | noBackup _ _ copied => exact .of_failure (onlyBackupMade_of_backUpIf copied) (by simp)
  | unwritten _ _ copied _ => exact .of_failure (onlyBackupMade_of_backUpIf copied) (by simp)
  | @written bytes placed middle after saved read planned copied stored =>
      have made := onlyBackupMade_of_backUpIf copied
      obtain ⟨content, _, put⟩ := writeSegments_eq_ok_iff.mp stored
      obtain ⟨place, found, _, nodes⟩ := FileTree.node?_write put
      refine ⟨fun failed => absurd rfl (failed saved), ?_, ?_⟩
      · intro value other _ again nothing
        obtain rfl : bytes = other := Except.ok.inj (read.symm.trans again)
        exact absurd (nothing entries rfl) (fieldsToWrite_ne_nil planned)
      · intro location changed
        rw [nodes] at changed
        split at changed
        · rename_i same
          subst same
          exact Or.inl ((locate_backUpIf_iff copied path place).mp found)
        · exact Or.inr (made.elsewhere location changed)

theorem save_contained (backups : Bool) (path : Path) (entries : List Entry) (tree : FileTree) :
    Contained backups path (some entries) tree (save backups path entries tree).1
      (save backups path entries tree).2 :=
  contained_of_outcome (save_outcome backups path entries tree)

theorem Contained.of_answer {ε δ α β : Type} {backups : Bool} {path : Path}
    {entries : Option (List Entry)} {before after : FileTree} {result : Except ε α}
    {answer : Except δ β} (contained : Contained backups path entries before result after)
    (alike : (∃ value, answer = .ok value) ↔ ∃ value, result = .ok value) :
    Contained backups path entries before answer after := by
  constructor
  · intro failed
    apply contained.failed
    intro value succeeded
    obtain ⟨other, answered⟩ := alike.mpr ⟨value, succeeded⟩
    exact failed other answered
  · intro value bytes answered read nothing
    obtain ⟨other, succeeded⟩ := alike.mp ⟨value, answered⟩
    exact contained.idle other bytes succeeded read nothing
  · exact contained.elsewhere

end Image

namespace JpegCodec

theorem commit_contained (path : Path) (codec : JpegCodec) :
    Image.Contained codec.backups path (codec.staged.get? path) codec.tree (commit path codec).1
      (commit path codec).2.tree := by
  unfold commit
  cases codec.staged.get? path with
  | none => exact .of_unchanged ..
  | some entries =>
      have contained := Image.save_contained codec.backups path entries codec.tree
      dsimp only
      rcases saved : Image.save codec.backups path entries codec.tree with ⟨_ | _, tree⟩ <;>
        rw [saved] at contained
      · exact contained.of_answer (by simp)
      · exact contained.of_answer (by simp)

theorem store_of_malformed {text : String} {fault : Exchange.Malformed} (path : Path)
    (codec : JpegCodec) (malformed : Exchange.decode text = .error fault) :
    Codec.store path text codec = (.error (.error (.format fault.message)), codec) := by
  simp [Codec.store, Codec.stage, stage, malformed]

theorem store_of_decoded {text : String} {entries : List Entry} (path : Path) (codec : JpegCodec)
    (decoded : Exchange.decode text = .ok entries) :
    Codec.store path text codec =
      commit path { codec with staged := codec.staged.insert path entries } := by
  simp [Codec.store, Codec.stage, Codec.commit, stage, decoded]

theorem save_of_commit {path : Path} {before after : JpegCodec} {entries : List Entry}
    (staged : before.staged.get? path = some entries)
    (committed : commit path before = (.ok (), after)) :
    ∃ saved, Image.save before.backups path entries before.tree = (.ok saved, after.tree) := by
  unfold commit at committed
  rw [staged] at committed
  dsimp only at committed
  rcases answer : Image.save before.backups path entries before.tree with ⟨failure | saved, tree⟩
  · simp [answer] at committed
  · rw [answer] at committed
    obtain rfl := (Prod.mk.inj committed).2
    exact ⟨saved, rfl⟩

theorem save_of_store {path : Path} {before after : JpegCodec} {text : String} {set : List Entry}
    (decoded : Exchange.decode text = .ok set)
    (stored : Codec.store path text before = (.ok (), after)) :
    ∃ saved, Image.save before.backups path set before.tree = (.ok saved, after.tree) := by
  have staged : (before.staged.insert path set).get? path = some set := by
    rw [PathMap.get?_insert, if_pos rfl]
  rw [store_of_decoded path before decoded] at stored
  obtain ⟨saved, succeeded⟩ := save_of_commit staged stored
  exact ⟨saved, succeeded⟩

theorem store_contained (path : Path) (text : String) (codec : JpegCodec) :
    Image.Contained codec.backups path (Exchange.decode text).toOption codec.tree
      (Codec.store path text codec).1 (Codec.store path text codec).2.tree := by
  cases decoded : Exchange.decode text with
  | error fault =>
      rw [store_of_malformed path codec decoded]
      exact .of_unchanged ..
  | ok entries =>
      rw [store_of_decoded path codec decoded]
      have contained :=
        commit_contained path { codec with staged := codec.staged.insert path entries }
      rw [PathMap.get?_insert, if_pos rfl] at contained
      exact contained

theorem save_file_contained (file : ImageFile) (codec : JpegCodec) :
    Image.Contained codec.backups file.path (Exchange.decode file.attributes.save).toOption
      codec.tree (file.save codec).1 (file.save codec).2.tree := by
  have contained := store_contained file.path file.attributes.save codec
  unfold ImageFile.save
  rcases stored : Codec.store file.path file.attributes.save codec with ⟨_ | _, after⟩ <;>
    rw [stored] at contained
  · exact contained.of_answer (by simp)
  · exact contained.of_answer (by simp)

end JpegCodec

/-- Writing attributes, committing what is staged and saving an opened image change nothing but the
image and its backup; without success only the backup can be new, and with no field about the image
to write nothing changes. -/
theorem writes_contained :
    (∀ backups path entries tree, Image.Contained backups path (some entries) tree
        (Image.save backups path entries tree).1 (Image.save backups path entries tree).2) ∧
      (∀ path (codec : JpegCodec), Image.Contained codec.backups path (codec.staged.get? path)
        codec.tree (codec.commit path).1 (codec.commit path).2.tree) ∧
      ∀ (file : ImageFile) (codec : JpegCodec), Image.Contained codec.backups file.path
        (Exchange.decode file.attributes.save).toOption codec.tree (file.save codec).1
        (file.save codec).2.tree := by
  refine ⟨Image.save_contained, ?_, JpegCodec.save_file_contained⟩
  intro path codec
  exact JpegCodec.commit_contained path codec

end PhotoTags

import PhotoTags.Proofs.Codec.Failing
import PhotoTags.Proofs.Files.Reaching

/-!
An update of an image is local. It writes to the places that the image reaches and to no others; and
what it does, its report included, is told by what stands there, so that it goes alike in two states
of the files that do not differ in these places.
-/

namespace PhotoTags

namespace Image

open FileTree (Touched reaches_of_locate reaches_of_locate_backup)

variable {backups : Bool} {path : Path} {tree : FileTree}

theorem touched_backUpIf {middle : FileTree} {result : Except Problem Unit} {place : Location}
    (found : tree.locate path = .ok place) (copied : backUpIf backups tree path = (result, middle)) :
    Touched (tree.Reaches backups path) tree middle := by
  rcases backUpIf_cases copied with ⟨-, rfl, -⟩ | ⟨wanted, -, rfl, -⟩
  · exact .refl _ middle
  · exact .of_copy path path.backup (reaches_of_locate_backup found wanted)

theorem touched_save (backups : Bool) (path : Path) (entries : List Entry) (tree : FileTree) :
    Touched (tree.Reaches backups path) tree (save backups path entries tree).2 := by
  have outcome := save_outcome backups path entries tree
  generalize save backups path entries tree = saved at outcome ⊢
  rcases saved with ⟨answer, after⟩
  dsimp only at outcome ⊢
  cases outcome with
  | unread => exact .refl _ tree
  | unplanned => exact .refl _ tree
  | idle => exact .refl _ tree
  | noBackup read _ copied =>
      obtain ⟨place, found, -⟩ := FileTree.read_eq_ok_iff.mp read
      exact touched_backUpIf found copied
  | unwritten read _ copied _ =>
      obtain ⟨place, found, -⟩ := FileTree.read_eq_ok_iff.mp read
      exact touched_backUpIf found copied
  | written read _ copied stored =>
      obtain ⟨place, found, -⟩ := FileTree.read_eq_ok_iff.mp read
      obtain ⟨content, -, written⟩ := writeSegments_eq_ok_iff.mp stored
      have touched := touched_backUpIf found copied
      exact touched.trans (.of_write written fun location again =>
        reaches_of_locate ((touched.leads path location).mp again))

section

variable {left right : FileTree} (alike : left.Alike backups path right)

include alike

theorem readAt_alike {α : Type} (read : Bytes → Except Jpeg.ReadError α) :
    readAt read left path = readAt read right path := by
  unfold readAt
  cases found : left.read path with
  | ok bytes => rw [(alike.read_iff bytes).mp found]
  | error cause =>
      cases other : right.read path with
      | ok bytes => simp [(alike.read_iff bytes).mpr other] at found
      | error otherCause => rfl

theorem backUpIf_alike {place : Location} (found : left.locate path = .ok place) :
    (backUpIf backups left path).1 = (backUpIf backups right path).1 ∧
      (backUpIf backups left path).2.Alike backups path (backUpIf backups right path).2 := by
  cases backups with
  | false => simpa [backUpIf] using alike
  | true =>
      have within : ∀ location, left.locate path.backup = .ok location →
          left.Reaches true path location := reaches_of_locate_backup found rfl
      simp only [backUpIf, if_true, backUp, alike.holds_eq within]
      split
      · exact ⟨rfl, alike⟩
      · obtain ⟨ended, kept⟩ := alike.copy within
        rcases copied : left.copy path path.backup with ⟨_ | _, leftAfter⟩ <;>
          rcases otherCopied : right.copy path path.backup with ⟨_ | _, rightAfter⟩ <;>
          rw [copied, otherCopied] at ended kept
        · exact ⟨rfl, kept⟩
        · simp [Except.isOk, Except.toBool] at ended
        · simp [Except.isOk, Except.toBool] at ended
        · exact ⟨rfl, kept⟩

theorem writeSegments_alike (segments : List Jpeg.Segment) :
    (∃ leftAfter rightAfter, writeSegments left path segments = .ok leftAfter ∧
      writeSegments right path segments = .ok rightAfter ∧
      leftAfter.Alike backups path rightAfter) ∨
    ∃ failure, writeSegments left path segments = .error failure ∧
      writeSegments right path segments = .error failure := by
  unfold writeSegments
  cases Jpeg.write? segments with
  | none => exact .inr ⟨.abort, rfl, rfl⟩
  | some bytes =>
      rcases alike.write (fun _ => reaches_of_locate) bytes with
        ⟨leftAfter, rightAfter, written, otherWritten, kept⟩ | ⟨cause, otherCause, failed, otherFailed⟩
      · simp only [written, otherWritten]
        exact .inl ⟨leftAfter, rightAfter, rfl, rfl, kept⟩
      · simp only [failed, otherFailed]
        exact .inr ⟨.error .unwritableFile, rfl, rfl⟩

theorem save_alike (entries : List Entry) :
    (save backups path entries left).1 = (save backups path entries right).1 ∧
      (save backups path entries left).2.Alike backups path
        (save backups path entries right).2 := by
  unfold save
  cases read : left.read path with
  | error cause =>
      cases other : right.read path with
      | ok bytes => simp [(alike.read_iff bytes).mpr other] at read
      | error otherCause => exact ⟨rfl, alike⟩
  | ok bytes =>
      obtain ⟨place, found, -⟩ := FileTree.read_eq_ok_iff.mp read
      rw [(alike.read_iff bytes).mp read]
      dsimp only
      rcases plan bytes (Selection.ofEntries entries).fields with failure | (_ | segments)
      · exact ⟨rfl, alike⟩
      · exact ⟨rfl, alike⟩
      · obtain ⟨ended, middle⟩ := backUpIf_alike alike found
        generalize backUpIf backups left path = copied at ended middle ⊢
        generalize backUpIf backups right path = otherCopied at ended middle ⊢
        rcases copied with ⟨answer, leftMiddle⟩
        rcases otherCopied with ⟨otherAnswer, rightMiddle⟩
        obtain rfl : answer = otherAnswer := ended
        cases answer with
        | error problem => exact ⟨rfl, middle⟩
        | ok _ =>
          dsimp only
          rcases writeSegments_alike middle segments with
            ⟨leftAfter, rightAfter, stored, otherStored, after⟩ | ⟨failure, failed, otherFailed⟩
          · simp only [stored, otherStored]
            exact ⟨trivial, after⟩
          · simp only [failed, otherFailed]
            exact ⟨trivial, middle⟩

end

end Image

namespace JpegCodec

structure Alike (path : Path) (left right : JpegCodec) : Prop where
  backups : left.backups = right.backups
  tree : left.tree.Alike left.backups path right.tree

structure Touched (spots : Location → Prop) (before after : JpegCodec) : Prop where
  backups : after.backups = before.backups
  tree : before.tree.Touched spots after.tree

theorem store_decoded {text : String} {entries : List Entry}
    (decoded : Exchange.decode text = .ok entries) (path : Path) (codec : JpegCodec) :
    Codec.store path text codec =
      (committed (Image.save codec.backups path entries codec.tree).1,
        { codec with
          tree := (Image.save codec.backups path entries codec.tree).2
          staged := (codec.staged.insert path entries).erase path }) := by
  have staged : (codec.staged.insert path entries).get? path = some entries := by
    rw [PathMap.get?_insert, if_pos rfl]
  rw [store_of_decoded path codec decoded]
  exact commit_staged staged

theorem agrees (path : Path) : Codec.Agrees (Alike path) path where
  fetch left right alike := by
    rw [Both, fetch_unchanged, fetch_unchanged]
    refine ⟨?_, alike⟩
    show (fetch path left).1 = (fetch path right).1
    unfold fetch Image.findingsAt
    rw [Image.readAt_alike alike.tree]
    split <;> rfl
  thumbnail left right alike := by
    rw [Both, thumbnail_unchanged, thumbnail_unchanged]
    refine ⟨?_, alike⟩
    show (thumbnail path left).1 = (thumbnail path right).1
    unfold thumbnail Image.thumbnailAt
    rw [Image.readAt_alike alike.tree]
    split <;> rfl
  store text left right alike := by
    cases decoded : Exchange.decode text with
    | error fault =>
        rw [store_of_malformed path left decoded, store_of_malformed path right decoded]
        exact ⟨rfl, alike⟩
    | ok entries =>
        obtain ⟨answered, kept⟩ := Image.save_alike alike.tree entries
        rw [store_decoded decoded, store_decoded decoded, ← alike.backups, Both, answered]
        exact ⟨rfl, rfl, kept⟩

theorem Touched.refl (spots : Location → Prop) (codec : JpegCodec) : Touched spots codec codec :=
  ⟨rfl, .refl spots codec.tree⟩

theorem touched_store (path : Path) (text : String) (codec : JpegCodec) :
    Touched (codec.tree.Reaches codec.backups path) codec (Codec.store path text codec).2 := by
  cases decoded : Exchange.decode text with
  | error fault =>
      rw [store_of_malformed path codec decoded]
      exact .refl _ codec
  | ok entries =>
      rw [store_decoded decoded]
      exact ⟨rfl, Image.touched_save codec.backups path entries codec.tree⟩

theorem touched_keeps {spots : Location → Prop} {start : JpegCodec} {path : Path}
    (within : ∀ location, start.tree.Reaches start.backups path location → spots location) :
    Codec.Keeps (Touched spots start) path where
  fetch codec before := by rwa [fetch_unchanged]
  store text codec before := by
    have stored := touched_store path text codec
    refine ⟨stored.backups.trans before.backups, before.tree.trans (stored.tree.mono ?_)⟩
    intro location reached
    rw [before.backups, FileTree.reaches_iff_of_leads before.tree.leads] at reached
    exact within location reached
  thumbnail codec before := by rwa [thumbnail_unchanged]

theorem touched_update (zone : Zone) (dryRun : Bool) (path : Path) (edits : List Edit)
    (codec : JpegCodec) :
    Touched (codec.tree.Reaches codec.backups path) codec (update zone dryRun path edits codec).2 :=
  (touched_keeps fun _ => id).update zone dryRun edits codec (.refl _ codec)

end JpegCodec

end PhotoTags

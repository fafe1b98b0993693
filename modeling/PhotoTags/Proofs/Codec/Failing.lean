import PhotoTags.Proofs.Codec.Containment
import PhotoTags.Proofs.Codec.Memory
import PhotoTags.Proofs.Codec.Staging
import PhotoTags.Proofs.Codec.Updating
import PhotoTags.Proofs.Files.Paths

/-!
Steps that fail. A codec's calls leave the files behind it alone unless they are a commit, and a
commit that fails has made the backup of its image at most. So a step of a session with an error for
an answer has changed neither an open image nor, but for such a backup, a file. Only an update that
could not read back what it had saved has changed its file.
-/

namespace PhotoTags

def Answer.IsError : Answer → Prop
  | .failed (.error _) | .notOpen => True
  | .report shown => shown.error ≠ none
  | _ => False

structure Codec.Spares {σ τ : Type} [Codec σ] (files : σ → τ) (Spared : Path → τ → τ → Prop)
    (Held : Path → String → τ → τ → Prop) : Prop where
  kept : ∀ path held, Spared path held held
  fetch : ∀ path (codec : σ), files (Codec.fetch path codec).2 = files codec
  returns : ∀ path (codec : σ), (Codec.fetch path codec).1 ≠ .error .abort
  thumbnail : ∀ path (codec : σ), files (Codec.thumbnail path codec).2 = files codec
  stage : ∀ path text (codec : σ), files (Codec.stage path text codec).2 = files codec
  failed : ∀ path (codec : σ) failure, (Codec.commit path codec).1 = .error failure →
    Spared path (files codec) (files (Codec.commit path codec).2)
  stored : ∀ path text (codec : σ), (Codec.store path text codec).1 = .ok () →
    Held path text (files codec) (files (Codec.store path text codec).2)

namespace Session

def writesTo? {σ : Type} (session : Session σ) : Step → Option Path
  | .commit path | .update path _ false => some path
  | .save name => (session.file? name).map ImageFile.path
  | _ => none

def Leaves {σ τ : Type} (files : σ → τ) (Spared : Path → τ → τ → Prop) (before : Session σ)
    (step : Step) (after : σ) : Prop :=
  files after = files before.codec ∨
    ∃ path, before.writesTo? step = some path ∧ Spared path (files before.codec) (files after)

/-- What a step leaves if it fails: the images are open as they were, and so are the files, but for
what a failed write leaves, unless an update failed to read back what it had stored. -/
structure FailsCleanly {σ τ : Type} (files : σ → τ) (Spared : Path → τ → τ → Prop)
    (Held : Path → String → τ → τ → Prop) (before : Session σ) (step : Step) (answer : Answer)
    (after : Session σ) : Prop where
  error : answer.IsError → after.files = before.files ∧
    (before.Leaves files Spared step after.codec ∨ ∃ path edits report, ∃ cause : AccessError,
      step = .update path edits false ∧ answer = .report report ∧
      report.error = some ("Failed to re-read attributes: " ++ cause.message) ∧
      Held path report.attributes.save (files before.codec) (files after.codec))
  abort : answer = .failed .abort →
    after.files = before.files ∧ before.Leaves files Spared step after.codec

end Session

section

variable {σ : Type} [Codec σ] {file : ImageFile} {codec after : σ}

theorem store_of_save_error {failure : Failure AccessError}
    (saved : file.save codec = (.error failure, after)) :
    ∃ cause, Codec.store file.path file.attributes.save codec = (.error cause, after) ∧
      cause.map .codec = failure := by
  unfold ImageFile.save at saved
  rcases stored : Codec.store file.path file.attributes.save codec with ⟨cause | _, middle⟩
  · rw [stored] at saved
    obtain ⟨same, rfl⟩ := Prod.mk.inj saved
    exact ⟨cause, rfl, Except.error.inj same⟩
  · simp [stored] at saved

theorem store_of_save_ok (saved : file.save codec = (.ok (), after)) :
    Codec.store file.path file.attributes.save codec = (.ok (), after) := by
  unfold ImageFile.save at saved
  rcases stored : Codec.store file.path file.attributes.save codec with ⟨_ | _, middle⟩
  · simp [stored] at saved
  · rw [stored] at saved
    rw [(Prod.mk.inj saved).2]

end

namespace Codec.Spares

variable {σ τ : Type} [Codec σ] {files : σ → τ} {Spared : Path → τ → τ → Prop}
  {Held : Path → String → τ → τ → Prop} (spares : Codec.Spares files Spared Held)

include spares

theorem openAt (path : Path) (codec : σ) :
    files (ImageFile.openAt path codec).2 = files codec := by
  rw [ImageFile.codec_openAt]
  exact spares.fetch path codec

theorem openAt_returns (path : Path) (codec after : σ) :
    ImageFile.openAt path codec ≠ (.error .abort, after) := by
  have returns := spares.returns path codec
  unfold ImageFile.openAt
  generalize Codec.fetch path codec = reply at returns ⊢
  rcases reply with ⟨(_ | _) | text, _⟩
  · simp [Failure.map]
  · exact absurd rfl returns
  · dsimp only
    cases Attributes.load text <;> simp

theorem store_failed {path : Path} {text : String} {codec after : σ} {failure : Failure CodecError}
    (stored : Codec.store path text codec = (.error failure, after)) :
    Spared path (files codec) (files after) := by
  have staged := spares.stage path text codec
  unfold Codec.store at stored
  generalize Codec.stage path text codec = reply at staged stored
  rcases reply with ⟨_ | _, middle⟩ <;> dsimp only at staged stored
  · rw [← (Prod.mk.inj stored).2, staged]
    exact spares.kept path (files codec)
  · have failed := spares.failed path middle failure (by rw [stored])
    rwa [stored, staged] at failed

theorem save_failed {file : ImageFile} {codec after : σ} {failure : Failure AccessError}
    (saved : file.save codec = (.error failure, after)) :
    Spared file.path (files codec) (files after) := by
  obtain ⟨cause, stored, -⟩ := store_of_save_error saved
  exact spares.store_failed stored

theorem save_stored {file : ImageFile} {codec after : σ} (saved : file.save codec = (.ok (), after)) :
    Held file.path file.attributes.save (files codec) (files after) := by
  have stored := store_of_save_ok saved
  have held := spares.stored file.path file.attributes.save codec (by rw [stored])
  rwa [stored] at held

theorem fileThumbnail (file : ImageFile) (codec : σ) :
    files (file.thumbnail codec).2 = files codec := by
  rw [ImageFile.codec_thumbnail]
  exact spares.thumbnail file.path codec

theorem inspect (zone : Zone) (path : Path) (codec : σ) :
    files (PhotoTags.inspect zone path codec).2 = files codec := by
  rw [codec_inspect]
  exact spares.fetch path codec

theorem edited {path : Path} {edits : List Edit} {codec opened : σ} {file : ImageFile}
    {updated : List String} (edited : Edited path edits codec opened file updated) :
    files opened = files codec := by
  obtain ⟨original, found, -⟩ := edited
  have kept := spares.openAt path codec
  rwa [found] at kept

/-- An update with an error to report has changed no file, unless it failed to write to the image or
to read back what it had stored. -/
theorem update_refused {zone : Zone} {path : Path} {edits : List Edit} {codec after : σ} {dryRun : Bool}
    {report : Report} (updating : Updating zone path edits codec dryRun (some report) after)
    (failed : report.error ≠ none) :
    files after = files codec ∨ dryRun = false ∧ (Spared path (files codec) (files after) ∨
      ∃ cause : AccessError,
        report.error = some ("Failed to re-read attributes: " ++ cause.message) ∧
        Held path report.attributes.save (files codec) (files after)) := by
  cases updating with
  | unopened found =>
      have kept := spares.openAt path codec
      rw [found] at kept
      exact .inl kept
  | dry edited => exact absurd rfl failed
  | idle edited => exact absurd rfl failed
  | unsaved edited _ saved =>
      have spared := spares.save_failed saved
      rw [edited.path_eq, spares.edited edited] at spared
      exact .inr ⟨rfl, .inl spared⟩
  | @unread file updated opened stored after cause edited _ saved read =>
      have held := spares.save_stored saved
      have kept := spares.openAt path stored
      rw [read] at kept
      rw [edited.path_eq, spares.edited edited, ← kept] at held
      exact .inr ⟨rfl, .inr ⟨cause, rfl, held⟩⟩
  | done edited _ saved read => exact absurd rfl failed

theorem update_aborted {zone : Zone} {path : Path} {edits : List Edit} {codec after : σ} {dryRun : Bool}
    (updating : Updating zone path edits codec dryRun none after) :
    dryRun = false ∧ Spared path (files codec) (files after) := by
  cases updating with
  | abortedOpening found => exact absurd found (spares.openAt_returns path codec after)
  | abortedSaving edited saved =>
      have spared := spares.save_failed saved
      rw [edited.path_eq, spares.edited edited] at spared
      exact ⟨rfl, spared⟩
  | abortedReading _ _ read => exact absurd read (spares.openAt_returns path _ after)

end Codec.Spares

namespace Session.FailsCleanly

variable {σ τ : Type} {files : σ → τ} {Spared : Path → τ → τ → Prop}
  {Held : Path → String → τ → τ → Prop} {before : Session σ} {step : Step} {path : Path}

theorem of_plain {answer : Answer} (after : Session σ) (noError : ¬ answer.IsError)
    (noAbort : answer ≠ .failed .abort) :
    FailsCleanly files Spared Held before step answer after :=
  ⟨fun error => absurd error noError, fun abort => absurd abort noAbort⟩

theorem of_notOpen : FailsCleanly files Spared Held before step .notOpen before :=
  ⟨fun _ => ⟨rfl, .inl (.inl rfl)⟩, fun abort => by simp at abort⟩

theorem of_failed {failure : Failure AccessError} {codec : σ}
    (left : before.Leaves files Spared step codec) :
    FailsCleanly files Spared Held before step (.failed failure) { before with codec } :=
  ⟨fun _ => ⟨rfl, .inl left⟩, fun _ => ⟨rfl, left⟩⟩

section

variable {α : Type} {encode : α → Answer} (noError : ∀ value, ¬ (encode value).IsError)
  (noAbort : ∀ value, encode value ≠ .failed .abort)

include noError noAbort

theorem of_call {reply : Reply σ α}
    (left : ∀ failure, reply.1 = .error failure → before.Leaves files Spared step reply.2) :
    FailsCleanly files Spared Held before step (before.afterCall encode reply).1
      (before.afterCall encode reply).2 := by
  rcases reply with ⟨failure | value, codec⟩
  · exact of_failed (left failure rfl)
  · exact of_plain _ (noError value) (noAbort value)

theorem of_access {access : Access σ α}
    (left : ∀ failure, access.1 = .error failure → before.Leaves files Spared step access.2) :
    FailsCleanly files Spared Held before step (before.afterAccess encode access).1
      (before.afterAccess encode access).2 := by
  rcases access with ⟨failure | value, codec⟩
  · exact of_failed (left failure rfl)
  · exact of_plain _ (noError value) (noAbort value)

end

theorem of_withFile {name : String} {work : ImageFile → Answer × Session σ}
    (works : ∀ file, before.file? name = some file →
      FailsCleanly files Spared Held before step (work file).1 (work file).2) :
    FailsCleanly files Spared Held before step (before.withFile name work).1
      (before.withFile name work).2 := by
  unfold withFile
  cases found : before.file? name with
  | none => exact of_notOpen
  | some file => exact works file found

end Session.FailsCleanly

namespace Codec.Spares

variable {σ τ : Type} [Codec σ] {files : σ → τ} {Spared : Path → τ → τ → Prop}
  {Held : Path → String → τ → τ → Prop} (spares : Codec.Spares files Spared Held)

include spares

theorem reading_failsCleanly (session : Session σ) (step : Step) (path : Path) (name : String) :
    session.FailsCleanly files Spared Held step
      (session.afterReading name (ImageFile.openAt path session.codec)).1
      (session.afterReading name (ImageFile.openAt path session.codec)).2 := by
  have kept := spares.openAt path session.codec
  generalize ImageFile.openAt path session.codec = access at kept ⊢
  rcases access with ⟨failure | file, codec⟩
  · exact .of_failed (.inl kept)
  · exact .of_plain _ id (by simp [Session.afterReading])

theorem inspect_failsCleanly (session : Session σ) (path : Path) :
    session.FailsCleanly files Spared Held (.inspect path)
      (session.afterReport (PhotoTags.inspect session.zone path session.codec)).1
      (session.afterReport (PhotoTags.inspect session.zone path session.codec)).2 := by
  have kept := spares.inspect session.zone path session.codec
  generalize PhotoTags.inspect session.zone path session.codec = result at kept ⊢
  rcases result with ⟨_ | report, codec⟩
  · exact .of_failed (.inl kept)
  · exact ⟨fun _ => ⟨rfl, .inl (.inl kept)⟩, fun abort => by simp [Session.afterReport] at abort⟩

theorem update_failsCleanly (session : Session σ) (path : Path) (edits : List Edit)
    (dryRun : Bool) :
    session.FailsCleanly files Spared Held (.update path edits dryRun)
      (session.afterReport (PhotoTags.update session.zone dryRun path edits session.codec)).1
      (session.afterReport (PhotoTags.update session.zone dryRun path edits session.codec)).2 := by
  have ended := update_updating session.zone dryRun path edits session.codec
  generalize PhotoTags.update session.zone dryRun path edits session.codec = result at ended ⊢
  rcases result with ⟨_ | report, codec⟩
  · obtain ⟨rfl, spared⟩ := spares.update_aborted ended
    exact .of_failed (.inr ⟨path, rfl, spared⟩)
  · refine ⟨fun failed => ⟨rfl, ?_⟩, fun abort => by simp [Session.afterReport] at abort⟩
    rcases spares.update_refused ended failed with kept | ⟨rfl, spared | ⟨cause, told, held⟩⟩
    · exact .inl (.inl kept)
    · exact .inl (.inr ⟨path, rfl, spared⟩)
    · exact .inr ⟨path, edits, report, cause, rfl, rfl, told, held⟩

theorem step_failsCleanly (session : Session σ) (step : Step) :
    session.FailsCleanly files Spared Held step (session.step step).1 (session.step step).2 := by
  cases step with
  | fetch path =>
      exact .of_call (fun _ => id) (by simp) fun _ _ => .inl (spares.fetch path session.codec)
  | stage path text =>
      exact .of_call (fun _ => id) (by simp) fun _ _ => .inl (spares.stage path text session.codec)
  | commit path =>
      exact .of_call (fun _ => id) (by simp) fun failure failed =>
        .inr ⟨path, rfl, spares.failed path session.codec failure failed⟩
  | thumbnail path =>
      exact .of_call (fun _ => id) (by simp) fun _ _ => .inl (spares.thumbnail path session.codec)
  | openFile name path => exact spares.reading_failsCleanly session _ path name
  | close name => exact .of_plain _ id (by simp [Session.step])
  | reload name => exact .of_withFile fun file _ => spares.reading_failsCleanly session _ file.path name
  | save name =>
      refine .of_withFile fun file found => ?_
      refine .of_access (fun _ => id) (by simp) fun failure failed => ?_
      exact .inr ⟨file.path, by simp [Session.writesTo?, found],
        spares.save_failed (Prod.ext failed rfl)⟩
  | fileThumbnail name =>
      refine .of_withFile fun file _ => ?_
      exact .of_access (fun _ => id) (by simp) fun _ _ =>
        .inl (spares.fileThumbnail file session.codec)
  | get name tag => exact .of_withFile fun file _ => .of_plain _ id (by simp)
  | set name tag value => exact .of_withFile fun file _ => .of_plain _ id (by simp)
  | inspect path => exact spares.inspect_failsCleanly session path
  | update path edits dryRun => exact spares.update_failsCleanly session path edits dryRun

end Codec.Spares

namespace JpegCodec

def files (codec : JpegCodec) : Bool × FileTree :=
  (codec.backups, codec.tree)

def OnlyBackupMade (path : Path) (before after : Bool × FileTree) : Prop :=
  after.1 = before.1 ∧ Image.OnlyBackupMade before.1 path before.2 after.2

def Written (path : Path) (text : String) (before after : Bool × FileTree) : Prop :=
  after.1 = before.1 ∧ ∃ entries saved, Exchange.decode text = .ok entries ∧
    Image.save before.1 path entries before.2 = (.ok saved, after.2)

theorem spares : Codec.Spares files OnlyBackupMade Written where
  kept path held := ⟨rfl, .refl held.1 path held.2⟩
  fetch path codec := by rw [fetch_unchanged]
  returns path codec := by
    show (fetch path codec).1 ≠ _
    unfold fetch
    split <;> simp [failed]
  thumbnail path codec := by rw [thumbnail_unchanged]
  stage path text codec := by
    cases decoded : Exchange.decode text with
    | error fault => rw [stage_malformed decoded]
    | ok entries => rw [stage_decoded decoded]; rfl
  failed path codec failure failed := by
    have noSuccess : ∀ value, (commit path codec).1 ≠ .ok value := fun value succeeded => by
      simpa using failed.symm.trans succeeded
    exact ⟨commit_backups path codec, (commit_contained path codec).failed noSuccess⟩
  stored path text codec stored := by
    cases decoded : Exchange.decode text with
    | error fault =>
        rw [store_of_malformed path codec decoded] at stored
        simp at stored
    | ok entries =>
        obtain ⟨saved, succeeded⟩ := save_of_store decoded (Prod.ext stored rfl)
        rw [store_of_decoded path codec decoded] at succeeded ⊢
        exact ⟨commit_backups path _, entries, saved, decoded, succeeded⟩

end JpegCodec

namespace MemoryCodec

def Unchanged (_ : Path) (before after : PathMap String × PathMap Bytes) : Prop :=
  after = before

def Written (path : Path) (text : String) (before after : PathMap String × PathMap Bytes) : Prop :=
  after.2 = before.2 ∧ ∀ other, after.1.get? other =
    if path.components = other.components then some text else before.1.get? other

theorem spares : Codec.Spares files Unchanged Written where
  kept _ _ := rfl
  fetch := files_fetch
  returns := fetch_returns
  thumbnail := files_thumbnail
  stage := files_stage
  failed path codec failure failed := by
    cases failure with
    | error cause => exact commit_refused failed
    | abort => exact absurd failed (commit_returns path codec)
  stored path text codec stored := by
    obtain ⟨armed, ⟨error, failed⟩ | ⟨error, failed⟩ | succeeded⟩ := store_cases path text codec
    · simp [failed] at stored
    · simp [failed] at stored
    · rw [succeeded]
      exact ⟨rfl, fun other => PathMap.get?_insert codec.texts path other text⟩

end MemoryCodec

/-- Whatever state a session has come to, a step with an error for an answer leaves the open images
and the files as they are, unless an update could not read back what it stored: then the file is as
it was stored. If it was writing a JPEG image that failed or aborted, the backup of the image may be
new, but no more than that. -/
theorem failing_steps_spare_files (steps : List Step) (step : Step) :
    (∀ session : Session MemoryCodec,
      (session.run steps).2.FailsCleanly MemoryCodec.files MemoryCodec.Unchanged
        MemoryCodec.Written step ((session.run steps).2.step step).1
        ((session.run steps).2.step step).2) ∧
    ∀ session : Session JpegCodec,
      (session.run steps).2.FailsCleanly JpegCodec.files JpegCodec.OnlyBackupMade
        JpegCodec.Written step ((session.run steps).2.step step).1
        ((session.run steps).2.step step).2 :=
  ⟨fun session => MemoryCodec.spares.step_failsCleanly (session.run steps).2 step,
    fun session => JpegCodec.spares.step_failsCleanly (session.run steps).2 step⟩

/-- An image that cannot be written gets a backup all the same. -/
example :
    let image : Bytes := [0xFF, 0xD8, 0xFF, 0xE0, 0, 2, 0xFF, 0xFE, 0, 2, 0xFF, 0xDA, 0, 3, 1, 9]
    let tree : FileTree :=
      { nodes := [(["a.jpg"], .file image)], barriers := [(["a.jpg"], .sealed)] }
    Image.save true ⟨"a.jpg"⟩ [("Make", "FOO")] tree = (.error (.error .unwritableFile),
      { tree with nodes := [(["a.jpg"], .file image), (["a.jpg.bak"], .file image)] }) := by
  decide +kernel

end PhotoTags

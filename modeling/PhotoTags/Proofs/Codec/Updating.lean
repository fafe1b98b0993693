import PhotoTags.Proofs.Codec.Recorded

/-!
How an update can end. Each of the ends has its own case, with the calls that led to it; what is
said about updates through one codec or another is read off these cases.
-/

namespace PhotoTags

variable {σ : Type} [Codec σ]

def Edited (path : Path) (edits : List Edit) (codec opened : σ) (file : ImageFile)
    (updated : List String) : Prop :=
  ∃ original, ImageFile.openAt path codec = (.ok original, opened) ∧
    applyEdits original edits = (file, updated)

theorem Edited.path_eq {path : Path} {edits : List Edit} {codec opened : σ} {file : ImageFile}
    {updated : List String} (edited : Edited path edits codec opened file updated) :
    file.path = path := by
  obtain ⟨original, found, applied⟩ := edited
  have kept := path_applyEdits original edits
  rw [applied, ImageFile.path_of_openAt found] at kept
  exact kept

/-- The ends of an update: the report, and the codec as it is then. -/
inductive Updating (zone : Zone) (path : Path) (edits : List Edit) (codec : σ) :
    Bool → Option Report → σ → Prop
  | unopened {dryRun : Bool} {cause : AccessError} {after : σ} :
      ImageFile.openAt path codec = (.error (.error cause), after) →
      Updating zone path edits codec dryRun (some (.failed path cause)) after
  | dry {file : ImageFile} {updated : List String} {opened : σ} :
      Edited path edits codec opened file updated →
      Updating zone path edits codec true
        (some { Report.ofFile zone file with updated, pending := some file.attributes.save }) opened
  | idle {file : ImageFile} {opened : σ} : Edited path edits codec opened file [] →
      Updating zone path edits codec false (some (.ofFile zone file)) opened
  | unsaved {file : ImageFile} {updated : List String} {opened after : σ} {cause : AccessError} :
      Edited path edits codec opened file updated → updated ≠ [] →
      file.save opened = (.error (.error cause), after) →
      Updating zone path edits codec false
        (some { Report.ofFile zone file with
          updated, error := some ("Failed to save attributes: " ++ cause.message) }) after
  | unread {file : ImageFile} {updated : List String} {opened stored after : σ}
      {cause : AccessError} :
      Edited path edits codec opened file updated → updated ≠ [] →
      file.save opened = (.ok (), stored) →
      ImageFile.openAt path stored = (.error (.error cause), after) →
      Updating zone path edits codec false
        (some { Report.ofFile zone file with
          updated, error := some ("Failed to re-read attributes: " ++ cause.message) }) after
  | done {file again : ImageFile} {updated : List String} {opened stored after : σ} :
      Edited path edits codec opened file updated → updated ≠ [] →
      file.save opened = (.ok (), stored) → ImageFile.openAt path stored = (.ok again, after) →
      Updating zone path edits codec false (some { Report.ofFile zone again with updated }) after
  | abortedOpening {dryRun : Bool} {after : σ} :
      ImageFile.openAt path codec = (.error .abort, after) →
      Updating zone path edits codec dryRun none after
  | abortedSaving {file : ImageFile} {updated : List String} {opened after : σ} :
      Edited path edits codec opened file updated → file.save opened = (.error .abort, after) →
      Updating zone path edits codec false none after
  | abortedReading {file : ImageFile} {updated : List String} {opened stored after : σ} :
      Edited path edits codec opened file updated → file.save opened = (.ok (), stored) →
      ImageFile.openAt path stored = (.error .abort, after) →
      Updating zone path edits codec false none after

theorem saveEdited_updating {zone : Zone} {path : Path} {edits : List Edit} {codec opened : σ}
    {file : ImageFile}
    {updated : List String} (edited : Edited path edits codec opened file updated)
    (changed : updated ≠ []) :
    Updating zone path edits codec false (saveEdited zone file updated opened).1
      (saveEdited zone file updated opened).2 := by
  unfold saveEdited
  rcases saved : file.save opened with ⟨(cause | _) | _, stored⟩
  · exact .unsaved edited changed saved
  · exact .abortedSaving edited saved
  · dsimp only [ImageFile.reload]
    rw [edited.path_eq]
    rcases read : ImageFile.openAt path stored with ⟨(cause | _) | again, after⟩
    · exact .unread edited changed saved read
    · exact .abortedReading edited saved read
    · exact .done edited changed saved read

theorem update_updating (zone : Zone) (dryRun : Bool) (path : Path) (edits : List Edit) (codec : σ) :
    Updating zone path edits codec dryRun (update zone dryRun path edits codec).1
      (update zone dryRun path edits codec).2 := by
  unfold update
  rcases found : ImageFile.openAt path codec with ⟨(cause | _) | original, opened⟩
  · exact .unopened found
  · exact .abortedOpening found
  · rcases applied : applyEdits original edits with ⟨file, updated⟩
    have edited : Edited path edits codec opened file updated := ⟨original, found, applied⟩
    simp only [applied]
    cases dryRun with
    | true => exact .dry edited
    | false =>
        cases updated with
        | nil => exact .idle edited
        | cons name others => exact saveEdited_updating edited (List.cons_ne_nil name others)

end PhotoTags

import PhotoTags.Proofs.Codec.Reporting

/-!
What a dry run of an update is worth. It asks the codec for what an image holds and for nothing
else, so that it changes nothing; and it names the tags that the update would name and the very text
that the update would stage.
-/

namespace PhotoTags

open Attributes (wellFormed_of_load)

def Codec.Call.staged? : Codec.Call → Option (Path × String)
  | .stage path text _ => some (path, text)
  | _ => none

namespace Recorded

variable {σ : Type} [Codec σ]

omit [Codec σ] in
def stagings (recorded : Recorded σ) : List (Path × String) :=
  recorded.calls.filterMap Codec.Call.staged?

theorem calls_openAt (path : Path) (recorded : Recorded σ) :
    (ImageFile.openAt path recorded).2.calls =
      recorded.calls ++ [.fetch path (Codec.fetch path recorded.codec).1.isOk] := by
  rw [ImageFile.codec_openAt]
  rfl

theorem stagings_openAt (path : Path) (recorded : Recorded σ) :
    (ImageFile.openAt path recorded).2.stagings = recorded.stagings := by
  simp [stagings, calls_openAt, Codec.Call.staged?]

theorem stagings_store (path : Path) (text : String) (recorded : Recorded σ) :
    (Codec.store path text recorded).2.stagings = recorded.stagings ++ [(path, text)] := by
  have staged : Codec.stage path text recorded =
      recorded.after (.stage path text) (Codec.stage path text recorded.codec) := rfl
  have committed (later : Recorded σ) : Codec.commit path later =
      later.after (.commit path) (Codec.commit path later.codec) := rfl
  unfold Codec.store
  rw [staged, after]
  rcases Codec.stage path text recorded.codec with ⟨_ | _, later⟩
  · simp [stagings, Codec.Call.staged?]
  · dsimp only
    simp [committed, after, stagings, Codec.Call.staged?]

theorem stagings_save (file : ImageFile) (recorded : Recorded σ) :
    (file.save recorded).2.stagings =
      recorded.stagings ++ [(file.path, file.attributes.save)] := by
  rw [ImageFile.codec_save]
  exact stagings_store file.path file.attributes.save recorded

theorem stagings_saveEdited (zone : Zone) (file : ImageFile) (updated : List String)
    (recorded : Recorded σ) :
    (saveEdited zone file updated recorded).2.stagings =
      recorded.stagings ++ [(file.path, file.attributes.save)] := by
  have saved := stagings_save file recorded
  unfold saveEdited
  generalize file.save recorded = access at saved ⊢
  rcases access with ⟨(_ | _) | _, middle⟩
  · exact saved
  · exact saved
  · have reopened := stagings_openAt file.path middle
    dsimp only [ImageFile.reload]
    generalize ImageFile.openAt file.path middle = access at reopened ⊢
    rcases access with ⟨(_ | _) | _, last⟩ <;> exact reopened.trans saved

end Recorded

section

variable {σ : Type} [Codec σ] {zone : Zone} {path : Path} {edits : List Edit} {codec opened : σ}
  {file : ImageFile} {updated : List String}

theorem Edited.update_eq (edited : Edited path edits codec opened file updated) :
    update zone false path edits codec =
      if updated = [] then (some (.ofFile zone file), opened)
      else saveEdited zone file updated opened := by
  obtain ⟨original, found, applied⟩ := edited
  simp only [update, found, applied, Bool.false_eq_true, if_false, List.isEmpty_iff]

theorem Edited.unique {other : σ} {otherFile : ImageFile} {others : List String}
    (edited : Edited path edits codec opened file updated)
    (again : Edited path edits codec other otherFile others) :
    opened = other ∧ file = otherFile ∧ updated = others := by
  obtain ⟨original, found, applied⟩ := edited
  obtain ⟨second, foundAgain, appliedAgain⟩ := again
  obtain ⟨answer, rfl⟩ := Prod.mk.inj (found.symm.trans foundAgain)
  obtain rfl := Except.ok.inj answer
  obtain ⟨rfl, rfl⟩ := Prod.mk.inj (applied.symm.trans appliedAgain)
  exact ⟨rfl, rfl, rfl⟩

theorem Updating.updated_eq {dryRun : Bool} {report : Report} {after : σ}
    (ended : Updating zone path edits codec dryRun (some report) after)
    (edited : Edited path edits codec opened file updated) : report.updated = updated := by
  cases ended with
  | unopened found =>
      obtain ⟨original, other, -⟩ := edited
      simp [found] at other
  | dry again => exact (again.unique edited).2.2
  | idle again => exact (again.unique edited).2.2
  | unsaved again _ saved => exact (again.unique edited).2.2
  | unread again _ saved read => exact (again.unique edited).2.2
  | done again _ saved read => exact (again.unique edited).2.2

theorem Edited.recorded (edited : Edited path edits codec opened file updated) :
    Edited path edits (Recorded.new codec)
      ⟨opened, [.fetch path (Codec.fetch path codec).1.isOk]⟩ file updated := by
  obtain ⟨original, found, applied⟩ := edited
  have same := Recorded.hom.openAt path (Recorded.new codec)
  have calls := Recorded.calls_openAt path (Recorded.new codec)
  rcases access : ImageFile.openAt path (Recorded.new codec) with ⟨answer, ⟨later, made⟩⟩
  rw [access] at same calls
  obtain ⟨answered, rfl⟩ := Prod.mk.inj (found.symm.trans same)
  dsimp only at answered calls
  subst answered calls
  exact ⟨original, access, applied⟩

end

/-- What the report of a dry run, if the image can be opened, says of the update from the same
state: `pending` is the text of the attributes with the edits made, and it is what the update stages
for the path, if it names any tag as changed; the tags that it names are `updated`. -/
structure Previews {σ : Type} [Codec σ] (zone : Zone) (path : Path) (edits : List Edit) (codec : σ)
    (dry : Report) : Prop where
  asked : ∃ ok, (update zone true path edits (Recorded.new codec)).2.calls = [.fetch path ok]
  pending : ∀ text after loaded, Codec.fetch path codec = (.ok text, after) →
    Attributes.load text = .ok loaded → ∃ attributes, loaded.Overridden edits attributes ∧
      dry.pending = some (Exchange.encode attributes.entries)
  updated : ∀ report after, update zone false path edits codec = (some report, after) →
    report.updated = dry.updated
  staged : (update zone false path edits (Recorded.new codec)).2.stagings =
    if dry.updated = [] then [] else dry.pending.toList.map fun text => (path, text)

section

variable {σ : Type} [Codec σ] {zone : Zone} {path : Path} {edits : List Edit} {codec after : σ}

theorem update_of_unopened {failure : Failure AccessError} (dryRun : Bool)
    (found : ImageFile.openAt path codec = (.error failure, after)) :
    (update zone dryRun path edits codec).2 = after := by
  unfold update
  rw [found]
  cases failure <;> rfl

theorem dry_run_eq (zone : Zone) (path : Path) (edits : List Edit) (codec : σ) :
    (update zone true path edits codec).2 = (ImageFile.openAt path codec).2 := by
  unfold update
  rcases ImageFile.openAt path codec with ⟨(_ | _) | _, later⟩ <;> rfl

theorem asked_dry_run (zone : Zone) (path : Path) (edits : List Edit) (codec : σ) :
    ∃ ok, (update zone true path edits (Recorded.new codec)).2.calls = [.fetch path ok] := by
  rw [dry_run_eq, Recorded.calls_openAt]
  exact ⟨_, rfl⟩

theorem ImageFile.openAt_of_load {text : String} {loaded : Attributes}
    (fetched : Codec.fetch path codec = (.ok text, after))
    (read : Attributes.load text = .ok loaded) :
    ImageFile.openAt path codec = (.ok ⟨path, loaded⟩, after) := by
  simp [ImageFile.openAt, fetched, read]

theorem previews_of_unopened {cause : AccessError}
    (found : ImageFile.openAt path codec = (.error (.error cause), after)) :
    Previews zone path edits codec (.failed path cause) where
  asked := asked_dry_run zone path edits codec
  pending text later loaded fetched read := by
    simp [ImageFile.openAt_of_load fetched read] at found
  updated report later reported := by
    have ended := update_updating zone false path edits codec
    rw [reported] at ended
    cases ended with
    | unopened _ => rfl
    | idle edited => obtain ⟨original, other, -⟩ := edited; simp [found] at other
    | unsaved edited => obtain ⟨original, other, -⟩ := edited; simp [found] at other
    | unread edited => obtain ⟨original, other, -⟩ := edited; simp [found] at other
    | done edited => obtain ⟨original, other, -⟩ := edited; simp [found] at other
  staged := by
    have same := Recorded.hom.openAt path (Recorded.new codec)
    have stagings := Recorded.stagings_openAt path (Recorded.new codec)
    rcases access : ImageFile.openAt path (Recorded.new codec) with ⟨answer, recorded⟩
    rw [access] at same stagings
    obtain rfl : Except.error (.error cause) = answer :=
      (Prod.mk.inj (found.symm.trans same)).1
    rw [update_of_unopened false access, stagings]
    rfl

theorem previews_of_edited {file : ImageFile} {updated : List String}
    (edited : Edited path edits codec after file updated) :
    Previews zone path edits codec
      { Report.ofFile zone file with updated, pending := some file.attributes.save } where
  asked := asked_dry_run zone path edits codec
  pending text later loaded fetched read := by
    obtain ⟨original, found, applied⟩ := edited
    obtain ⟨answer, -⟩ := Prod.mk.inj
      (found.symm.trans (ImageFile.openAt_of_load fetched read))
    obtain rfl := Except.ok.inj answer
    have overridden : loaded.Overridden edits
        (edits.foldl applyEdit (⟨path, loaded⟩, [])).1.attributes :=
      overridden_foldl_applyEdit edits [] (wellFormed_of_load read)
    rw [← applyEdits, applied] at overridden
    exact ⟨file.attributes, overridden, rfl⟩
  updated report later reported := by
    have ended := update_updating zone false path edits codec
    rw [reported] at ended
    exact ended.updated_eq edited
  staged := by
    rw [edited.recorded.update_eq]
    dsimp only
    split
    · rfl
    · rw [Recorded.stagings_saveEdited, edited.path_eq]
      rfl

theorem exists_previews (zone : Zone) (edits : List Edit)
    (returns : ∀ after, ImageFile.openAt path codec ≠ (.error .abort, after)) :
    ∃ dry, update zone true path edits codec = (some dry, (ImageFile.openAt path codec).2) ∧
      Previews zone path edits codec dry := by
  have ended := update_updating zone true path edits codec
  have left := dry_run_eq zone path edits codec
  generalize update zone true path edits codec = result at ended left ⊢
  rcases result with ⟨answer, after⟩
  dsimp only at ended left
  subst left
  cases ended with
  | unopened found => exact ⟨_, rfl, previews_of_unopened found⟩
  | dry edited => exact ⟨_, rfl, previews_of_edited edited⟩
  | abortedOpening found => exact absurd found (returns _)

end

/-- A dry run of an update changes nothing behind a codec but the failures that are armed, and its
report tells what the update would do. -/
theorem dry_run_previews (zone : Zone) (path : Path) (edits : List Edit) :
    (∀ codec : JpegCodec, ∃ dry, update zone true path edits codec = (some dry, codec) ∧
      Previews zone path edits codec dry) ∧
    ∀ codec : MemoryCodec, ∃ dry armed,
      update zone true path edits codec = (some dry, { codec with armed }) ∧
        Previews zone path edits codec dry := by
  constructor
  · intro codec
    obtain ⟨dry, reported, previews⟩ :=
      exists_previews zone edits (JpegCodec.spares.openAt_returns path codec)
    rw [JpegCodec.openAt_unchanged] at reported
    exact ⟨dry, reported, previews⟩
  · intro codec
    obtain ⟨dry, reported, previews⟩ :=
      exists_previews zone edits (MemoryCodec.spares.openAt_returns path codec)
    rw [MemoryCodec.eq_of_openAt (Prod.mk.eta (p := ImageFile.openAt path codec)).symm] at reported
    exact ⟨dry, _, reported, previews⟩

theorem dry_run_previews_edited_twice :
    let path : Path := ⟨"a.jpg"⟩
    let codec : MemoryCodec := ⟨⟨[(path.components, "2 Make=3 FOOModel=1 M")]⟩, .empty, .empty, []⟩
    let edits : List Edit :=
      [("Make", "BAR"), ("Model", "M"), ("hasThumbnail", "true"), ("Make", "FOO")]
    ∃ dry, update .utc true path edits codec = (some dry, codec) ∧
      dry.updated = ["Make", "hasThumbnail", "Make"] ∧
      (update .utc false path edits (Recorded.new codec)).2.stagings =
        [(path, "2 Make=3 FOOModel=1 M")] := by
  intro path codec edits
  obtain ⟨dry, armed, reported, previews⟩ := (dry_run_previews .utc path edits).2 codec
  have shown : (update .utc true path edits codec).1.map
      (fun report => (report.updated, report.pending)) =
      some (["Make", "hasThumbnail", "Make"], some "2 Make=3 FOOModel=1 M") := by decide +kernel
  have left : (update .utc true path edits codec).2 = codec := by decide +kernel
  have staged := previews.staged
  rw [reported] at shown left
  obtain ⟨updated, pending⟩ := Prod.mk.inj (Option.some.inj shown)
  rw [updated, pending] at staged
  exact ⟨dry, by rw [reported, ← left], updated, staged⟩

end PhotoTags

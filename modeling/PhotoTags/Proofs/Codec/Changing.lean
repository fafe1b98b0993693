import PhotoTags.Proofs.Codec.Previewing

/-!
Which edits an update names. Setting a value changes the attributes unless they hold it already or
the name is that of the thumbnail entry, which is never set. An update compares values only, so that
it names the edits that change the attributes they are made to, and those of the thumbnail entry,
which change nothing. If it names none it asks the codec for nothing but what the image holds.
-/

namespace PhotoTags

open Attributes (wellFormed_of_load)

/-- The edits in their order, each with the attributes that it is made to. -/
def Attributes.turns (attributes : Attributes) : List Edit → List (Attributes × Edit)
  | [] => []
  | edit :: rest => (attributes, edit) :: (attributes.set edit.1 edit.2).turns rest

def Changes (turn : Attributes × Edit) : Prop :=
  turn.1.set turn.2.1 turn.2.2 ≠ turn.1

instance : DecidablePred Changes := fun turn =>
  inferInstanceAs (Decidable (turn.1.set turn.2.1 turn.2.2 ≠ turn.1))

def OfThumbnail (edit : Edit) : Prop :=
  edit.1 = Exchange.thumbnailName

instance : DecidablePred OfThumbnail := fun edit =>
  inferInstanceAs (Decidable (edit.1 = Exchange.thumbnailName))

namespace Attributes

def changedNames (attributes : Attributes) (edits : List Edit) : List String :=
  ((attributes.turns edits).filter fun turn => Changes turn).map (·.2.1)

def reportedNames (attributes : Attributes) (edits : List Edit) : List String :=
  ((attributes.turns edits).filter fun turn => Changes turn ∨ OfThumbnail turn.2).map (·.2.1)

theorem WellFormed.get?_eq_some_iff {attributes : Attributes} (wellFormed : WellFormed attributes)
    (edit : Edit) : attributes.get? edit.1 = some edit.2 ↔
      ¬ (Changes (attributes, edit) ∨ OfThumbnail edit) := by
  rw [not_or, Changes, not_not]
  constructor
  · intro held
    refine ⟨wellFormed.set_of_get? held, fun thumbnail => ?_⟩
    rw [thumbnail, wellFormed.get?_thumbnailName] at held
    simp at held
  · rintro ⟨same, isTag⟩
    have held := get?_set attributes edit.1 edit.1 edit.2 isTag
    rwa [same, if_pos rfl] at held

theorem not_changes_of_thumbnail {turn : Attributes × Edit} (thumbnail : OfThumbnail turn.2) :
    ¬ Changes turn := by
  rw [Changes, thumbnail, set_thumbnailName]
  exact fun differs => differs rfl

theorem map_turns (attributes : Attributes) (edits : List Edit) :
    (attributes.turns edits).map (·.2) = edits := by
  induction edits generalizing attributes with
  | nil => rfl
  | cons edit rest ih => rw [turns, List.map_cons, ih]

theorem forall_turns_iff (attributes : Attributes) (edits : List Edit) (holds : Edit → Prop) :
    (∀ turn ∈ attributes.turns edits, holds turn.2) ↔ ∀ edit ∈ edits, holds edit := by
  have made := List.forall_mem_map (f := fun turn : Attributes × Edit => turn.2) (P := holds)
    (l := attributes.turns edits)
  rw [map_turns] at made
  exact made.symm

theorem reportedNames_cons (attributes : Attributes) (edit : Edit) (rest : List Edit) :
    attributes.reportedNames (edit :: rest) =
      (if Changes (attributes, edit) ∨ OfThumbnail edit then [edit.1] else []) ++
        (attributes.set edit.1 edit.2).reportedNames rest := by
  simp only [reportedNames, turns, List.filter_cons, decide_eq_true_eq]
  split <;> rfl

theorem reportedNames_eq_nil_iff (attributes : Attributes) (edits : List Edit) :
    attributes.reportedNames edits = [] ↔
      (∀ turn ∈ attributes.turns edits, ¬ Changes turn) ∧ ∀ edit ∈ edits, ¬ OfThumbnail edit := by
  rw [reportedNames, List.map_eq_nil_iff, List.filter_eq_nil_iff,
    ← forall_turns_iff attributes edits (¬ OfThumbnail ·)]
  simp only [decide_eq_true_eq, not_or]
  exact forall₂_and

/-- The names are those of the edits that change the attributes, and no others, if and only if none
of the edits is one of the thumbnail entry. -/
theorem reportedNames_eq_iff (attributes : Attributes) (edits : List Edit) :
    attributes.reportedNames edits = attributes.changedNames edits ↔
      ∀ edit ∈ edits, ¬ OfThumbnail edit := by
  rw [← forall_turns_iff attributes edits (¬ OfThumbnail ·)]
  constructor
  · intro same turn member thumbnail
    have part : List.Sublist ((attributes.turns edits).filter fun turn => Changes turn)
        ((attributes.turns edits).filter fun turn => Changes turn ∨ OfThumbnail turn.2) :=
      List.monotone_filter_right _ fun turn changes => by simp_all
    have whole := part.eq_of_length (by simpa [reportedNames, changedNames] using
      (congrArg List.length same).symm)
    have reported : turn ∈ (attributes.turns edits).filter fun turn =>
        Changes turn ∨ OfThumbnail turn.2 :=
      List.mem_filter.mpr ⟨member, by simp [thumbnail]⟩
    rw [← whole, List.mem_filter, decide_eq_true_eq] at reported
    exact not_changes_of_thumbnail thumbnail reported.2
  · intro tags
    rw [reportedNames, changedNames]
    refine congrArg _ (List.filter_congr fun turn member => ?_)
    simp [tags turn member]

end Attributes

theorem snd_foldl_applyEdit {file : ImageFile} (edits : List Edit) (updated : List String)
    (wellFormed : file.attributes.WellFormed) :
    (edits.foldl applyEdit (file, updated)).2 =
      updated ++ file.attributes.reportedNames edits := by
  induction edits generalizing file updated with
  | nil => exact (List.append_nil updated).symm
  | cons edit rest ih =>
      have later : (file.set edit.1 edit.2).attributes.WellFormed := wellFormed.set edit.1 edit.2
      rw [List.foldl_cons, applyEdit, ih _ later, Attributes.reportedNames_cons, ← List.append_assoc]
      simp only [ImageFile.get?, wellFormed.get?_eq_some_iff, ite_not]
      refine congrArg (· ++ _) ?_
      split
      · rfl
      · exact (List.append_nil updated).symm

/-- What an update of an image that opens with the attributes says and does about the edits. It names
those that change the attributes and those of the thumbnail entry; if there are neither it asks the
codec for nothing but what the image holds, and leaves it as it was opened. -/
structure NamesChanges {σ : Type} [Codec σ] (zone : Zone) (path : Path) (edits : List Edit)
    (codec opened : σ) (attributes : Attributes) : Prop where
  updated : ∀ dryRun report after, update zone dryRun path edits codec = (some report, after) →
    report.updated = attributes.reportedNames edits
  named : attributes.reportedNames edits = attributes.changedNames edits ↔
    ∀ edit ∈ edits, ¬ OfThumbnail edit
  asked : (∃ ok, (update zone false path edits (Recorded.new codec)).2.calls = [.fetch path ok]) ↔
    (∀ turn ∈ attributes.turns edits, ¬ Changes turn) ∧ ∀ edit ∈ edits, ¬ OfThumbnail edit
  idle : (∀ turn ∈ attributes.turns edits, ¬ Changes turn) → (∀ edit ∈ edits, ¬ OfThumbnail edit) →
    ∀ dryRun, (update zone dryRun path edits codec).2 = opened

section

variable {σ : Type} [Codec σ] {zone : Zone} {path : Path} {edits : List Edit} {codec opened : σ}

theorem edited_of_openAt {original : ImageFile}
    (found : ImageFile.openAt path codec = (.ok original, opened)) :
    Edited path edits codec opened (applyEdits original edits).1
      (original.attributes.reportedNames edits) := by
  obtain ⟨text, -, loaded⟩ := ImageFile.fetch_of_openAt found
  refine ⟨original, found, Prod.ext rfl ?_⟩
  exact snd_foldl_applyEdit edits [] (wellFormed_of_load loaded)

theorem Edited.asked_iff {file : ImageFile} {updated : List String}
    (edited : Edited path edits codec opened file updated) :
    (∃ ok, (update zone false path edits (Recorded.new codec)).2.calls = [.fetch path ok]) ↔
      updated = [] := by
  rw [edited.recorded.update_eq]
  constructor
  · rintro ⟨ok, asked⟩
    by_contra named
    rw [if_neg named] at asked
    have staged := Recorded.stagings_saveEdited zone file updated
      ⟨opened, [.fetch path (Codec.fetch path codec).1.isOk]⟩
    rw [Recorded.stagings, asked] at staged
    simp [Recorded.stagings, List.filterMap_cons, Codec.Call.staged?] at staged
  · intro none
    rw [if_pos none]
    exact ⟨_, rfl⟩

theorem namesChanges_of_openAt {original : ImageFile}
    (found : ImageFile.openAt path codec = (.ok original, opened)) :
    NamesChanges zone path edits codec opened original.attributes where
  updated dryRun report after reported := by
    have ended := update_updating zone dryRun path edits codec
    rw [reported] at ended
    exact ended.updated_eq (edited_of_openAt found)
  named := original.attributes.reportedNames_eq_iff edits
  asked := by
    rw [← original.attributes.reportedNames_eq_nil_iff]
    exact (edited_of_openAt found).asked_iff
  idle unchanged tags dryRun := by
    have none := (original.attributes.reportedNames_eq_nil_iff edits).mpr ⟨unchanged, tags⟩
    cases dryRun with
    | true => rw [dry_run_eq, found]
    | false => rw [(edited_of_openAt found).update_eq, if_pos none]

theorem asked_of_unopened {failure : Failure AccessError}
    (found : ImageFile.openAt path codec = (.error failure, opened)) (dryRun : Bool) :
    ∃ ok, (update zone dryRun path edits (Recorded.new codec)).2.calls = [.fetch path ok] := by
  have same := Recorded.hom.openAt path (Recorded.new codec)
  have calls := Recorded.calls_openAt path (Recorded.new codec)
  rcases access : ImageFile.openAt path (Recorded.new codec) with ⟨answer, recorded⟩
  rw [access] at same calls
  obtain rfl : Except.error failure = answer := (Prod.mk.inj (found.symm.trans same)).1
  rw [update_of_unopened dryRun access]
  exact ⟨_, calls⟩

theorem updated_of_unopened {failure : Failure AccessError} {dryRun : Bool} {report : Report}
    {after : σ} (found : ImageFile.openAt path codec = (.error failure, opened))
    (reported : update zone dryRun path edits codec = (some report, after)) :
    report.updated = [] := by
  unfold update at reported
  rw [found] at reported
  cases failure with
  | error cause =>
      obtain ⟨told, -⟩ := Prod.mk.inj reported
      rw [← Option.some.inj told]
      rfl
  | abort => simp at reported

end

/-- An update names the edits that change the attributes they are made to, in their order, and it
stores nothing if there are none, edits of the thumbnail entry apart: these it always names. Of an
image that cannot be opened it names no edits and stores nothing, and opening leaves images and what
is staged as they are. -/
theorem update_names_changes (zone : Zone) (path : Path) (edits : List Edit) :
    (∀ {σ : Type} [Codec σ] (codec opened : σ) (original : ImageFile),
      ImageFile.openAt path codec = (.ok original, opened) →
        NamesChanges zone path edits codec opened original.attributes) ∧
    (∀ {σ : Type} [Codec σ] (codec opened : σ) (failure : Failure AccessError) (dryRun : Bool),
      ImageFile.openAt path codec = (.error failure, opened) →
        (∀ report after, update zone dryRun path edits codec = (some report, after) →
          report.updated = []) ∧
        ∃ ok, (update zone dryRun path edits (Recorded.new codec)).2.calls = [.fetch path ok]) ∧
    (∀ codec : JpegCodec, (ImageFile.openAt path codec).2 = codec) ∧
    ∀ codec : MemoryCodec, ∃ armed, (ImageFile.openAt path codec).2 = { codec with armed } := by
  refine ⟨fun codec opened original found => namesChanges_of_openAt found, ?_, ?_, ?_⟩
  · intro σ _ codec opened failure dryRun found
    exact ⟨fun report after => updated_of_unopened found, asked_of_unopened found dryRun⟩
  · exact JpegCodec.openAt_unchanged path
  · intro codec
    rcases found : ImageFile.openAt path codec with ⟨answer, after⟩
    exact ⟨_, MemoryCodec.eq_of_openAt found⟩

theorem update_names_change_and_return :
    let path : Path := ⟨"a.jpg"⟩
    let codec : MemoryCodec := ⟨⟨[(path.components, "2 Make=3 FOOModel=1 M")]⟩, .empty, .empty, []⟩
    let edits : List Edit := [("Make", "BAR"), ("Model", "M"), ("Make", "BAR"), ("Make", "FOO")]
    ∃ original opened, ImageFile.openAt path codec = (.ok original, opened) ∧
      NamesChanges .utc path edits codec opened original.attributes ∧
      original.attributes.changedNames edits = ["Make", "Make"] ∧
      (update .utc false path edits codec).1.map (·.updated) = some ["Make", "Make"] := by
  intro path codec edits
  let original : ImageFile := ⟨path, ⟨[("Make", "FOO"), ("Model", "M")], false⟩⟩
  have found : ImageFile.openAt path codec = (.ok original, codec) := by decide +kernel
  have names := (update_names_changes .utc path edits).1 codec codec original found
  have changed : original.attributes.changedNames edits = ["Make", "Make"] := by decide +kernel
  have tags : ∀ edit ∈ edits, ¬ OfThumbnail edit := by decide
  have shown : ∃ report, (update .utc false path edits codec).1 = some report := by
    refine Option.isSome_iff_exists.mp ?_
    decide +kernel
  obtain ⟨report, shown⟩ := shown
  refine ⟨original, codec, found, names, changed, ?_⟩
  rw [shown, Option.map_some,
    names.updated false report (update .utc false path edits codec).2 (Prod.ext shown rfl),
    names.named.mpr tags, changed]

/-- An edit of the thumbnail entry changes nothing, but it is named and the text is written anew. -/
theorem update_names_thumbnail :
    let path : Path := ⟨"a.jpg"⟩
    let codec : MemoryCodec := ⟨⟨[(path.components, "01 Make=3 FOO")]⟩, .empty, .empty, []⟩
    let edits : List Edit := [("hasThumbnail", "true")]
    let original : ImageFile := ⟨path, ⟨[("Make", "FOO")], false⟩⟩
    ImageFile.openAt path codec = (.ok original, codec) ∧
      (∀ turn ∈ original.attributes.turns edits, ¬ Changes turn) ∧
      (update .utc false path edits codec).1.map (·.updated) = some ["hasThumbnail"] ∧
      (update .utc false path edits (Recorded.new codec)).2.calls = [.fetch path true,
        .stage path "1 Make=3 FOO" true, .commit path true, .fetch path true] ∧
      (update .utc false path edits codec).2.texts.get? path = some "1 Make=3 FOO" := by
  decide +kernel

end PhotoTags

import PhotoTags.Proofs.Codec.Changing

/-!
Updates made twice. What an update without an error leaves in memory holds its edits, so that the same
update changes no value any more: it does what an inspection does, and stores nothing.
-/

namespace PhotoTags

section

variable {σ : Type} [Codec σ] {zone : Zone} {path : Path} {edits : List Edit} {codec : σ}

theorem applyEdits_of_held {file : ImageFile} (wellFormed : file.attributes.WellFormed)
    (held : ∀ edit ∈ edits, file.get? edit.1 = some edit.2) : applyEdits file edits = (file, []) := by
  unfold applyEdits
  induction edits with
  | nil => rfl
  | cons edit rest ih =>
      obtain ⟨first, later⟩ := List.forall_mem_cons.mp held
      rw [List.foldl_cons, applyEdit_of_held wellFormed first]
      exact ih later

theorem update_eq_inspect
    (held : ∀ file opened, ImageFile.openAt path codec = (.ok file, opened) →
      ∀ edit ∈ edits, file.get? edit.1 = some edit.2) :
    update zone false path edits codec = inspect zone path codec := by
  rcases found : ImageFile.openAt path codec with ⟨(cause | _) | file, opened⟩
  · simp only [update, inspect, found]
  · simp only [update, inspect, found]
  · obtain ⟨text, -, loaded⟩ := ImageFile.fetch_of_openAt found
    have edited : Edited path edits codec opened file [] :=
      ⟨file, found, applyEdits_of_held (Attributes.wellFormed_of_load loaded) (held file opened found)⟩
    rw [edited.update_eq, if_pos rfl, inspect, found]

end

namespace Attributes

/-- Of edits with different names each one holds. -/
theorem Overridden.get?_of_mem {loaded attributes : Attributes} {edits : List Edit}
    (overridden : loaded.Overridden edits attributes) (distinct : (edits.map (·.1)).Nodup)
    (tags : ∀ edit ∈ edits, ¬ OfThumbnail edit) :
    ∀ edit ∈ edits, attributes.get? edit.1 = some edit.2 := by
  intro edit member
  have kept : Exchange.withoutThumbnail edits = edits :=
    List.filter_eq_self.mpr fun other listed => by simpa [OfThumbnail] using tags other listed
  obtain ⟨-, -, values⟩ := overridden
  rw [values, kept, (Image.lastValue?_eq_some_iff distinct).mpr member, Option.some_or]

theorem WellFormed.eq_of_load_save {attributes again : Attributes} (wellFormed : WellFormed attributes)
    (namesFree : NamesFree attributes) (loaded : load attributes.save = .ok again) :
    again = ⟨attributes.entries, false⟩ := by
  have decoded := MemoryCodec.decode_of_stored wellFormed namesFree (.inl ⟨again, loaded⟩)
  obtain ⟨entries, decodedAgain, same⟩ := load_eq_ok_iff.mp loaded
  obtain rfl := Except.ok.inj (decoded.symm.trans decodedAgain)
  rw [← same, ofEntries_of_ordered wellFormed.ordered wellFormed.noThumbnail]

end Attributes

namespace MemoryCodec

section

variable {zone : Zone} {path : Path} {edits : List Edit} {codec after : MemoryCodec}
  {report : Report}

theorem held_of_update (distinct : (edits.map (·.1)).Nodup)
    (editsFree : ∀ edit ∈ edits, '=' ∉ edit.1.toList) (tags : ∀ edit ∈ edits, ¬ OfThumbnail edit)
    (ended : Updating zone path edits codec false (some report) after)
    (noError : report.error = none) :
    ∃ before file, ImageFile.openAt path before = (.ok file, after) ∧
      ∀ edit ∈ edits, file.get? edit.1 = some edit.2 := by
  cases ended with
  | unopened found => simp [Report.failed] at noError
  | idle edited =>
      obtain ⟨text, loaded, -, -, overridden⟩ := overridden_of_edited edited
      exact ⟨codec, _, edited.openAt_of_idle, overridden.get?_of_mem distinct tags⟩
  | unsaved edited _ saved => simp at noError
  | unread edited _ saved read => simp at noError
  | @done file again updated opened stored _ edited changed saved read =>
      refine ⟨stored, again, read, ?_⟩
      obtain ⟨text, loaded, -, wasLoaded, overridden⟩ := overridden_of_edited edited
      have namesFree := overridden.namesFree (Attributes.namesFree_of_load wasLoaded)
        (Attributes.wellFormed_of_load wasLoaded) editsFree
      have loadedAgain : Attributes.load file.attributes.save = .ok again.attributes := by
        rw [← edited.path_eq] at read
        exact load_of_saved saved read
      have same := overridden.1.eq_of_load_save namesFree loadedAgain
      intro edit member
      rw [ImageFile.get?, same]
      exact overridden.get?_of_mem distinct tags edit member

theorem eq_of_openAt_again {before again : MemoryCodec} {file other : ImageFile}
    (opened : ImageFile.openAt path before = (.ok file, after))
    (openedAgain : ImageFile.openAt path after = (.ok other, again)) : other = file := by
  obtain ⟨text, fetched, loaded⟩ := ImageFile.fetch_of_openAt opened
  obtain ⟨otherText, otherFetched, otherLoaded⟩ := ImageFile.fetch_of_openAt openedAgain
  obtain ⟨same, held⟩ := fetch_eq_ok fetched
  obtain ⟨-, otherHeld⟩ := fetch_eq_ok otherFetched
  rw [same] at otherHeld
  obtain rfl := Option.some.inj (held.symm.trans otherHeld)
  have attributes := Except.ok.inj (otherLoaded.symm.trans loaded)
  have paths := (ImageFile.path_of_openAt openedAgain).trans (ImageFile.path_of_openAt opened).symm
  cases other
  cases file
  exact congrArg₂ ImageFile.mk paths attributes

theorem eq_of_inspect (zone : Zone) (path : Path) (codec : MemoryCodec) :
    (inspect zone path codec).2 = { codec with armed := (trigger .fetch codec.armed).2 } := by
  rw [codec_inspect, ← ImageFile.codec_openAt]
  exact eq_of_openAt rfl

theorem eq_of_openAt_unarmed {answer : Except (Failure AccessError) ImageFile}
    (opened : ImageFile.openAt path codec = (answer, after)) (unarmed : codec.armed = []) :
    after = codec := by
  rw [eq_of_openAt opened]
  obtain ⟨texts, staged, thumbnails, armed⟩ := codec
  obtain rfl : armed = [] := unarmed
  rfl

theorem unarmed_of_update (ended : Updating zone path edits codec false (some report) after)
    (unarmed : codec.armed = []) (noError : report.error = none) : after.armed = [] := by
  cases ended with
  | unopened found => simp [Report.failed] at noError
  | idle edited => rwa [eq_of_openAt_unarmed edited.openAt_of_idle unarmed]
  | unsaved edited _ saved => simp at noError
  | unread edited _ saved read => simp at noError
  | done edited _ saved read =>
      obtain ⟨original, found, -⟩ := edited
      obtain rfl := eq_of_openAt_unarmed found unarmed
      have stored := store_of_save_ok saved
      rw [store_of_unarmed _ _ unarmed] at stored
      obtain ⟨-, rfl⟩ := Prod.mk.inj stored
      rwa [eq_of_openAt_unarmed read unarmed]

end

end MemoryCodec

/-- In memory the same update, after one without an error, does what an inspection does: it reports
what was reported, with no name of a changed value, and stores and stages nothing. Only an armed
failure can keep it from reporting that. A dry run, which stores nothing, reports the same again. -/
theorem update_settles {zone : Zone} {path : Path} {edits : List Edit}
    {codec after : MemoryCodec} {report : Report} (distinct : (edits.map (·.1)).Nodup)
    (editsFree : ∀ edit ∈ edits, '=' ∉ edit.1.toList) (tags : ∀ edit ∈ edits, ¬ OfThumbnail edit)
    (updated : update zone false path edits codec = (some report, after))
    (noError : report.error = none) :
    update zone false path edits after = (some (MemoryCodec.inspection report after),
        { after with armed := (MemoryCodec.trigger .fetch after.armed).2 }) ∧
      (codec.armed = [] →
        update zone false path edits after = (some { report with updated := [] }, after) ∧
        update zone true path edits (update zone true path edits codec).2 =
          update zone true path edits codec) := by
  have ended := update_updating zone false path edits codec
  rw [updated] at ended
  obtain ⟨before, file, opened, held⟩ :=
    MemoryCodec.held_of_update distinct editsFree tags ended noError
  have inspected : update zone false path edits after = inspect zone path after :=
    update_eq_inspect fun other again openedAgain =>
      MemoryCodec.eq_of_openAt_again opened openedAgain ▸ held
  have again : update zone false path edits after = (some (MemoryCodec.inspection report after),
      { after with armed := (MemoryCodec.trigger .fetch after.armed).2 }) := by
    rw [inspected]
    exact Prod.ext (MemoryCodec.inspect_after_update ended noError)
      (MemoryCodec.eq_of_inspect zone path after)
  refine ⟨again, fun unarmed => ⟨?_, ?_⟩⟩
  · have left := MemoryCodec.unarmed_of_update ended unarmed noError
    rw [again, MemoryCodec.inspection, left]
    simp [MemoryCodec.trigger, ← left]
  · rcases opened : ImageFile.openAt path codec with ⟨answer, left⟩
    rw [dry_run_eq, opened, MemoryCodec.eq_of_openAt_unarmed opened unarmed]

theorem update_settles_two_tags :
    let path : Path := ⟨"a.jpg"⟩
    let codec : MemoryCodec :=
      ⟨⟨[(path.components, "2 hasThumbnail=4 trueMake=3 FOO")]⟩, .empty, .empty, []⟩
    let edits : List Edit := [("Model", "a=1 b"), ("Make", "BAR")]
    ∃ report after, update .utc false path edits codec = (some report, after) ∧
      report.updated = ["Model", "Make"] ∧
      after.texts.get? path = some "2 Make=3 BARModel=5 a=1 b" ∧
      update .utc false path edits after = (some { report with updated := [] }, after) := by
  intro path codec edits
  obtain ⟨report, after, updated⟩ := MemoryCodec.exists_report .utc path edits codec
  have shown : (update .utc false path edits codec).1.map
      (fun report => (report.updated, report.error)) =
      some (["Model", "Make"], none) := by decide +kernel
  have stored : (update .utc false path edits codec).2.texts.get? path =
      some "2 Make=3 BARModel=5 a=1 b" := by decide +kernel
  rw [updated] at shown stored
  obtain ⟨names, noError⟩ := Prod.mk.inj (Option.some.inj shown)
  have settled := update_settles (by decide) (by decide) (by decide) updated noError
  exact ⟨report, after, updated, names, stored, (settled.2 rfl).1⟩

end PhotoTags

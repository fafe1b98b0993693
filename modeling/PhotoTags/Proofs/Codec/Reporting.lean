import PhotoTags.Proofs.Codec.Editing
import PhotoTags.Proofs.Codec.Failing

/-!
What an update reports. Without an error it is what an inspection reports right after it, unless the
codec then fails. In memory the attributes with the edits made take the place of those that were
loaded if an edit changed a value, and nothing is stored if none did.
-/

namespace PhotoTags

open Attributes (lastValue? wellFormed_of_load)

namespace Attributes

theorem insert_of_mem {name value : String} {entries : List Entry}
    (ordered : entries.Pairwise (·.1 < ·.1)) (member : (name, value) ∈ entries) :
    insert name value entries = entries := by
  induction entries with
  | nil => simp at member
  | cons first rest ih =>
      obtain ⟨other, kept⟩ := first
      obtain ⟨firstBefore, restOrdered⟩ := List.pairwise_cons.mp ordered
      rcases List.mem_cons.mp member with same | later
      · obtain ⟨rfl, rfl⟩ := Prod.mk.inj same
        rw [insert, if_neg (lt_irrefl name), if_pos rfl]
      · have before : other < name := firstBefore (name, value) later
        rw [insert, if_neg before.asymm, if_neg before.ne', ih restOrdered later]

theorem WellFormed.set_of_get? {attributes : Attributes} (wellFormed : WellFormed attributes)
    {name value : String} (held : attributes.get? name = some value) :
    attributes.set name value = attributes := by
  unfold Attributes.set
  split
  · rfl
  · rw [insert_of_mem wellFormed.ordered ((wellFormed.mem_iff name value).mpr held)]

theorem lastValue?_cons (entry : Entry) (entries : List Entry) (name : String) :
    lastValue? (entry :: entries) name =
      (lastValue? entries name).or (if entry.1 = name then some entry.2 else none) := by
  by_cases same : entry.1 = name <;>
    cases found : entries.reverse.find? (·.1 == name) <;>
      simp [lastValue?, List.find?_append, found, same]

/-- The attributes are the others overridden by the edits in their order. Edits of the thumbnail
entry do not count. -/
def Overridden (loaded : Attributes) (edits : List Edit) (attributes : Attributes) : Prop :=
  WellFormed attributes ∧ attributes.hasThumbnail = loaded.hasThumbnail ∧ ∀ name,
    attributes.get? name =
      (lastValue? (Exchange.withoutThumbnail edits) name).or (loaded.get? name)

theorem WellFormed.overridden_nil {attributes : Attributes} (wellFormed : WellFormed attributes) :
    Overridden attributes [] attributes :=
  ⟨wellFormed, rfl, fun _ => rfl⟩

theorem Overridden.set {loaded attributes : Attributes} {edits : List Edit} {name value : String}
    (overridden : Overridden (loaded.set name value) edits attributes) :
    Overridden loaded ((name, value) :: edits) attributes := by
  obtain ⟨wellFormed, flag, values⟩ := overridden
  refine ⟨wellFormed, flag.trans (hasThumbnail_set loaded name value), fun other => ?_⟩
  rw [values other]
  by_cases thumbnail : name = Exchange.thumbnailName
  · subst thumbnail
    rw [set_thumbnailName]
    rfl
  · have kept : Exchange.withoutThumbnail ((name, value) :: edits) =
        (name, value) :: Exchange.withoutThumbnail edits := by
      simp [Exchange.withoutThumbnail, thumbnail]
    rw [kept, lastValue?_cons, get?_set loaded name other value thumbnail, Option.or_assoc]
    split <;> rfl

end Attributes

section

variable {file : ImageFile}

theorem exists_updated (current : ImageFile × List String) (edits : List Edit) :
    ∃ more, (edits.foldl applyEdit current).2 = current.2 ++ more := by
  induction edits generalizing current with
  | nil => exact ⟨[], (List.append_nil _).symm⟩
  | cons edit rest ih =>
      obtain ⟨more, grown⟩ := ih (applyEdit current edit)
      rw [List.foldl_cons, grown]
      unfold applyEdit
      split
      · exact ⟨more, rfl⟩
      · exact ⟨edit.1 :: more, by simp⟩

theorem applyEdit_of_held {edit : Edit} (wellFormed : file.attributes.WellFormed)
    (held : file.get? edit.1 = some edit.2) (updated : List String) :
    applyEdit (file, updated) edit = (file, updated) := by
  simp only [applyEdit, held, if_true, ImageFile.set]
  rw [wellFormed.set_of_get? held]

theorem foldl_applyEdit_idle {edits : List Edit} {updated : List String}
    (wellFormed : file.attributes.WellFormed)
    (idle : (edits.foldl applyEdit (file, updated)).2 = updated) :
    edits.foldl applyEdit (file, updated) = (file, updated) := by
  induction edits with
  | nil => rfl
  | cons edit rest ih =>
      by_cases held : file.get? edit.1 = some edit.2
      · rw [List.foldl_cons, applyEdit_of_held wellFormed held] at idle ⊢
        exact ih idle
      · obtain ⟨more, grown⟩ := exists_updated (applyEdit (file, updated) edit) rest
        rw [List.foldl_cons, grown, applyEdit, if_neg held] at idle
        simp at idle

theorem overridden_foldl_applyEdit (edits : List Edit) (updated : List String)
    (wellFormed : file.attributes.WellFormed) :
    file.attributes.Overridden edits (edits.foldl applyEdit (file, updated)).1.attributes := by
  induction edits generalizing file updated with
  | nil => exact wellFormed.overridden_nil
  | cons edit rest ih => exact (ih _ (wellFormed.set edit.1 edit.2)).set

end

theorem Attributes.Overridden.namesFree {loaded attributes : Attributes} {edits : List Edit}
    (overridden : loaded.Overridden edits attributes) (loadedFree : loaded.NamesFree)
    (loadedFormed : loaded.WellFormed) (editsFree : ∀ edit ∈ edits, '=' ∉ edit.1.toList) :
    attributes.NamesFree := by
  rintro ⟨name, value⟩ member
  obtain ⟨wellFormed, -, values⟩ := overridden
  rw [wellFormed.mem_iff, values, Option.or_eq_some_iff] at member
  rcases member with last | ⟨-, held⟩
  · exact editsFree (name, value) (List.mem_filter.mp (mem_of_lastValue? last)).1
  · exact loadedFree (name, value) ((loadedFormed.mem_iff name value).mpr held)

theorem ImageFile.fetch_of_openAt {σ : Type} [Codec σ] {path : Path} {codec after : σ}
    {file : ImageFile} (opened : ImageFile.openAt path codec = (.ok file, after)) :
    ∃ text, Codec.fetch path codec = (.ok text, after) ∧
      Attributes.load text = .ok file.attributes := by
  unfold ImageFile.openAt at opened
  rcases fetched : Codec.fetch path codec with ⟨failure | text, middle⟩
  · simp [fetched] at opened
  · rw [fetched] at opened
    dsimp only at opened
    cases loaded : Attributes.load text with
    | error fault => simp [loaded] at opened
    | ok attributes =>
        rw [loaded] at opened
        obtain ⟨same, rfl⟩ := Prod.mk.inj opened
        obtain rfl := Except.ok.inj same
        exact ⟨text, rfl, loaded⟩

theorem Edited.openAt_of_idle {σ : Type} [Codec σ] {path : Path} {edits : List Edit}
    {codec opened : σ} {file : ImageFile} (edited : Edited path edits codec opened file []) :
    ImageFile.openAt path codec = (.ok file, opened) := by
  obtain ⟨original, found, applied⟩ := edited
  obtain ⟨text, -, loaded⟩ := ImageFile.fetch_of_openAt found
  have same : applyEdits original edits = (original, []) :=
    foldl_applyEdit_idle (wellFormed_of_load loaded) (congrArg Prod.snd applied)
  obtain rfl : original = file := congrArg Prod.fst (same.symm.trans applied)
  exact found

namespace JpegCodec

theorem inspect_again {zone : Zone} {path : Path} {before after : JpegCodec} {file : ImageFile}
    (opened : ImageFile.openAt path before = (.ok file, after)) :
    inspect zone path after = (some (.ofFile zone file), after) := by
  obtain ⟨rfl, -⟩ := openAt_eq_ok opened
  simp [inspect, opened]

theorem inspect_after_update {zone : Zone} {path : Path} {edits : List Edit}
    {codec after : JpegCodec} {report : Report}
    (ended : Updating zone path edits codec false (some report) after)
    (noError : report.error = none) :
    inspect zone path after = (some { report with updated := [] }, after) := by
  cases ended with
  | unopened found => simp [Report.failed] at noError
  | idle edited => exact inspect_again edited.openAt_of_idle
  | unsaved edited _ saved => simp at noError
  | unread edited _ saved read => simp at noError
  | done edited _ saved read => exact inspect_again read

end JpegCodec

namespace MemoryCodec

theorem fetch_of_unarmed {path : Path} {codec : MemoryCodec}
    (unarmed : (trigger .fetch codec.armed).1 = none) :
    fetch path codec = ((codec.texts.get? path).elim (.error (.error .notFound)) .ok,
      { codec with armed := (trigger .fetch codec.armed).2 }) := by
  rw [fetch, guarded_of_unarmed _ unarmed]
  dsimp only
  cases codec.texts.get? path <;> rfl

theorem fetch_eq_ok {path : Path} {codec after : MemoryCodec} {text : String}
    (fetched : fetch path codec = (.ok text, after)) :
    after = { codec with armed := (trigger .fetch codec.armed).2 } ∧
      codec.texts.get? path = some text := by
  cases triggered : (trigger .fetch codec.armed).1 with
  | some error => simp [fetch, guarded_of_armed _ triggered] at fetched
  | none =>
      rw [fetch_of_unarmed triggered] at fetched
      obtain ⟨answer, rfl⟩ := Prod.mk.inj fetched
      refine ⟨rfl, ?_⟩
      cases held : codec.texts.get? path with
      | none => simp [held] at answer
      | some other => rw [held] at answer; rw [Except.ok.inj answer]

def inspection (report : Report) (codec : MemoryCodec) : Report :=
  match (trigger .fetch codec.armed).1 with
  | some error => .failed report.path (.codec error)
  | none => { report with updated := [] }

theorem inspect_again {zone : Zone} {path : Path} {before after : MemoryCodec} {file : ImageFile}
    (opened : ImageFile.openAt path before = (.ok file, after)) (updated : List String) :
    (inspect zone path after).1 =
      some (inspection { Report.ofFile zone file with updated } after) := by
  obtain ⟨text, fetched, loaded⟩ := ImageFile.fetch_of_openAt opened
  obtain ⟨same, held⟩ := fetch_eq_ok fetched
  obtain rfl := ImageFile.path_of_openAt opened
  have stillHeld : after.texts.get? file.path = some text := by rw [same, held]
  simp only [inspect, ImageFile.openAt, Codec.fetch, inspection]
  cases triggered : (trigger .fetch after.armed).1 with
  | some error => rw [fetch, guarded_of_armed _ triggered]; rfl
  | none =>
      rw [fetch_of_unarmed triggered, stillHeld]
      simp only [Option.elim_some, loaded]
      rfl

theorem eq_of_openAt {path : Path} {codec after : MemoryCodec}
    {answer : Except (Failure AccessError) ImageFile}
    (opened : ImageFile.openAt path codec = (answer, after)) :
    after = { codec with armed := (trigger .fetch codec.armed).2 } := by
  have fetched : (fetch path codec).2 = { codec with armed := (trigger .fetch codec.armed).2 } := by
    cases triggered : (trigger .fetch codec.armed).1 with
    | some error => rw [fetch, guarded_of_armed _ triggered]
    | none => rw [fetch_of_unarmed triggered]
  have left := ImageFile.codec_openAt path codec
  rw [opened] at left
  exact left.trans fetched

theorem armed_of_save_error {file : ImageFile} {codec after : MemoryCodec}
    {failure : Failure AccessError} (saved : file.save codec = (.error failure, after)) :
    codec.armed ≠ [] := by
  intro unarmed
  obtain ⟨cause, stored, -⟩ := store_of_save_error saved
  simp [store_of_unarmed _ _ unarmed] at stored

structure Updated (path : Path) (edits : List Edit) (codec after : MemoryCodec) (report : Report) :
    Prop where
  idle : report.updated = [] → after.texts = codec.texts ∧ after.staged = codec.staged
  stored : report.updated ≠ [] → ∃ text loaded attributes, codec.texts.get? path = some text ∧
    Attributes.load text = .ok loaded ∧ loaded.Overridden edits attributes ∧
    ((∃ cause : AccessError, report.error = some ("Failed to save attributes: " ++ cause.message) ∧
        codec.armed ≠ [] ∧ after.texts = codec.texts) ∨
      after.texts.get? path = some (Exchange.encode attributes.entries) ∧
        (report.error = none ∨ Exchange.Fits attributes.entries →
          Exchange.decode (Exchange.encode attributes.entries) = .ok attributes.entries))
  elsewhere : ∀ other, path.components ≠ other.components →
    after.texts.get? other = codec.texts.get? other

section

variable {path : Path} {edits : List Edit} {codec opened : MemoryCodec} {file : ImageFile}
  {updated : List String}

theorem overridden_of_edited (edited : Edited path edits codec opened file updated) :
    ∃ text loaded, codec.texts.get? path = some text ∧ Attributes.load text = .ok loaded ∧
      loaded.Overridden edits file.attributes := by
  obtain ⟨original, found, applied⟩ := edited
  obtain ⟨text, fetched, loaded⟩ := ImageFile.fetch_of_openAt found
  have overridden := overridden_foldl_applyEdit edits [] (wellFormed_of_load loaded)
  rw [← applyEdits, applied] at overridden
  exact ⟨text, original.attributes, (fetch_eq_ok fetched).2, loaded, overridden⟩

theorem opened_of_edited (edited : Edited path edits codec opened file updated) :
    opened = { codec with armed := (trigger .fetch codec.armed).2 } := by
  obtain ⟨original, found, -⟩ := edited
  exact eq_of_openAt found

theorem decode_of_stored {attributes : Attributes} (wellFormed : attributes.WellFormed)
    (namesFree : attributes.NamesFree)
    (readable : (∃ loaded, Attributes.load attributes.save = .ok loaded) ∨
      Exchange.Fits attributes.entries) :
    Exchange.decode attributes.save = .ok attributes.entries := by
  rw [wellFormed.save_eq] at readable ⊢
  rcases readable with ⟨loaded, read⟩ | fits
  · obtain ⟨entries, decoded, -⟩ := Attributes.load_eq_ok_iff.mp read
    rw [decoded, Exchange.eq_of_decode_setText namesFree decoded]
  · exact (Exchange.decode_setText_iff fits).mpr namesFree

theorem load_of_saved {stored after : MemoryCodec} {again : ImageFile}
    (saved : file.save opened = (.ok (), stored))
    (read : ImageFile.openAt file.path stored = (.ok again, after)) :
    Attributes.load file.attributes.save = .ok again.attributes := by
  obtain ⟨text, fetched, loaded⟩ := ImageFile.fetch_of_openAt read
  obtain ⟨-, written⟩ := spares.save_stored saved
  have held : stored.texts.get? file.path = some file.attributes.save :=
    (written file.path).trans (if_pos rfl)
  obtain rfl := Option.some.inj (held.symm.trans (fetch_eq_ok fetched).2)
  exact loaded

theorem updated_of_saved {stored after : MemoryCodec} {report : Report}
    (edited : Edited path edits codec opened file updated)
    (editsFree : ∀ edit ∈ edits, '=' ∉ edit.1.toList) (changed : report.updated ≠ [])
    (saved : file.save opened = (.ok (), stored)) (kept : after.texts = stored.texts)
    (readable : report.error = none → ∃ loaded, Attributes.load file.attributes.save = .ok loaded) :
    Updated path edits codec after report := by
  obtain ⟨text, loaded, held, read, overridden⟩ := overridden_of_edited edited
  obtain ⟨-, written⟩ := spares.save_stored saved
  have namesFree := overridden.namesFree (Attributes.namesFree_of_load read)
    (wellFormed_of_load read) editsFree
  rw [opened_of_edited edited, edited.path_eq] at written
  simp only [files] at written
  refine ⟨fun unchanged => absurd unchanged changed, fun _ => ?_, fun other differs => ?_⟩
  · refine ⟨text, loaded, file.attributes, held, read, overridden, .inr ⟨?_, fun told => ?_⟩⟩
    · rw [kept, written, if_pos rfl]
      rfl
    · exact decode_of_stored overridden.1 namesFree (told.imp readable id)
  · rw [kept, written, if_neg differs]

end

theorem updated_of_update {zone : Zone} {path : Path} {edits : List Edit}
    {codec after : MemoryCodec} {report : Report} (editsFree : ∀ edit ∈ edits, '=' ∉ edit.1.toList)
    (ended : Updating zone path edits codec false (some report) after) :
    Updated path edits codec after report := by
  cases ended with
  | unopened found =>
      rw [eq_of_openAt found]
      exact ⟨fun _ => ⟨rfl, rfl⟩, fun changed => absurd rfl changed, fun _ _ => rfl⟩
  | idle edited =>
      rw [opened_of_edited edited]
      exact ⟨fun _ => ⟨rfl, rfl⟩, fun changed => absurd rfl changed, fun _ _ => rfl⟩
  | @unsaved file updated opened after cause edited changed saved =>
      obtain ⟨text, loaded, held, read, overridden⟩ := overridden_of_edited edited
      have same : after.texts = codec.texts := by
        have kept : after.files = opened.files := spares.save_failed saved
        rw [opened_of_edited edited] at kept
        exact congrArg Prod.fst kept
      have armed : codec.armed ≠ [] := by
        intro unarmed
        have failed := armed_of_save_error saved
        rw [opened_of_edited edited, unarmed] at failed
        exact failed rfl
      refine ⟨fun unchanged => absurd unchanged changed, fun _ => ?_, fun other _ => by rw [same]⟩
      exact ⟨text, loaded, file.attributes, held, read, overridden,
        .inl ⟨cause, rfl, armed, same⟩⟩
  | @unread file updated opened stored after cause edited changed saved read =>
      have same := eq_of_openAt read
      exact updated_of_saved edited editsFree changed saved (by rw [same]) fun told => by simp at told
  | @done file again updated opened stored after edited changed saved read =>
      have same := eq_of_openAt read
      rw [← edited.path_eq] at read
      exact updated_of_saved edited editsFree changed saved (by rw [same]) fun _ =>
        ⟨again.attributes, load_of_saved saved read⟩

theorem exists_report (zone : Zone) (path : Path) (edits : List Edit) (codec : MemoryCodec) :
    ∃ report after, update zone false path edits codec = (some report, after) := by
  have ended := update_updating zone false path edits codec
  generalize update zone false path edits codec = result at ended ⊢
  rcases result with ⟨_ | report, after⟩
  · cases ended with
    | abortedOpening found => exact absurd found (spares.openAt_returns path codec after)
    | abortedReading edited saved read =>
        exact absurd read (spares.openAt_returns path _ after)
    | @abortedSaving file updated opened after edited saved =>
        obtain ⟨failure, stored, same⟩ := store_of_save_error saved
        obtain ⟨armed, ⟨error, failed⟩ | ⟨error, failed⟩ | succeeded⟩ :=
          store_cases file.path file.attributes.save opened
        · obtain ⟨answer, -⟩ := Prod.mk.inj (stored.symm.trans failed)
          rw [Except.error.inj answer] at same
          simp [Failure.map] at same
        · obtain ⟨answer, -⟩ := Prod.mk.inj (stored.symm.trans failed)
          rw [Except.error.inj answer] at same
          simp [Failure.map] at same
        · simp [succeeded] at stored
  · exact ⟨report, after, rfl⟩

theorem inspect_after_update {zone : Zone} {path : Path} {edits : List Edit}
    {codec after : MemoryCodec} {report : Report}
    (ended : Updating zone path edits codec false (some report) after)
    (noError : report.error = none) :
    (inspect zone path after).1 = some (inspection report after) := by
  cases ended with
  | unopened found => simp [Report.failed] at noError
  | idle edited => exact inspect_again edited.openAt_of_idle []
  | unsaved edited _ saved => simp at noError
  | unread edited _ saved read => simp at noError
  | done edited _ saved read => exact inspect_again read _

end MemoryCodec

theorem nameFree_of_parseEdit {text : String} {edit : Edit} (parsed : parseEdit text = .ok edit) :
    '=' ∉ edit.1.toList := by
  unfold parseEdit at parsed
  cases cut : Text.cutAt '=' text.toList with
  | none => simp [cut] at parsed
  | some parts =>
      simp only [cut] at parsed
      split at parsed
      · simp at parsed
      · obtain rfl := Except.ok.inj parsed
        simpa using (Text.cutAt_eq_some_iff.mp cut).2

/-- An update with no error to report reports what an inspection does right after it, or, in memory,
would do if no armed failure struck it. In memory the text stored for the path becomes that of the
attributes that were loaded, overridden by the edits, if an edit changed a value and no armed failure
struck the save; else it stays, as do all other texts. -/
theorem update_reports_as_inspected (zone : Zone) (path : Path) (edits : List Edit) :
    (∀ (codec after : JpegCodec) report,
      update zone false path edits codec = (some report, after) → report.error = none →
        inspect zone path after = (some { report with updated := [] }, after)) ∧
    (∀ (codec after : MemoryCodec) report,
      update zone false path edits codec = (some report, after) → report.error = none →
        (inspect zone path after).1 = some (MemoryCodec.inspection report after)) ∧
    ((∀ edit ∈ edits, '=' ∉ edit.1.toList) → ∀ codec : MemoryCodec, ∃ report after,
      update zone false path edits codec = (some report, after) ∧
        MemoryCodec.Updated path edits codec after report) ∧
    ∀ text edit, parseEdit text = .ok edit → '=' ∉ edit.1.toList := by
  have ended {σ : Type} [Codec σ] {codec after : σ} {report : Report}
      (updated : update zone false path edits codec = (some report, after)) :
      Updating zone path edits codec false (some report) after := by
    have known := update_updating zone false path edits codec
    rwa [updated] at known
  refine ⟨?_, ?_, ?_, fun text edit => nameFree_of_parseEdit⟩
  · exact fun codec after report updated => JpegCodec.inspect_after_update (ended updated)
  · exact fun codec after report updated => MemoryCodec.inspect_after_update (ended updated)
  · intro editsFree codec
    obtain ⟨report, after, updated⟩ := MemoryCodec.exists_report zone path edits codec
    exact ⟨report, after, updated, MemoryCodec.updated_of_update editsFree (ended updated)⟩

theorem update_reports_new_maker :
    let codec : MemoryCodec := ⟨⟨[(["a.jpg"], "1 Make=3 FOO")]⟩, .empty, .empty, []⟩
    let edits := [("Make", "X"), ("hasThumbnail", "true")]
    ∃ report after, update .utc false ⟨"a.jpg"⟩ edits codec = (some report, after) ∧
      report.error = none ∧ report.updated = ["Make", "hasThumbnail"] ∧
      (inspect .utc ⟨"a.jpg"⟩ after).1 = some (MemoryCodec.inspection report after) ∧
      MemoryCodec.Updated ⟨"a.jpg"⟩ edits codec after report ∧
      after.texts.get? ⟨"a.jpg"⟩ = some "1 Make=1 X" := by
  intro codec edits
  obtain ⟨-, shown, stored, -⟩ := update_reports_as_inspected .utc ⟨"a.jpg"⟩ edits
  obtain ⟨report, after, updated, told⟩ := stored (by decide) codec
  have reported : (update .utc false ⟨"a.jpg"⟩ edits codec).1.map
      (fun report => (report.error, report.updated)) = some (none, ["Make", "hasThumbnail"]) := by
    decide
  have text : (update .utc false ⟨"a.jpg"⟩ edits codec).2.texts.get? ⟨"a.jpg"⟩ = some "1 Make=1 X" := by
    decide
  rw [updated] at reported text
  obtain ⟨noError, names⟩ := Prod.mk.inj (Option.some.inj reported)
  exact ⟨report, after, updated, noError, names, shown codec after report updated noError, told,
    text⟩

/-- An armed failure can strike the inspection that follows, or the save. -/
theorem armed_failures_strike_update :
    (let codec : MemoryCodec := ⟨⟨[(["a.jpg"], "0 ")]⟩, .empty, .empty, [⟨.fetch, 2, .denied⟩]⟩
    let updated := update .utc false ⟨"a.jpg"⟩ [("Make", "X")] codec
    let inspected := inspect .utc ⟨"a.jpg"⟩ updated.2
    updated.1.map (fun report => (report.attributes, report.error)) =
        some (⟨[("Make", "X")], false⟩, none) ∧
      inspected.1.map (fun report => (report.attributes, report.error)) =
        some (⟨[], false⟩, some "Failed to read attributes: I/O error: permission denied")) ∧
    let codec : MemoryCodec := ⟨⟨[(["a.jpg"], "0 ")]⟩, .empty, .empty, [⟨.commit, 0, .denied⟩]⟩
    let updated := update .utc false ⟨"a.jpg"⟩ [("Make", "X")] codec
    updated.1.map (·.updated) = some ["Make"] ∧
      updated.2.texts.get? ⟨"a.jpg"⟩ = some "0 " := by
  decide

end PhotoTags

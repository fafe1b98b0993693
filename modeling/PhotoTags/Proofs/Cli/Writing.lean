import PhotoTags.Cli.Run
import PhotoTags.Proofs.Codec.Locality
import PhotoTags.Proofs.Codec.Previewing

/-!
What a run of the program can do to the files. It writes the settings, a thumbnail, or images with
their backups, depending on the arguments, and it removes nothing; a run that reports an error of
its own has written nothing.
-/

namespace PhotoTags.Cli

open FileTree (Touched)

structure MayEdit (beside : Path) (arguments : Arguments) (tree : FileTree) (settings : Settings) :
    Prop where
  edits : arguments.edits ≠ []
  unasked : arguments.dryRun = false
  loaded : Settings.load tree (configPath beside arguments) = .ok settings
  wanted : settings.dryRun = false

inductive MayWrite (beside : Path) (arguments : Arguments) (tree : FileTree) (location : Location) :
    Prop
  | settings : arguments.init = true →
      tree.locate (configPath beside arguments) = .ok location →
      MayWrite beside arguments tree location
  | thumbnail {target : Path} : arguments.init = false → arguments.thumbnail = some target →
      tree.locate target = .ok location → MayWrite beside arguments tree location
  | image {settings : Settings} {image : Path} : arguments.init = false →
      arguments.thumbnail = none → MayEdit beside arguments tree settings →
      image ∈ tree.images arguments.paths → tree.Reaches settings.backups image location →
      MayWrite beside arguments tree location

structure Confined (spots : Location → Prop) (tree : FileTree) (outcome : Outcome) : Prop where
  touched : Touched spots tree outcome.tree
  failed : outcome.exit = 1 ∨ outcome.exit = 2 → outcome.tree = tree

namespace Confined

variable {spots : Location → Prop} {tree after : FileTree}

theorem of_unchanged {outcome : Outcome} (same : outcome.tree = tree) :
    Confined spots tree outcome :=
  ⟨same ▸ .refl spots outcome.tree, fun _ => same⟩

theorem of_done (touched : Touched spots tree after) (output : String) :
    Confined spots tree (done after output) :=
  ⟨touched, fun failed => by simp [done] at failed⟩

theorem of_aborted (touched : Touched spots tree after) (output : String) :
    Confined spots tree (aborted after output) :=
  ⟨touched, fun failed => by simp [aborted] at failed⟩

theorem mono {outcome : Outcome} {wider : Location → Prop} (confined : Confined spots tree outcome)
    (within : ∀ location, spots location → wider location) : Confined wider tree outcome :=
  ⟨confined.touched.mono within, confined.failed⟩

end Confined

theorem confined_runInit (beside : Path) (arguments : Arguments) (tree : FileTree) :
    Confined (fun location => tree.locate (configPath beside arguments) = .ok location)
      tree (runInit beside arguments tree) := by
  simp only [runInit, Settings.save]
  cases written : tree.write (configPath beside arguments)
      (Text.utf8 Settings.default.text.toList) with
  | error cause => exact .of_unchanged rfl
  | ok after => exact .of_done (.of_write written fun _ => id) _

theorem confined_takeThumbnail (image target : Path) (codec : JpegCodec) :
    Confined (fun location => codec.tree.locate target = .ok location) codec.tree
      (takeThumbnail image target codec) := by
  have opened := JpegCodec.openAt_unchanged image codec
  unfold takeThumbnail
  generalize ImageFile.openAt image codec = access at opened ⊢
  obtain ⟨answer, after⟩ := access
  obtain rfl : after = codec := opened
  rcases answer with (cause | _) | file
  · exact .of_unchanged rfl
  · exact .of_unchanged rfl
  · have shown := JpegCodec.fileThumbnail_unchanged file after
    dsimp only
    generalize file.thumbnail after = access at shown ⊢
    obtain ⟨answer, last⟩ := access
    obtain rfl : last = after := shown
    rcases answer with (cause | _) | (_ | bytes)
    · exact .of_unchanged rfl
    · exact .of_unchanged rfl
    · exact .of_unchanged rfl
    · dsimp only
      cases written : last.tree.write target bytes with
      | error cause => exact .of_unchanged rfl
      | ok after => exact .of_done (.of_write written fun _ => id) _

theorem confined_runThumbnail (images : List Path) (target : Path) (codec : JpegCodec) :
    Confined (fun location => codec.tree.locate target = .ok location) codec.tree
      (runThumbnail images target codec) := by
  unfold runThumbnail
  split
  · exact confined_takeThumbnail ..
  · exact .of_unchanged rfl

section

variable {spots : Location → Prop} {start codec : JpegCodec} (zone : Zone) {settings : Settings}
  {edits : List Edit} {images : List Path}

theorem touched_reportOn (image : Path)
    (within : edits ≠ [] → settings.dryRun = false →
      ∀ location, start.tree.Reaches start.backups image location → spots location)
    (before : JpegCodec.Touched spots start codec) :
    JpegCodec.Touched spots start (reportOn zone settings edits image codec).2 := by
  unfold reportOn
  split
  · rwa [JpegCodec.inspect_unchanged]
  · rename_i given
    cases dry : settings.dryRun with
    | true => rwa [dry_run_eq, JpegCodec.openAt_unchanged]
    | false =>
        have reached := within (fun none => given (List.isEmpty_iff.mpr none)) dry
        exact (JpegCodec.touched_keeps reached).update zone false edits codec before

theorem touched_reportsOn
    (within : edits ≠ [] → settings.dryRun = false → ∀ image ∈ images,
      ∀ location, start.tree.Reaches start.backups image location → spots location)
    (before : JpegCodec.Touched spots start codec) :
    JpegCodec.Touched spots start (reportsOn zone settings edits images codec).2.2 := by
  induction images generalizing codec with
  | nil => exact before
  | cons image rest ih =>
      have reported := touched_reportOn zone image
        (fun given wet => within given wet image (List.mem_cons_self ..)) before
      have later := ih
        (fun given wet other member => within given wet other (List.mem_cons_of_mem _ member))
        reported
      unfold reportsOn
      generalize reportOn zone settings edits image codec = result at reported later ⊢
      rcases result with ⟨_ | report, after⟩
      · exact reported
      · dsimp only
        split
        · exact later
        · exact reported

theorem confined_runReports (codec : JpegCodec)
    (within : edits ≠ [] → settings.dryRun = false → ∀ image ∈ images,
      ∀ location, codec.tree.Reaches codec.backups image location → spots location) :
    Confined spots codec.tree (runReports zone settings edits images codec) := by
  have touched := (touched_reportsOn zone within (.refl spots codec)).tree
  unfold runReports
  generalize reportsOn zone settings edits images codec = result at touched ⊢
  obtain ⟨reports, finished, after⟩ := result
  dsimp only at touched ⊢
  split <;> split
  · exact .of_done touched _
  · exact .of_aborted touched _
  · exact .of_done touched _
  · exact .of_aborted touched _

end

section

variable {zone : Zone} {beside : Path} {arguments : Arguments} {tree : FileTree}

theorem load_of_settingsFor {settings : Settings}
    (read : settingsFor beside arguments tree = .ok settings) :
    ∃ loaded, Settings.load tree (configPath beside arguments) = .ok loaded ∧
      settings.dryRun = (loaded.dryRun || arguments.dryRun) ∧ settings.backups = loaded.backups := by
  unfold settingsFor at read
  cases found : Settings.load tree (configPath beside arguments) with
  | error cause => simp [found, Except.map] at read
  | ok loaded =>
      simp only [found, Except.map, Except.ok.injEq] at read
      subst read
      exact ⟨loaded, rfl, rfl, rfl⟩

theorem confined_runImages (notInit : arguments.init = false) :
    Confined (MayWrite beside arguments tree) tree (runImages zone beside arguments tree) := by
  unfold runImages
  cases read : settingsFor beside arguments tree with
  | error cause => exact .of_unchanged rfl
  | ok settings =>
      obtain ⟨loaded, found, dryRun, backups⟩ := load_of_settingsFor read
      dsimp only
      split
      · exact .of_unchanged rfl
      · split
        · rename_i target asked
          exact (confined_runThumbnail _ target (JpegCodec.new tree settings.backups)).mono
            fun _ => .thumbnail notInit asked
        · rename_i unasked
          refine confined_runReports zone (JpegCodec.new tree settings.backups)
            fun given wet image member location reached => ?_
          rw [dryRun, Bool.or_eq_false_iff] at wet
          exact .image notInit unasked ⟨given, wet.2, found, wet.1⟩ member (backups ▸ reached)

theorem confined_runParsed :
    Confined (MayWrite beside arguments tree) tree (runParsed zone beside arguments tree) := by
  unfold runParsed
  split
  · rename_i asked
    exact (confined_runInit beside arguments tree).mono fun _ => .settings asked
  · rename_i unasked
    split
    · exact .of_unchanged rfl
    · exact confined_runImages (by simpa using unasked)

end

theorem confined_run (zone : Zone) (beside : Path) (arguments : List String) (tree : FileTree) :
    Confined (fun location => ∃ parsed, parse arguments = .ok parsed ∧
      MayWrite beside parsed tree location) tree (run zone beside arguments tree) := by
  unfold run
  split
  · rename_i parsed read
    exact confined_runParsed.mono fun _ may => ⟨parsed, read, may⟩
  · exact .of_unchanged rfl
  · exact .of_unchanged rfl
  · exact .of_unchanged rfl

/-- Whatever the arguments, the files and the zone are, and wherever the program's own settings
are, a run writes no file that it may not write. Nothing is removed, nor is a directory put in a
file's place or a file in a directory's; and a run that ends with 1 or 2 leaves the files as they
were. -/
theorem run_writes (zone : Zone) (beside : Path) (arguments : List String) (tree : FileTree) :
    let outcome := run zone beside arguments tree
    (∀ location, outcome.tree.node? location ≠ tree.node? location →
      (∃ content, outcome.tree.node? location = some (.file content)) ∧
        ∃ parsed, parse arguments = .ok parsed ∧ MayWrite beside parsed tree location) ∧
      (∀ location, tree.node? location ≠ none → outcome.tree.node? location ≠ none) ∧
      (∀ location, tree.node? location = some .directory →
        outcome.tree.node? location = some .directory) ∧
      (outcome.exit = 1 ∨ outcome.exit = 2 → outcome.tree = tree) := by
  intro outcome
  obtain ⟨touched, failed⟩ := confined_run zone beside arguments tree
  refine ⟨fun location changed => ?_, fun location held => ?_, fun location directory => ?_, failed⟩
  · rcases touched.elsewhere location with same | ⟨may, -, written⟩
    · exact absurd same changed
    · exact ⟨written, may⟩
  · rcases touched.elsewhere location with same | ⟨-, -, content, written⟩
    · rwa [same]
    · rw [written]
      exact Option.some_ne_none _
  · rcases touched.elsewhere location with same | ⟨-, free, -⟩
    · rwa [same]
    · exact absurd directory free

theorem run_writes_image_and_backup :
    let image : Bytes := [0xFF, 0xD8, 0xFF, 0xE0, 0, 2, 0xFF, 0xFE, 0, 2, 0xFF, 0xDA, 0, 3, 1] ++
      List.replicate 100 0
    let tree : FileTree := { nodes := [(["a.jpg"], .file image)] }
    let beside : Path := ⟨"/program/config.json"⟩
    let edited := run .utc beside ["--set", "Make=FOO", "a.jpg"] tree
    let absent := run .utc beside ["--set", "Make=FOO", "b.jpg"] tree
    edited.exit = 0 ∧ (∀ location ∈ [["a.jpg"], ["a.jpg.bak"]],
        edited.tree.node? location ≠ tree.node? location ∧
          ∃ parsed, parse ["--set", "Make=FOO", "a.jpg"] = .ok parsed ∧
            MayWrite beside parsed tree location) ∧
      absent.exit = 1 ∧ absent.tree = tree := by
  intro image tree beside edited absent
  obtain ⟨written, -⟩ := run_writes .utc beside ["--set", "Make=FOO", "a.jpg"] tree
  obtain ⟨-, -, -, failed⟩ := run_writes .utc beside ["--set", "Make=FOO", "b.jpg"] tree
  have changed : ∀ location ∈ [["a.jpg"], ["a.jpg.bak"]],
      edited.tree.node? location ≠ tree.node? location := by decide +kernel
  have exit : absent.exit = 1 := by decide +kernel
  refine ⟨by decide +kernel, fun location member => ⟨changed location member, ?_⟩, exit, ?_⟩
  · exact (written location (changed location member)).2
  · exact failed (.inl exit)

end PhotoTags.Cli

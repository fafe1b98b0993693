import PhotoTags.Codec.Jpeg
import PhotoTags.Proofs.Codec.Recorded

/-!
What is staged in the codec of JPEG images, told by the calls that it was asked for: a path has
something staged from a stage of it that succeeds up to the next commit of it, and the latest such
stage says what. Each call keeps this, whatever its outcome, and so does each run of a session.
-/

namespace PhotoTags

def Codec.Call.Changes (path : Path) : Codec.Call → Prop
  | .stage other _ ok => ok = true ∧ other.components = path.components
  | .commit other _ => other.components = path.components
  | .fetch _ _ | .thumbnail _ _ => False

/-- The entries are those of the last stage of the path that succeeded, and no commit of the path
came after it. -/
def StagedBy (calls : List Codec.Call) (path : Path) (entries : List Entry) : Prop :=
  ∃ earlier other text later,
    calls = earlier ++ .stage other text true :: later ∧
    other.components = path.components ∧
    Exchange.decode text = .ok entries ∧
    ∀ call ∈ later, ¬ call.Changes path

theorem not_stagedBy_nil (path : Path) (entries : List Entry) : ¬ StagedBy [] path entries := by
  rintro ⟨earlier, other, text, later, calls, -⟩
  simp at calls

theorem stagedBy_concat_iff (calls : List Codec.Call) (call : Codec.Call) (path : Path)
    (entries : List Entry) :
    StagedBy (calls ++ [call]) path entries ↔
      (∃ other text, call = .stage other text true ∧ other.components = path.components ∧
        Exchange.decode text = .ok entries) ∨
      (¬ call.Changes path ∧ StagedBy calls path entries) := by
  constructor
  · rintro ⟨earlier, other, text, later, split, same, decoded, unchanged⟩
    rcases List.eq_nil_or_concat later with rfl | ⟨before, last, rfl⟩
    · obtain ⟨-, latest⟩ := List.append_inj' split rfl
      obtain rfl := List.singleton_inj.mp latest
      exact .inl ⟨other, text, rfl, same, decoded⟩
    · rw [List.concat_eq_append, ← List.cons_append, ← List.append_assoc] at split
      obtain ⟨rfl, latest⟩ := List.append_inj' split rfl
      obtain rfl := List.singleton_inj.mp latest
      refine .inr ⟨unchanged _ (by simp), earlier, other, text, before, rfl, same, decoded, ?_⟩
      exact fun other member => unchanged other (by simp [member])
  · rintro (⟨other, text, rfl, same, decoded⟩ | ⟨unchanging, earlier, other, text, later, rfl,
      same, decoded, unchanged⟩)
    · exact ⟨calls, other, text, [], rfl, same, decoded, by simp⟩
    · refine ⟨earlier, other, text, later ++ [call], by simp, same, decoded, ?_⟩
      intro later member
      rcases List.mem_append.mp member with inside | new
      · exact unchanged later inside
      · exact List.mem_singleton.mp new ▸ unchanging

theorem stagedBy_concat_of_unchanging {calls : List Codec.Call} {call : Codec.Call} {path : Path}
    {entries : List Entry} (unchanging : ¬ call.Changes path) :
    StagedBy (calls ++ [call]) path entries ↔ StagedBy calls path entries := by
  rw [stagedBy_concat_iff]
  constructor
  · rintro (⟨other, text, rfl, same, -⟩ | ⟨-, before⟩)
    · exact absurd ⟨rfl, same⟩ unchanging
    · exact before
  · exact fun before => .inr ⟨unchanging, before⟩

namespace JpegCodec

theorem fetch_unchanged (path : Path) (codec : JpegCodec) :
    (Codec.fetch path codec).2 = codec := by
  show (fetch path codec).2 = codec
  unfold fetch
  split <;> rfl

theorem thumbnail_unchanged (path : Path) (codec : JpegCodec) :
    (Codec.thumbnail path codec).2 = codec := by
  show (thumbnail path codec).2 = codec
  unfold thumbnail
  split <;> rfl

theorem openAt_unchanged (path : Path) (codec : JpegCodec) :
    (ImageFile.openAt path codec).2 = codec :=
  (ImageFile.codec_openAt path codec).trans (fetch_unchanged path codec)

theorem fileThumbnail_unchanged (file : ImageFile) (codec : JpegCodec) :
    (file.thumbnail codec).2 = codec :=
  (ImageFile.codec_thumbnail file codec).trans (thumbnail_unchanged file.path codec)

theorem inspect_unchanged (zone : Zone) (path : Path) (codec : JpegCodec) :
    (inspect zone path codec).2 = codec :=
  (codec_inspect zone path codec).trans (fetch_unchanged path codec)

theorem stage_malformed {text : String} {malformed : Exchange.Malformed}
    (fails : Exchange.decode text = .error malformed) (path : Path) (codec : JpegCodec) :
    Codec.stage path text codec = (.error (.error (.format malformed.message)), codec) := by
  show stage path text codec = _
  simp [stage, fails]

theorem stage_decoded {text : String} {entries : List Entry}
    (decoded : Exchange.decode text = .ok entries) (path : Path) (codec : JpegCodec) :
    Codec.stage path text codec =
      (.ok (), { codec with staged := codec.staged.insert path entries }) := by
  show stage path text codec = _
  simp [stage, decoded]

theorem commit_nothingStaged {path : Path} {codec : JpegCodec}
    (nothing : codec.staged.get? path = none) :
    Codec.commit path codec = (.error (.error (.nothingStaged path.text)), codec) := by
  show commit path codec = _
  simp [commit, nothing]

def committed : Except (Failure Image.Problem) Image.Saved → Except (Failure CodecError) Unit
  | .ok _ => .ok ()
  | .error failure => .error (failure.map .image)

theorem commit_staged {path : Path} {codec : JpegCodec} {entries : List Entry}
    (staged : codec.staged.get? path = some entries) :
    Codec.commit path codec =
      (committed (Image.save codec.backups path entries codec.tree).1,
        { codec with
          tree := (Image.save codec.backups path entries codec.tree).2
          staged := codec.staged.erase path }) := by
  show commit path codec = _
  simp only [commit, staged]
  rcases Image.save codec.backups path entries codec.tree with ⟨_ | _, tree⟩ <;> rfl

theorem staged_commit (path : Path) (codec : JpegCodec) (other : Path) :
    (Codec.commit path codec).2.staged.get? other =
      if path.components = other.components then none else codec.staged.get? other := by
  cases staged : codec.staged.get? path with
  | none =>
      rw [commit_nothingStaged staged]
      split
      · rename_i same
        simpa only [PathMap.get?, same] using staged
      · rfl
  | some entries => rw [commit_staged staged, PathMap.get?_erase]

theorem commit_backups (path : Path) (codec : JpegCodec) :
    (Codec.commit path codec).2.backups = codec.backups := by
  cases staged : codec.staged.get? path with
  | none => rw [commit_nothingStaged staged]
  | some entries => rw [commit_staged staged]

theorem staged_store (path : Path) (text : String) (codec : JpegCodec) (other : Path) :
    (Codec.store path text codec).2.staged.get? other = codec.staged.get? other ∨
      path.components = other.components ∧
        (Codec.store path text codec).2.staged.get? other = none := by
  unfold Codec.store
  cases decoded : Exchange.decode text with
  | error malformed =>
      rw [stage_malformed decoded]
      exact .inl rfl
  | ok entries =>
      rw [stage_decoded decoded]
      simp only [staged_commit, PathMap.get?_insert]
      split
      · exact .inr ⟨‹_›, rfl⟩
      · exact .inl rfl

def Told (recorded : Recorded JpegCodec) : Prop :=
  ∀ path entries,
    recorded.codec.staged.get? path = some entries ↔ StagedBy recorded.calls path entries

theorem told_new (tree : FileTree) (backups : Bool) : Told (.new (.new tree backups)) := by
  intro path entries
  simp [Recorded.new, JpegCodec.new, PathMap.get?, PathMap.empty, not_stagedBy_nil]

theorem told_after_reading {recorded : Recorded JpegCodec} {call : Codec.Call}
    (before : Told recorded) (unchanging : ∀ path, ¬ call.Changes path) :
    Told ⟨recorded.codec, recorded.calls ++ [call]⟩ := by
  intro path entries
  rw [stagedBy_concat_of_unchanging (unchanging path)]
  exact before path entries

theorem told_fetch (path : Path) (recorded : Recorded JpegCodec) (before : Told recorded) :
    Told (Codec.fetch path recorded).2 := by
  show Told ⟨(Codec.fetch path recorded.codec).2, _⟩
  rw [fetch_unchanged]
  exact told_after_reading before fun _ => id

theorem told_thumbnail (path : Path) (recorded : Recorded JpegCodec) (before : Told recorded) :
    Told (Codec.thumbnail path recorded).2 := by
  show Told ⟨(Codec.thumbnail path recorded.codec).2, _⟩
  rw [thumbnail_unchanged]
  exact told_after_reading before fun _ => id

theorem told_stage (path : Path) (text : String) (recorded : Recorded JpegCodec)
    (before : Told recorded) : Told (Codec.stage path text recorded).2 := by
  show Told ⟨(Codec.stage path text recorded.codec).2,
    recorded.calls ++ [.stage path text (Codec.stage path text recorded.codec).1.isOk]⟩
  cases decoded : Exchange.decode text with
  | error malformed =>
      rw [stage_malformed decoded]
      exact told_after_reading before fun _ changes => Bool.noConfusion changes.1
  | ok staged =>
      rw [stage_decoded decoded]
      intro other entries
      simp only [PathMap.get?_insert, stagedBy_concat_iff]
      by_cases same : path.components = other.components
      · have answered : (Except.ok () : Except (Failure CodecError) Unit).isOk = true := rfl
        simp only [same, if_true, Codec.Call.Changes, answered, and_self, not_true, false_and,
          or_false, Option.some.injEq]
        constructor
        · rintro rfl
          exact ⟨path, text, rfl, same, decoded⟩
        · rintro ⟨_, _, latest, -, redecoded⟩
          cases latest
          exact Except.ok.inj (decoded.symm.trans redecoded)
      · simp [same, Codec.Call.Changes, before other entries]

theorem told_commit (path : Path) (recorded : Recorded JpegCodec) (before : Told recorded) :
    Told (Codec.commit path recorded).2 := by
  intro other entries
  show (Codec.commit path recorded.codec).2.staged.get? other = some entries ↔
    StagedBy (recorded.calls ++ [.commit path (Codec.commit path recorded.codec).1.isOk])
      other entries
  rw [staged_commit, stagedBy_concat_iff]
  by_cases same : path.components = other.components
  · simp [same, Codec.Call.Changes]
  · simp [same, Codec.Call.Changes, before other entries]

theorem told_keepsApart (path : Path) : Codec.KeepsApart Told path :=
  ⟨told_stage path, told_commit path⟩

theorem told_keeps (path : Path) : Codec.Keeps Told path :=
  ⟨told_fetch path, (told_keepsApart path).store, told_thumbnail path⟩

def Clear (codec : JpegCodec) : Prop :=
  ∀ path, codec.staged.get? path = none

theorem clear_keeps (path : Path) : Codec.Keeps Clear path where
  fetch codec before := by rwa [fetch_unchanged]
  store text codec before other := by
    rcases staged_store path text codec other with unchanged | ⟨-, nothing⟩
    · rw [unchanged, before other]
    · exact nothing
  thumbnail codec before := by rwa [thumbnail_unchanged]

theorem elsewhere_keepsApart {path other : Path} (differ : path.components ≠ other.components)
    (staged : Option (List Entry)) :
    Codec.KeepsApart (fun codec : JpegCodec => codec.staged.get? other = staged) path where
  stage text codec before := by
    cases decoded : Exchange.decode text with
    | error malformed => rwa [stage_malformed decoded]
    | ok entries =>
        rw [stage_decoded decoded]
        simpa only [PathMap.get?_insert, if_neg differ] using before
  commit codec before := by rwa [staged_commit, if_neg differ]

theorem elsewhere_keeps {path other : Path} (differ : path.components ≠ other.components)
    (staged : Option (List Entry)) :
    Codec.Keeps (fun codec : JpegCodec => codec.staged.get? other = staged) path where
  fetch codec before := by rwa [fetch_unchanged]
  store := (elsewhere_keepsApart differ staged).store
  thumbnail codec before := by rwa [thumbnail_unchanged]

structure StagingLaws (codec : JpegCodec) : Prop where
  malformed : ∀ path text fault, Exchange.decode text = .error fault →
    Codec.stage path text codec = (.error (.error (.format fault.message)), codec)
  nothing : ∀ path, codec.staged.get? path = none →
    Codec.commit path codec = (.error (.error (.nothingStaged path.text)), codec)
  /-- A commit writes the entries staged, which are staged no longer however the writing ends. -/
  consumed : ∀ path entries, codec.staged.get? path = some entries →
    Codec.commit path codec =
      (committed (Image.save codec.backups path entries codec.tree).1,
        { codec with
          tree := (Image.save codec.backups path entries codec.tree).2
          staged := codec.staged.erase path }) ∧
    (Codec.commit path codec).2.staged.get? path = none
  reading : ∀ path,
    (Codec.fetch path codec).2 = codec ∧ (Codec.thumbnail path codec).2 = codec
  /-- A step about one path, through an image file or not, leaves the other paths alone. -/
  elsewhere : ∀ (session : Session JpegCodec) (step : Step) (other : Path),
    session.codec = codec →
    (∀ path, session.pathOf? step = some path → path.components ≠ other.components) →
    (session.step step).2.codec.staged.get? other = codec.staged.get? other

theorem stagingLaws (codec : JpegCodec) : StagingLaws codec where
  malformed path _ _ fails := stage_malformed fails path codec
  nothing _ none := commit_nothingStaged none
  consumed path entries staged := by
    refine ⟨commit_staged staged, ?_⟩
    rw [staged_commit, if_pos rfl]
  reading path := ⟨fetch_unchanged path codec, thumbnail_unchanged path codec⟩
  elsewhere session step other same differ := by
    subst same
    exact session.step_keeps step
      (fun path about => elsewhere_keeps (differ path about) (session.codec.staged.get? other))
      (fun _ path about => elsewhere_keepsApart (differ path about) _) rfl

/-- After any run of a session on a new codec, what is staged is told by the calls that the codec
was asked for; where no step stages or commits by itself, nothing is left staged. -/
theorem staging_follows_calls (tree : FileTree) (backups : Bool) (zone : Zone) (steps : List Step) :
    (∀ codec, StagingLaws codec) ∧
    (let told := (Session.new zone (Recorded.new (JpegCodec.new tree backups))).run steps
    let plain := (Session.new zone (JpegCodec.new tree backups)).run steps
    told.1 = plain.1 ∧ told.2.files = plain.2.files ∧ told.2.codec.codec = plain.2.codec ∧
      (∀ path entries, plain.2.codec.staged.get? path = some entries ↔
        StagedBy told.2.codec.calls path entries) ∧
      ((∀ step ∈ steps, step.isApart = false) →
        ∀ path, plain.2.codec.staged.get? path = none)) := by
  refine ⟨stagingLaws, ?_⟩
  intro told plain
  have same : plain = (told.1, told.2.map Recorded.codec) :=
    Session.run_map Recorded.hom (Session.new zone (Recorded.new (JpegCodec.new tree backups))) steps
  have follows : Told told.2.codec :=
    Session.run_keeps told_keeps _ steps (fun _ _ _ => told_keepsApart) (told_new tree backups)
  refine ⟨by rw [same], by rw [same]; rfl, by rw [same]; rfl, ?_, ?_⟩
  · intro path entries
    rw [same]
    exact follows path entries
  · intro together
    exact Session.run_keeps clear_keeps _ steps
      (fun step member apart => absurd apart (by simp [together step member])) (fun _ => rfl)

end JpegCodec

end PhotoTags

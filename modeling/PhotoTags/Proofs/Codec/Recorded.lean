import PhotoTags.Session

/-!
What holds of a session with any codec. A session reaches its codec through the codec's calls alone:
in states where these agree the session has the same answers, and whatever they keep, every run
keeps. A codec that records its calls runs like the one inside it, so that a run can be told by the
calls that it made.
-/

namespace PhotoTags

def Both {σ τ α : Type} (related : σ → τ → Prop) (left : α × σ) (right : α × τ) : Prop :=
  left.1 = right.1 ∧ related left.2 right.2

theorem Both.cases {σ τ α : Type} {related : σ → τ → Prop} {left : α × σ} {right : α × τ}
    (both : Both related left right) : ∃ answer after otherAfter,
      left = (answer, after) ∧ right = (answer, otherAfter) ∧ related after otherAfter :=
  ⟨left.1, left.2, right.2, rfl, Prod.ext both.1.symm rfl, both.2⟩

theorem Both.eq_map {σ τ α : Type} {map : σ → τ} {left : α × σ} {right : α × τ}
    (both : Both (fun codec image => map codec = image) left right) :
    right = (left.1, map left.2) :=
  Prod.ext both.1.symm both.2.symm

structure Codec.Agrees {σ τ : Type} [Codec σ] [Codec τ] (related : σ → τ → Prop) (path : Path) :
    Prop where
  fetch : ∀ left right, related left right →
    Both related (Codec.fetch path left) (Codec.fetch path right)
  store : ∀ text left right, related left right →
    Both related (Codec.store path text left) (Codec.store path text right)
  thumbnail : ∀ left right, related left right →
    Both related (Codec.thumbnail path left) (Codec.thumbnail path right)

structure Codec.AgreesApart {σ τ : Type} [Codec σ] [Codec τ] (related : σ → τ → Prop)
    (path : Path) : Prop where
  stage : ∀ text left right, related left right →
    Both related (Codec.stage path text left) (Codec.stage path text right)
  commit : ∀ left right, related left right →
    Both related (Codec.commit path left) (Codec.commit path right)

theorem ImageFile.path_of_openAt {σ : Type} [Codec σ] {path : Path} {codec after : σ}
    {file : ImageFile} (opened : ImageFile.openAt path codec = (.ok file, after)) :
    file.path = path := by
  unfold ImageFile.openAt at opened
  generalize Codec.fetch path codec = reply at opened
  rcases reply with ⟨_ | text, _⟩
  · simp at opened
  · dsimp only at opened
    cases loaded : Attributes.load text with
    | error cause => simp [loaded] at opened
    | ok attributes =>
        simp only [loaded, Prod.mk.injEq, Except.ok.injEq] at opened
        exact opened.1 ▸ rfl

section

variable {σ : Type} [Codec σ]

theorem ImageFile.codec_openAt (path : Path) (codec : σ) :
    (ImageFile.openAt path codec).2 = (Codec.fetch path codec).2 := by
  unfold ImageFile.openAt
  rcases Codec.fetch path codec with ⟨_ | text, after⟩
  · rfl
  · dsimp only
    cases Attributes.load text <;> rfl

theorem ImageFile.codec_save (file : ImageFile) (codec : σ) :
    (file.save codec).2 = (Codec.store file.path file.attributes.save codec).2 := by
  unfold ImageFile.save
  rcases Codec.store file.path file.attributes.save codec with ⟨_ | _, after⟩ <;> rfl

theorem ImageFile.codec_thumbnail (file : ImageFile) (codec : σ) :
    (file.thumbnail codec).2 = (Codec.thumbnail file.path codec).2 := by
  unfold ImageFile.thumbnail
  rcases Codec.thumbnail file.path codec with ⟨_ | _, after⟩ <;> rfl

theorem codec_inspect (zone : Zone) (path : Path) (codec : σ) :
    (inspect zone path codec).2 = (Codec.fetch path codec).2 := by
  rw [← ImageFile.codec_openAt]
  unfold inspect
  rcases ImageFile.openAt path codec with ⟨(_ | _) | _, after⟩ <;> rfl

end

theorem path_applyEdits (file : ImageFile) (edits : List Edit) :
    (applyEdits file edits).1.path = file.path := by
  unfold applyEdits
  generalize ([] : List String) = updated
  induction edits generalizing file updated with
  | nil => rfl
  | cons edit rest ih => exact ih _ _

section

variable {σ τ : Type} [Codec σ] [Codec τ] {related : σ → τ → Prop} {path : Path} {left : σ}
  {right : τ}

theorem Codec.AgreesApart.store (apart : Codec.AgreesApart related path) (text : String) (left : σ)
    (right : τ) (before : related left right) :
    Both related (Codec.store path text left) (Codec.store path text right) := by
  obtain ⟨answer, after, otherAfter, staged, again, kept⟩ :=
    (apart.stage text left right before).cases
  unfold Codec.store
  rw [staged, again]
  cases answer with
  | error failure => exact ⟨rfl, kept⟩
  | ok _ => exact apart.commit after otherAfter kept

namespace Codec.Agrees

theorem openAt (agrees : Codec.Agrees related path) (before : related left right) :
    Both related (ImageFile.openAt path left) (ImageFile.openAt path right) := by
  obtain ⟨answer, after, otherAfter, fetched, again, kept⟩ :=
    (agrees.fetch left right before).cases
  unfold ImageFile.openAt
  rw [fetched, again]
  cases answer with
  | error failure => exact ⟨rfl, kept⟩
  | ok text =>
      dsimp only
      cases Attributes.load text <;> exact ⟨rfl, kept⟩

theorem save {file : ImageFile} (agrees : Codec.Agrees related file.path)
    (before : related left right) : Both related (file.save left) (file.save right) := by
  obtain ⟨answer, after, otherAfter, stored, again, kept⟩ :=
    (agrees.store file.attributes.save left right before).cases
  unfold ImageFile.save
  rw [stored, again]
  cases answer <;> exact ⟨rfl, kept⟩

theorem fileThumbnail {file : ImageFile} (agrees : Codec.Agrees related file.path)
    (before : related left right) : Both related (file.thumbnail left) (file.thumbnail right) := by
  obtain ⟨answer, after, otherAfter, shown, again, kept⟩ :=
    (agrees.thumbnail left right before).cases
  unfold ImageFile.thumbnail
  rw [shown, again]
  cases answer <;> exact ⟨rfl, kept⟩

theorem inspect (agrees : Codec.Agrees related path) (zone : Zone) (before : related left right) :
    Both related (PhotoTags.inspect zone path left) (PhotoTags.inspect zone path right) := by
  obtain ⟨answer, after, otherAfter, opened, again, kept⟩ := (agrees.openAt before).cases
  unfold PhotoTags.inspect
  rw [opened, again]
  rcases answer with (_ | _) | _ <;> exact ⟨rfl, kept⟩

theorem saveEdited {file : ImageFile} (agrees : Codec.Agrees related file.path) (zone : Zone)
    (updated : List String) (before : related left right) :
    Both related (PhotoTags.saveEdited zone file updated left)
      (PhotoTags.saveEdited zone file updated right) := by
  obtain ⟨answer, after, otherAfter, saved, again, kept⟩ := (agrees.save before).cases
  unfold PhotoTags.saveEdited
  rw [saved, again]
  rcases answer with (_ | _) | _
  · exact ⟨rfl, kept⟩
  · exact ⟨rfl, kept⟩
  · obtain ⟨answer, last, otherLast, reopened, again, kept⟩ := (agrees.openAt kept).cases
    dsimp only [ImageFile.reload]
    rw [reopened, again]
    rcases answer with (_ | _) | _ <;> exact ⟨rfl, kept⟩

theorem update (agrees : Codec.Agrees related path) (zone : Zone) (dryRun : Bool)
    (edits : List Edit) (before : related left right) :
    Both related (PhotoTags.update zone dryRun path edits left)
      (PhotoTags.update zone dryRun path edits right) := by
  obtain ⟨answer, after, otherAfter, opened, again, kept⟩ := (agrees.openAt before).cases
  unfold PhotoTags.update
  rw [opened, again]
  rcases answer with (_ | _) | file
  · exact ⟨rfl, kept⟩
  · exact ⟨rfl, kept⟩
  · dsimp only
    split
    · exact ⟨rfl, kept⟩
    · split
      · exact ⟨rfl, kept⟩
      · have edited : (applyEdits file edits).1.path = path :=
          (path_applyEdits file edits).trans (ImageFile.path_of_openAt opened)
        exact (edited ▸ agrees).saveEdited zone _ kept

end Codec.Agrees

end

def Step.isApart : Step → Bool
  | .stage _ _ => true
  | .commit _ => true
  | _ => false

namespace Session

def pathOf? {σ : Type} (session : Session σ) : Step → Option Path
  | .fetch path | .stage path _ | .commit path | .thumbnail path => some path
  | .openFile _ path | .inspect path | .update path _ _ => some path
  | .reload name | .save name | .fileThumbnail name => (session.file? name).map (·.path)
  | .close _ | .get _ _ | .set _ _ _ => none

def Related {σ τ : Type} (related : σ → τ → Prop) (left : Session σ) (right : Session τ) : Prop :=
  (left.files = right.files ∧ left.zone = right.zone) ∧ related left.codec right.codec

section

variable {σ τ α : Type} {related : σ → τ → Prop} {left : Session σ} {right : Session τ}
  (shared : left.files = right.files ∧ left.zone = right.zone)

include shared

theorem afterCall_both (encode : α → Answer) {reply : Reply σ α} {other : Reply τ α}
    (both : Both related reply other) :
    Both (Related related) (left.afterCall encode reply) (right.afterCall encode other) := by
  obtain ⟨answer, after, otherAfter, rfl, rfl, kept⟩ := both.cases
  cases answer <;> exact ⟨rfl, shared, kept⟩

theorem afterAccess_both (encode : α → Answer) {access : Access σ α} {other : Access τ α}
    (both : Both related access other) :
    Both (Related related) (left.afterAccess encode access) (right.afterAccess encode other) := by
  obtain ⟨answer, after, otherAfter, rfl, rfl, kept⟩ := both.cases
  cases answer <;> exact ⟨rfl, shared, kept⟩

theorem afterReading_both (name : String) {access : Access σ ImageFile}
    {other : Access τ ImageFile} (both : Both related access other) :
    Both (Related related) (left.afterReading name access) (right.afterReading name other) := by
  obtain ⟨answer, after, otherAfter, rfl, rfl, kept⟩ := both.cases
  cases answer with
  | error failure => exact ⟨rfl, shared, kept⟩
  | ok file => exact ⟨rfl, ⟨by simp only [afterReading, keep, drop, shared.1], shared.2⟩, kept⟩

theorem afterReport_both {result : Option Report × σ} {other : Option Report × τ}
    (both : Both related result other) :
    Both (Related related) (left.afterReport result) (right.afterReport other) := by
  obtain ⟨answer, after, otherAfter, rfl, rfl, kept⟩ := both.cases
  cases answer <;> exact ⟨rfl, shared, kept⟩

theorem withFile_both (before : related left.codec right.codec) {name : String}
    {work : ImageFile → Answer × Session σ} {otherWork : ImageFile → Answer × Session τ}
    (works : ∀ file, left.file? name = some file →
      Both (Related related) (work file) (otherWork file)) :
    Both (Related related) (left.withFile name work) (right.withFile name otherWork) := by
  have same : right.file? name = left.file? name := by rw [file?, file?, shared.1]
  unfold withFile
  rw [same]
  cases found : left.file? name with
  | none => exact ⟨rfl, shared, before⟩
  | some file => exact works file found

end

section

variable {σ τ : Type} [Codec σ] [Codec τ] {related : σ → τ → Prop}

/-- A step has the same answer in related sessions, which stay related, if the calls agree that it
can make. -/
theorem step_agrees {left : Session σ} {right : Session τ} (sessions : Related related left right)
    (step : Step)
    (agrees : ∀ path, left.pathOf? step = some path → Codec.Agrees related path)
    (apart : step.isApart = true →
      ∀ path, left.pathOf? step = some path → Codec.AgreesApart related path) :
    Both (Related related) (left.step step) (right.step step) := by
  obtain ⟨shared, before⟩ := sessions
  cases step with
  | fetch path => exact afterCall_both shared _ ((agrees path rfl).fetch _ _ before)
  | stage path text => exact afterCall_both shared _ ((apart rfl path rfl).stage text _ _ before)
  | commit path => exact afterCall_both shared _ ((apart rfl path rfl).commit _ _ before)
  | thumbnail path => exact afterCall_both shared _ ((agrees path rfl).thumbnail _ _ before)
  | openFile name path => exact afterReading_both shared name ((agrees path rfl).openAt before)
  | close name =>
      exact ⟨by simp only [step, file?, shared.1], ⟨by simp only [step, drop, shared.1], shared.2⟩,
        before⟩
  | reload name =>
      refine withFile_both shared before fun file found => ?_
      exact afterReading_both shared name ((agrees file.path (by simp [pathOf?, found])).openAt before)
  | save name =>
      refine withFile_both shared before fun file found => ?_
      exact afterAccess_both shared _ ((agrees file.path (by simp [pathOf?, found])).save before)
  | fileThumbnail name =>
      refine withFile_both shared before fun file found => ?_
      exact afterAccess_both shared _
        ((agrees file.path (by simp [pathOf?, found])).fileThumbnail before)
  | get name tag => exact withFile_both shared before fun file _ => ⟨rfl, shared, before⟩
  | set name tag value =>
      refine withFile_both shared before fun file _ => ⟨rfl, ⟨?_, shared.2⟩, before⟩
      simp only [keep, drop, shared.1]
  | inspect path =>
      simp only [step, ← shared.2]
      exact afterReport_both shared ((agrees path rfl).inspect left.zone before)
  | update path edits dryRun =>
      simp only [step, ← shared.2]
      exact afterReport_both shared ((agrees path rfl).update left.zone dryRun edits before)

end

end Session

structure Codec.Hom {σ τ : Type} [Codec σ] [Codec τ] (map : σ → τ) : Prop where
  fetch : ∀ path codec, Codec.fetch path (map codec) =
    ((Codec.fetch path codec).1, map (Codec.fetch path codec).2)
  stage : ∀ path text codec, Codec.stage path text (map codec) =
    ((Codec.stage path text codec).1, map (Codec.stage path text codec).2)
  commit : ∀ path codec, Codec.commit path (map codec) =
    ((Codec.commit path codec).1, map (Codec.commit path codec).2)
  thumbnail : ∀ path codec, Codec.thumbnail path (map codec) =
    ((Codec.thumbnail path codec).1, map (Codec.thumbnail path codec).2)

def Session.map {σ τ : Type} (change : σ → τ) (session : Session σ) : Session τ :=
  ⟨change session.codec, session.files, session.zone⟩

section

variable {σ τ : Type} [Codec σ] [Codec τ] {map : σ → τ} (hom : Codec.Hom map)

include hom

theorem Codec.Hom.agreesApart (path : Path) :
    Codec.AgreesApart (fun codec image => map codec = image) path where
  stage text codec image same := by
    subst same
    rw [hom.stage]
    exact ⟨rfl, rfl⟩
  commit codec image same := by
    subst same
    rw [hom.commit]
    exact ⟨rfl, rfl⟩

theorem Codec.Hom.agrees (path : Path) :
    Codec.Agrees (fun codec image => map codec = image) path where
  fetch codec image same := by
    subst same
    rw [hom.fetch]
    exact ⟨rfl, rfl⟩
  store := (hom.agreesApart path).store
  thumbnail codec image same := by
    subst same
    rw [hom.thumbnail]
    exact ⟨rfl, rfl⟩

theorem Codec.Hom.openAt (path : Path) (codec : σ) :
    ImageFile.openAt path (map codec) =
      ((ImageFile.openAt path codec).1, map (ImageFile.openAt path codec).2) :=
  ((hom.agrees path).openAt rfl).eq_map

theorem Session.step_map (session : Session σ) (step : Step) :
    (session.map map).step step = ((session.step step).1, (session.step step).2.map map) := by
  have sessions : Session.Related (fun codec image => map codec = image) session
      (session.map map) := ⟨⟨rfl, rfl⟩, rfl⟩
  obtain ⟨answer, ⟨files, zone⟩, codec⟩ :=
    Session.step_agrees sessions step (fun path _ => hom.agrees path)
    fun _ path _ => hom.agreesApart path
  generalize (session.map map).step step = reply at answer files zone codec ⊢
  obtain ⟨_, _, _, _⟩ := reply
  dsimp only at answer files zone codec
  subst answer files zone codec
  rfl

theorem Session.run_map (session : Session σ) (steps : List Step) :
    (session.map map).run steps = ((session.run steps).1, (session.run steps).2.map map) := by
  induction steps generalizing session with
  | nil => rfl
  | cons step rest ih => simp only [Session.run, Session.step_map hom, ih]

end

structure Codec.Keeps {σ : Type} [Codec σ] (holds : σ → Prop) (path : Path) : Prop where
  fetch : ∀ codec, holds codec → holds (Codec.fetch path codec).2
  store : ∀ text codec, holds codec → holds (Codec.store path text codec).2
  thumbnail : ∀ codec, holds codec → holds (Codec.thumbnail path codec).2

structure Codec.KeepsApart {σ : Type} [Codec σ] (holds : σ → Prop) (path : Path) : Prop where
  stage : ∀ text codec, holds codec → holds (Codec.stage path text codec).2
  commit : ∀ codec, holds codec → holds (Codec.commit path codec).2

section

variable {σ : Type} [Codec σ] {holds : σ → Prop} {path : Path}

theorem Codec.KeepsApart.agrees (keeps : Codec.KeepsApart holds path) :
    Codec.AgreesApart (fun codec other => codec = other ∧ holds codec) path where
  stage text codec other same := by
    obtain ⟨rfl, before⟩ := same
    exact ⟨rfl, rfl, keeps.stage text codec before⟩
  commit codec other same := by
    obtain ⟨rfl, before⟩ := same
    exact ⟨rfl, rfl, keeps.commit codec before⟩

theorem Codec.KeepsApart.store (keeps : Codec.KeepsApart holds path) (text : String) (codec : σ)
    (before : holds codec) : holds (Codec.store path text codec).2 :=
  (keeps.agrees.store text codec codec ⟨rfl, before⟩).2.2

theorem Codec.Keeps.agrees (keeps : Codec.Keeps holds path) :
    Codec.Agrees (fun codec other => codec = other ∧ holds codec) path where
  fetch codec other same := by
    obtain ⟨rfl, before⟩ := same
    exact ⟨rfl, rfl, keeps.fetch codec before⟩
  store text codec other same := by
    obtain ⟨rfl, before⟩ := same
    exact ⟨rfl, rfl, keeps.store text codec before⟩
  thumbnail codec other same := by
    obtain ⟨rfl, before⟩ := same
    exact ⟨rfl, rfl, keeps.thumbnail codec before⟩

theorem Codec.Keeps.update (keeps : Codec.Keeps holds path) (zone : Zone) (dryRun : Bool)
    (edits : List Edit) (codec : σ) (before : holds codec) :
    holds (PhotoTags.update zone dryRun path edits codec).2 :=
  (keeps.agrees.update zone dryRun edits ⟨rfl, before⟩).2.2

namespace Session

theorem step_keeps (session : Session σ) (step : Step)
    (keeps : ∀ path, session.pathOf? step = some path → Codec.Keeps holds path)
    (apart : step.isApart = true →
      ∀ path, session.pathOf? step = some path → Codec.KeepsApart holds path)
    (before : holds session.codec) : holds (session.step step).2.codec := by
  have sessions : Related (fun codec other => codec = other ∧ holds codec) session session :=
    ⟨⟨rfl, rfl⟩, rfl, before⟩
  obtain ⟨-, -, -, after⟩ := step_agrees sessions step (fun path about => (keeps path about).agrees)
    fun alone path about => (apart alone path about).agrees
  exact after

theorem run_keeps (keeps : ∀ path, Codec.Keeps holds path) (session : Session σ)
    (steps : List Step)
    (apart : ∀ step ∈ steps, step.isApart = true → ∀ path, Codec.KeepsApart holds path)
    (before : holds session.codec) : holds (session.run steps).2.codec := by
  induction steps generalizing session with
  | nil => exact before
  | cons step rest ih =>
      simp only [run]
      apply ih
      · exact fun later member => apart later (List.mem_cons_of_mem _ member)
      · exact step_keeps session step (fun path _ => keeps path)
          (fun alone path _ => apart step (List.mem_cons_self ..) alone path) before

end Session

end

inductive Codec.Call
  | fetch (path : Path) (ok : Bool)
  | stage (path : Path) (text : String) (ok : Bool)
  | commit (path : Path) (ok : Bool)
  | thumbnail (path : Path) (ok : Bool)
  deriving DecidableEq, Repr

structure Recorded (σ : Type) where
  codec : σ
  calls : List Codec.Call

namespace Recorded

variable {σ : Type}

def new (codec : σ) : Recorded σ := ⟨codec, []⟩

def after {α : Type} (recorded : Recorded σ) (call : Bool → Codec.Call) (reply : Reply σ α) :
    Reply (Recorded σ) α :=
  (reply.1, ⟨reply.2, recorded.calls ++ [call reply.1.isOk]⟩)

instance [Codec σ] : Codec (Recorded σ) where
  fetch path recorded := recorded.after (.fetch path) (Codec.fetch path recorded.codec)
  stage path text recorded :=
    recorded.after (.stage path text) (Codec.stage path text recorded.codec)
  commit path recorded := recorded.after (.commit path) (Codec.commit path recorded.codec)
  thumbnail path recorded :=
    recorded.after (.thumbnail path) (Codec.thumbnail path recorded.codec)

theorem hom [Codec σ] : Codec.Hom (Recorded.codec : Recorded σ → σ) where
  fetch _ _ := rfl
  stage _ _ _ := rfl
  commit _ _ := rfl
  thumbnail _ _ := rfl

end Recorded

end PhotoTags

import PhotoTags.Proofs.Codec.Staging
import PhotoTags.Proofs.Codec.Containment
import PhotoTags.Proofs.Files.Paths

/-!
The backups that a run leaves. The first commit that writes an image anew copies it before, no later
one copies it again, and nothing else writes to the place of a backup: so whenever a backup is there
it is the image of the start of the run, however many commits followed or failed and however the
paths were spelled. Only where there was no room for all of it has the first copy left a part, which
no later one completes.
-/

namespace PhotoTags

namespace JpegCodec

def rewrites (path : Path) (codec : JpegCodec) : Bool :=
  match codec.staged.get? path, codec.tree.read path with
  | some entries, .ok bytes =>
      match Image.plan bytes (Image.Selection.ofEntries entries).fields with
      | .ok (.segments _) => (Codec.commit path codec).1.isOk
      | _ => false
  | _, _ => false

end JpegCodec

structure Watched where
  codec : JpegCodec
  commits : List (Path × Bool)
  deriving DecidableEq, Repr

namespace Watched

def new (codec : JpegCodec) : Watched := ⟨codec, []⟩

def after {α : Type} (watched : Watched) (more : List (Path × Bool)) (reply : Reply JpegCodec α) :
    Reply Watched α :=
  (reply.1, ⟨reply.2, watched.commits ++ more⟩)

instance : Codec Watched where
  fetch path watched := watched.after [] (Codec.fetch path watched.codec)
  stage path text watched := watched.after [] (Codec.stage path text watched.codec)
  commit path watched :=
    watched.after [(path, watched.codec.rewrites path)] (Codec.commit path watched.codec)
  thumbnail path watched := watched.after [] (Codec.thumbnail path watched.codec)

theorem hom : Codec.Hom Watched.codec where
  fetch _ _ := rfl
  stage _ _ _ := rfl
  commit _ _ := rfl
  thumbnail _ _ := rfl

end Watched

structure FileTree.Fresh (tree : FileTree) (paths : Path → Prop) : Prop where
  extended : ∀ path, paths path → path.extension? ≠ none
  apart : ∀ path other, paths path → paths other → path ≠ other →
    ¬ tree.Shares path.backup other
  vacant : ∀ path, paths path → tree.holds path.backup = false

def HoldsFirst (start now : FileTree) (path : Path) (spot : Location) : Prop :=
  ∃ place bytes, start.locate path = .ok place ∧ start.locate path.backup = .ok spot ∧
    start.node? place = some (.file bytes) ∧
    now.node? spot = some (.file (start.fitting spot bytes))

structure BackedUp (paths : Path → Prop) (start now : FileTree) (commits : List (Path × Bool)) :
    Prop where
  barriers : now.barriers = start.barriers
  leads : ∀ path place, now.locate path = .ok place ↔ start.locate path = .ok place
  within : ∀ commit ∈ commits, paths commit.1
  elsewhere : ∀ place, now.node? place = start.node? place ∨
    (∃ path, (path, true) ∈ commits ∧ start.locate path = .ok place) ∨
    ∃ path, paths path ∧ start.locate path.backup = .ok place
  first : ∀ path spot, paths path → start.locate path.backup = .ok spot →
    now.node? spot = none ∨ ∃ other, paths other ∧ HoldsFirst start now other spot
  made : ∀ path, (path, true) ∈ commits → ∃ place spot, start.locate path = .ok place ∧
    start.locate path.backup = .ok spot ∧ now.node? spot ≠ none

namespace FileTree.Fresh

variable {tree : FileTree} {paths : Path → Prop} (fresh : tree.Fresh paths)

include fresh

theorem not_shares {path other : Path} (member : paths path) (otherMember : paths other) :
    ¬ tree.Shares path.backup other := by
  by_cases same : path = other
  · subst same
    rintro ⟨place, beside, found⟩
    obtain ⟨directory, name, own, marked⟩ := exists_beside (fresh.extended path member) found beside
    rw [own] at marked
    exact Path.ne_append_backupMark name (List.singleton_inj.mp (List.append_cancel_left marked))
  · exact fresh.apart path other member otherMember same

theorem node?_backup {path : Path} (member : paths path) {spot : Location}
    (beside : tree.locate path.backup = .ok spot) : tree.node? spot = none :=
  node?_of_not_holds (fresh.vacant path member) beside

theorem backedUp : BackedUp paths tree tree [] where
  barriers := rfl
  leads _ _ := Iff.rfl
  within := by simp
  elsewhere _ := .inl rfl
  first _ _ member beside := .inl (fresh.node?_backup member beside)
  made := by simp

end FileTree.Fresh

theorem HoldsFirst.of_same {start now after : FileTree} {path : Path} {spot : Location}
    (holds : HoldsFirst start now path spot) (same : after.node? spot = now.node? spot) :
    HoldsFirst start after path spot := by
  obtain ⟨place, bytes, found, beside, file, kept⟩ := holds
  exact ⟨place, bytes, found, beside, file, same.trans kept⟩

namespace BackedUp

variable {paths : Path → Prop} {start now : FileTree} {commits : List (Path × Bool)}
  (fresh : start.Fresh paths) (backedUp : BackedUp paths start now commits)

include fresh backedUp

theorem node?_of_vacant {path : Path} (member : paths path) {place spot : Location}
    (found : start.locate path = .ok place) (beside : start.locate path.backup = .ok spot)
    (vacant : now.node? spot = none) : now.node? place = start.node? place := by
  rcases backedUp.elsewhere place with same | ⟨other, rewritten, shared⟩ | ⟨other, inside, shared⟩
  · exact same
  · obtain ⟨otherPlace, otherSpot, otherFound, otherBeside, held⟩ := backedUp.made other rewritten
    have one : otherPlace = place := Except.ok.inj (otherFound.symm.trans shared)
    have spots := (FileTree.eq_iff_beside (fresh.extended other (backedUp.within _ rewritten))
      (fresh.extended path member) otherFound otherBeside found beside).mp one
    rw [spots, vacant] at held
    exact absurd rfl held
  · exact absurd ⟨place, shared, found⟩ (fresh.not_shares inside member)

/-- What stands where the backup of an image leads is what the image was at the start, as far as there
is room for it. -/
theorem eq_of_backup {path : Path} (member : paths path) {place spot : Location}
    (found : start.locate path = .ok place) (beside : start.locate path.backup = .ok spot)
    (held : now.node? spot ≠ none) :
    ∃ bytes, start.node? place = some (.file bytes) ∧
      now.node? spot = some (.file (start.fitting spot bytes)) := by
  rcases backedUp.first path spot member beside with vacant | ⟨other, inside, otherPlace, bytes,
    otherFound, otherBeside, file, kept⟩
  · exact absurd vacant held
  · have one := (FileTree.eq_iff_beside (fresh.extended other inside)
      (fresh.extended path member) otherFound otherBeside found beside).mpr rfl
    exact ⟨bytes, one ▸ file, kept⟩

omit fresh in
theorem idle {path : Path} (member : paths path) :
    BackedUp paths start now (commits ++ [(path, false)]) where
  barriers := backedUp.barriers
  leads := backedUp.leads
  within commit listed := by
    rcases List.mem_append.mp listed with before | new
    · exact backedUp.within commit before
    · exact List.mem_singleton.mp new ▸ member
  elsewhere place := by
    rcases backedUp.elsewhere place with same | ⟨other, rewritten, found⟩ | spare
    · exact .inl same
    · exact .inr (.inl ⟨other, List.mem_append_left _ rewritten, found⟩)
    · exact .inr (.inr spare)
  first := backedUp.first
  made other rewritten := by
    rcases List.mem_append.mp rewritten with before | new
    · exact backedUp.made other before
    · simp at new

omit fresh in
/-- A file has been filled at one spot, which is the place of an image that was written anew or of a
backup. -/
theorem filled {after : FileTree} {spot : Location} {more : List (Path × Bool)}
    (barriers : after.barriers = now.barriers)
    (leads : ∀ path place, after.locate path = .ok place ↔ now.locate path = .ok place)
    (others : ∀ location, spot ≠ location → after.node? location = now.node? location)
    (something : after.node? spot ≠ none) (within : ∀ commit ∈ more, paths commit.1)
    (reached : (∃ path, (path, true) ∈ commits ++ more ∧ start.locate path = .ok spot) ∨
      ∃ path, paths path ∧ start.locate path.backup = .ok spot)
    (first : ∀ path, paths path → start.locate path.backup = .ok spot →
      ∃ other, paths other ∧ HoldsFirst start after other spot)
    (made : ∀ path, (path, true) ∈ more → ∃ place location, start.locate path = .ok place ∧
      start.locate path.backup = .ok location ∧ after.node? location ≠ none) :
    BackedUp paths start after (commits ++ more) where
  barriers := barriers.trans backedUp.barriers
  leads path place := (leads path place).trans (backedUp.leads path place)
  within commit listed :=
    (List.mem_append.mp listed).elim (backedUp.within commit) (within commit)
  elsewhere location := by
    by_cases same : spot = location
    · exact .inr (same ▸ reached)
    · rw [others location same]
      refine (backedUp.elsewhere location).imp id (.imp ?_ id)
      rintro ⟨path, before, found⟩
      exact ⟨path, List.mem_append_left _ before, found⟩
  first path location member beside := by
    by_cases same : spot = location
    · exact .inr (same ▸ first path member (same ▸ beside))
    · rw [others location same]
      refine (backedUp.first path location member beside).imp id ?_
      rintro ⟨other, listed, holds⟩
      exact ⟨other, listed, holds.of_same (others location same)⟩
  made path listed := by
    rcases List.mem_append.mp listed with before | new
    · obtain ⟨place, location, found, beside, held⟩ := backedUp.made path before
      refine ⟨place, location, found, beside, ?_⟩
      by_cases same : spot = location
      · exact same ▸ something
      · rwa [others location same]
    · exact made path new

theorem copied {path : Path} (member : paths path) (missing : now.holds path.backup = false) :
    BackedUp paths start (now.copy path path.backup).2 commits := by
  rcases now.copy_cases path path.backup with ⟨cause, failed⟩ | ⟨bytes, spot, read, writable, made⟩
  · rwa [failed]
  rw [made, FileTree.fitting_congr backedUp.barriers]
  obtain ⟨⟨-, beside⟩, free, -⟩ := FileTree.writable_eq_ok_iff.mp writable
  obtain ⟨place, found, file⟩ := FileTree.read_eq_ok_iff.mp read
  have leads := FileTree.locate_put_iff free (start.fitting spot bytes)
  have nodes := FileTree.node?_put_file free (start.fitting spot bytes)
  have vacant := FileTree.node?_of_not_holds missing beside
  rw [backedUp.leads] at beside found
  rw [backedUp.node?_of_vacant fresh member found beside vacant] at file
  have copy := nodes spot
  rw [if_pos rfl] at copy
  show BackedUp paths start (now.put spot (.file (start.fitting spot bytes))) commits
  rw [← List.append_nil commits]
  exact backedUp.filled rfl leads (fun location differs => by rw [nodes, if_neg differs])
    (by rw [copy]; exact Option.some_ne_none _) (by simp) (.inr ⟨path, member, beside⟩)
    (fun _ _ _ => ⟨path, member, place, bytes, found, beside, file, copy⟩) (by simp)

/-- Writing an image anew, whose backup is there, leaves all backups as they are. -/
theorem rewritten {path : Path} (member : paths path) {content : Bytes} {after : FileTree}
    (holds : now.holds path.backup = true) (written : now.write path content = .ok after) :
    BackedUp paths start after (commits ++ [(path, true)]) := by
  obtain ⟨place, found, -, nodes⟩ := FileTree.node?_write written
  obtain ⟨spot, beside, held⟩ := FileTree.holds_iff.mp holds
  rw [backedUp.leads] at found beside
  have apart {other : Path} (inside : paths other) : start.locate other.backup ≠ .ok place :=
    fun otherBeside => fresh.not_shares inside member ⟨place, otherBeside, found⟩
  refine backedUp.filled (FileTree.barriers_write written) (FileTree.locate_write_iff written)
    (fun location differs => by rw [nodes, if_neg differs]) (by simp [nodes]) (by simpa using member)
    (.inl ⟨path, by simp, found⟩) (fun other inside same => absurd same (apart inside)) ?_
  intro other listed
  obtain rfl : other = path := by simpa using listed
  have differs : place ≠ spot := by
    rintro rfl
    exact apart member beside
  refine ⟨place, spot, found, beside, ?_⟩
  rwa [nodes, if_neg differs]

theorem backedUpFirst {path : Path} (member : paths path) {middle : FileTree}
    {result : Except Image.Problem Unit}
    (copied : Image.backUpIf true now path = (result, middle)) :
    BackedUp paths start middle commits ∧ (result = .ok () → middle.holds path.backup = true) := by
  rcases Image.backUpIf_cases copied with ⟨-, rfl, held⟩ | ⟨-, missing, rfl, succeeded⟩
  · exact ⟨backedUp, fun _ => held rfl⟩
  · exact ⟨backedUp.copied fresh member missing,
      fun done => FileTree.holds_copy (succeeded.mp done)⟩

omit backedUp in
theorem commit {codec : JpegCodec} (backedUp : BackedUp paths start codec.tree commits)
    (wanted : codec.backups = true) {path : Path} (member : paths path) :
    BackedUp paths start (Codec.commit path codec).2.tree
      (commits ++ [(path, codec.rewrites path)]) := by
  unfold JpegCodec.rewrites
  cases staged : codec.staged.get? path with
  | none =>
      rw [JpegCodec.commit_nothingStaged staged]
      exact backedUp.idle member
  | some entries =>
      have outcome := Image.save_outcome codec.backups path entries codec.tree
      rw [JpegCodec.commit_staged staged]
      dsimp only
      rw [wanted] at outcome ⊢
      generalize Image.save true path entries codec.tree = saved at outcome ⊢
      rcases saved with ⟨answer, after⟩
      dsimp only at outcome ⊢
      cases outcome with
      | unread read =>
          rw [read]
          exact backedUp.idle member
      | unplanned read planned =>
          simp only [read, planned]
          exact backedUp.idle member
      | idle read planned =>
          simp only [read, planned]
          exact backedUp.idle member
      | noBackup read planned copied =>
          simp only [read, planned]
          exact (backedUp.backedUpFirst fresh member copied).1.idle member
      | unwritten read planned copied =>
          simp only [read, planned]
          exact (backedUp.backedUpFirst fresh member copied).1.idle member
      | written read planned copied stored =>
          obtain ⟨kept, holds⟩ := backedUp.backedUpFirst fresh member copied
          obtain ⟨content, -, written⟩ := Image.writeSegments_eq_ok_iff.mp stored
          simp only [read, planned]
          exact kept.rewritten fresh member (holds rfl) written

end BackedUp

namespace Watched

def Kept (paths : Path → Prop) (start : FileTree) (watched : Watched) : Prop :=
  watched.codec.backups = true ∧ ((∀ commit ∈ watched.commits, paths commit.1) →
    BackedUp paths start watched.codec.tree watched.commits)

variable {paths : Path → Prop} {start : FileTree}

theorem kept_fetch (path : Path) (watched : Watched) (kept : Kept paths start watched) :
    Kept paths start (Codec.fetch path watched).2 := by
  show Kept paths start ⟨(Codec.fetch path watched.codec).2, watched.commits ++ []⟩
  rwa [JpegCodec.fetch_unchanged, List.append_nil]

theorem kept_thumbnail (path : Path) (watched : Watched) (kept : Kept paths start watched) :
    Kept paths start (Codec.thumbnail path watched).2 := by
  show Kept paths start ⟨(Codec.thumbnail path watched.codec).2, watched.commits ++ []⟩
  rwa [JpegCodec.thumbnail_unchanged, List.append_nil]

theorem kept_stage (path : Path) (text : String) (watched : Watched)
    (kept : Kept paths start watched) : Kept paths start (Codec.stage path text watched).2 := by
  show Kept paths start ⟨(Codec.stage path text watched.codec).2, watched.commits ++ []⟩
  rw [List.append_nil]
  cases decoded : Exchange.decode text with
  | error malformed => rwa [JpegCodec.stage_malformed decoded]
  | ok entries => rwa [JpegCodec.stage_decoded decoded]

theorem kept_commit (fresh : start.Fresh paths) (path : Path) (watched : Watched)
    (kept : Kept paths start watched) : Kept paths start (Codec.commit path watched).2 := by
  show Kept paths start ⟨(Codec.commit path watched.codec).2,
    watched.commits ++ [(path, watched.codec.rewrites path)]⟩
  refine ⟨(JpegCodec.commit_backups path watched.codec).trans kept.1, fun within => ?_⟩
  have member := within (path, watched.codec.rewrites path) (by simp)
  have before := kept.2 fun commit listed => within commit (List.mem_append_left _ listed)
  exact before.commit fresh kept.1 member

theorem kept_new {codec : JpegCodec} (fresh : codec.tree.Fresh paths)
    (wanted : codec.backups = true) : Kept paths codec.tree (new codec) :=
  ⟨wanted, fun _ => fresh.backedUp⟩

theorem kept_run (fresh : start.Fresh paths) (session : Session Watched) (steps : List Step)
    (before : Kept paths start session.codec) : Kept paths start (session.run steps).2.codec := by
  have apart (path : Path) : Codec.KeepsApart (Kept paths start) path :=
    ⟨kept_stage path, kept_commit fresh path⟩
  have keeps (path : Path) : Codec.Keeps (Kept paths start) path :=
    ⟨kept_fetch path, (apart path).store, kept_thumbnail path⟩
  exact session.run_keeps keeps steps (fun _ _ _ => apart) before

end Watched

def FileTree.HasRoomBeside (tree : FileTree) (path : Path) (image : Bytes) : Prop :=
  ∀ spot, tree.locate path.backup = .ok spot → tree.fitting spot image = image

/-- Without that room the copy fails, but what it has left is taken for the backup from then on. -/
theorem FileTree.backup_of_failed_copy {tree : FileTree} {path : Path} {image : Bytes}
    {spot : Location} (missing : tree.holds path.backup = false) (read : tree.read path = .ok image)
    (writable : tree.writable path.backup = .ok spot) (short : tree.fitting spot image ≠ image) :
    ∃ middle, Image.backUp tree path = (.error .noBackup, middle) ∧
      middle.read path.backup = .ok (tree.fitting spot image) ∧
      Image.backUp middle path = (.ok (), middle) := by
  have copied : tree.copy path path.backup =
      (.error .noRoom, tree.put spot (.file (tree.fitting spot image))) := by
    simp [copy, read, writable, short]
  obtain ⟨⟨-, located⟩, free, -⟩ := writable_eq_ok_iff.mp writable
  have left : (tree.put spot (.file (tree.fitting spot image))).read path.backup =
      .ok (tree.fitting spot image) := by
    refine read_eq_ok_iff.mpr ⟨spot, (locate_put_iff free _ _ _).mpr located, ?_⟩
    rw [node?_put_file free, if_pos rfl]
  refine ⟨_, ?_, left, ?_⟩
  · simp [Image.backUp, missing, copied]
  · simp [Image.backUp, holds_of_read left]

/-- What backups are worth after some commits: an image that was written anew has its backup, which
is what the image was at the start if there was room for all of it, whatever path it was reached by;
the images that were not written anew are as they were. -/
structure FileTree.KeepsFirst (start now : FileTree) (paths : Path → Prop)
    (commits : List (Path × Bool)) : Prop where
  made : ∀ path, (path, true) ∈ commits →
    ∃ image, start.read path = .ok image ∧ now.holds path.backup = true
  shared : ∀ path other spot, paths path → (other, true) ∈ commits → start.Shares path other →
    start.locate path.backup = .ok spot → now.holds path.backup = true
  first : ∀ path image, paths path → start.read path = .ok image →
    start.HasRoomBeside path image → now.holds path.backup = true →
      now.read path.backup = .ok image
  untouched : ∀ path image, paths path → start.read path = .ok image →
    (∀ other, (other, true) ∈ commits → ¬ start.Shares path other) → now.read path = .ok image

namespace BackedUp

variable {paths : Path → Prop} {start now : FileTree} {commits : List (Path × Bool)}
  (fresh : start.Fresh paths) (backedUp : BackedUp paths start now commits)

include fresh backedUp

theorem read_backup {path : Path} (member : paths path) {image : Bytes}
    (read : start.read path = .ok image) (room : start.HasRoomBeside path image)
    (holds : now.holds path.backup = true) : now.read path.backup = .ok image := by
  obtain ⟨place, found, file⟩ := FileTree.read_eq_ok_iff.mp read
  obtain ⟨spot, beside, held⟩ := FileTree.holds_iff.mp holds
  rw [backedUp.leads] at beside
  obtain ⟨bytes, old, kept⟩ := backedUp.eq_of_backup fresh member found beside held
  obtain rfl : image = bytes := by simpa [file] using old
  rw [room spot beside] at kept
  rw [← backedUp.leads] at beside
  exact FileTree.read_eq_ok_iff.mpr ⟨spot, beside, kept⟩

theorem keepsFirst : start.KeepsFirst now paths commits where
  made path rewritten := by
    obtain ⟨place, spot, found, beside, held⟩ := backedUp.made path rewritten
    obtain ⟨bytes, old, -⟩ :=
      backedUp.eq_of_backup fresh (backedUp.within _ rewritten) found beside held
    exact ⟨bytes, FileTree.read_eq_ok_iff.mpr ⟨place, found, old⟩,
      FileTree.holds_iff.mpr ⟨spot, (backedUp.leads _ _).mpr beside, held⟩⟩
  shared path other spot member rewritten same beside := by
    obtain ⟨place, found, otherFound⟩ := same
    obtain ⟨otherPlace, otherSpot, again, otherBeside, held⟩ := backedUp.made other rewritten
    have one : place = otherPlace := Except.ok.inj (otherFound.symm.trans again)
    have spots := (FileTree.eq_iff_beside (fresh.extended path member)
      (fresh.extended other (backedUp.within _ rewritten)) found beside again otherBeside).mp one
    exact FileTree.holds_iff.mpr ⟨spot, (backedUp.leads _ _).mpr beside, spots ▸ held⟩
  first _ _ member read room holds := backedUp.read_backup fresh member read room holds
  untouched path image member read untouched := by
    obtain ⟨place, found, file⟩ := FileTree.read_eq_ok_iff.mp read
    refine FileTree.read_eq_ok_iff.mpr ⟨place, (backedUp.leads _ _).mpr found, ?_⟩
    rcases backedUp.elsewhere place with same | ⟨other, rewritten, shared⟩ | ⟨other, inside, shared⟩
    · rw [same, file]
    · exact absurd ⟨place, found, shared⟩ (untouched other rewritten)
    · exact absurd ⟨place, shared, found⟩ (fresh.not_shares inside member)

end BackedUp

/-- Up to any point of a run with backups on, in which no other paths are committed than some with
extensions, none of them leading to the backup of another and none with a backup at the start, the
backups are the images of the start wherever there was room for these. -/
theorem backups_keep_first_images {paths : Path → Prop} {session : Session JpegCodec}
    (wanted : session.codec.backups = true) (fresh : session.codec.tree.Fresh paths)
    (steps : List Step) :
    let plain := session.run steps
    let watched := (session.map Watched.new).run steps
    plain.1 = watched.1 ∧ plain.2 = watched.2.map Watched.codec ∧
      ((∀ commit ∈ watched.2.codec.commits, paths commit.1) →
        session.codec.tree.KeepsFirst plain.2.codec.tree paths watched.2.codec.commits) := by
  intro plain watched
  have same : plain = (watched.1, watched.2.map Watched.codec) :=
    Session.run_map Watched.hom (session.map Watched.new) steps
  have kept : Watched.Kept paths session.codec.tree watched.2.codec :=
    Watched.kept_run fresh (session.map Watched.new) steps (Watched.kept_new fresh wanted)
  rw [same]
  exact ⟨rfl, rfl, fun within => (kept.2 within).keepsFirst fresh⟩

theorem backups_keep_first_of_two_spellings :
    let image : Bytes := [0xFF, 0xD8, 0xFF, 0xE0, 0, 2, 0xFF, 0xFE, 0, 2, 0xFF, 0xDA, 0, 3, 1] ++
      List.replicate 100 0
    let paths := fun path : Path => path ∈ [⟨"a.jpg"⟩, ⟨"./a.jpg"⟩]
    let session := Session.new .utc (JpegCodec.new { nodes := [(["a.jpg"], .file image)] } true)
    let steps : List Step := [.update ⟨"a.jpg"⟩ [("Make", "FOO")] false,
      .stage ⟨"./a.jpg"⟩ "1 Make=3 BAR", .commit ⟨"./a.jpg"⟩]
    let commits := [(⟨"a.jpg"⟩, true), (⟨"./a.jpg"⟩, true)]
    session.codec.tree.Fresh paths ∧
      ((session.map Watched.new).run steps).2.codec.commits = commits ∧
      ((session.run steps).2.codec.tree.read ⟨"a.jpg"⟩).toOption ≠ some image ∧
      session.codec.tree.KeepsFirst (session.run steps).2.codec.tree paths commits ∧
      (session.run steps).2.codec.tree.read ⟨"a.jpg.bak"⟩ = .ok image := by
  intro image paths session steps commits
  have made : ((session.map Watched.new).run steps).2.codec.commits = commits := by
    decide +kernel
  have places : ∀ path ∈ [Path.mk "a.jpg", ⟨"./a.jpg"⟩],
      session.codec.tree.locate path = .ok ["a.jpg"] ∧
        session.codec.tree.locate path.backup = .ok ["a.jpg.bak"] := by
    simp only [List.forall_mem_cons]
    exact ⟨⟨rfl, rfl⟩, ⟨rfl, rfl⟩, by simp⟩
  have fresh : session.codec.tree.Fresh paths := by
    refine ⟨by decide, fun path other member otherMember _ => ?_, by decide +kernel⟩
    rintro ⟨place, beside, found⟩
    have one := Except.ok.inj ((places path member).2.symm.trans beside)
    have two := Except.ok.inj ((places other otherMember).1.symm.trans found)
    exact absurd (one.trans two.symm) (by decide)
  obtain ⟨-, -, keeps⟩ := backups_keep_first_images rfl fresh steps
  have within : ∀ commit ∈ ((session.map Watched.new).run steps).2.codec.commits,
      paths commit.1 := by
    rw [made]
    decide
  have kept := keeps within
  rw [made] at kept
  obtain ⟨first, -, saved⟩ := kept.made ⟨"a.jpg"⟩ (by decide)
  have room : session.codec.tree.HasRoomBeside ⟨"a.jpg"⟩ image := fun _ _ => rfl
  exact ⟨fresh, made, by decide +kernel, kept,
    kept.first ⟨"a.jpg"⟩ image (by decide) rfl room saved⟩

/-- Two ways in which a backup is not the first image. A path that leads to the backup of another,
but is written otherwise, is an image like any other: writing it changes that backup. And what a
copy without room has left stays the backup, when the image is written later. -/
theorem backup_differs_from_first_image :
    let image : Bytes := [0xFF, 0xD8, 0xFF, 0xE0, 0, 2, 0xFF, 0xFE, 0, 2, 0xFF, 0xDA, 0, 3, 1] ++
      List.replicate 100 0
    let tree : FileTree := { nodes := [(["a.jpg"], .file image)] }
    let narrow : FileTree := { tree with barriers := [(["a.jpg.bak"], .room 3)] }
    let after := fun (tree : FileTree) (paths : List Path) =>
      (((Session.new .utc (JpegCodec.new tree true)).map Watched.new).run
        (paths.flatMap fun path => [.stage path "1 Make=3 FOO", .commit path])).2.codec
    let spelled : List Path := [⟨"a.jpg"⟩, ⟨"./a.jpg.bak"⟩]
    let twice : List Path := [⟨"a.jpg"⟩, ⟨"a.jpg"⟩]
    (∀ path ∈ spelled, path.extension? ≠ none ∧ tree.holds path.backup = false ∧
        ∀ other ∈ spelled, path.backup.same other = false) ∧
      tree.read ⟨"a.jpg"⟩ = .ok image ∧ narrow.read ⟨"a.jpg"⟩ = .ok image ∧
      (after tree spelled).commits = spelled.map (·, true) ∧
      (after tree spelled).codec.tree.holds ⟨"a.jpg.bak"⟩ = true ∧
      (after tree spelled).codec.tree.read ⟨"a.jpg.bak"⟩ ≠ .ok image ∧
      (after narrow twice).commits = [(⟨"a.jpg"⟩, false), (⟨"a.jpg"⟩, true)] ∧
      (after narrow twice).codec.tree.read ⟨"a.jpg.bak"⟩ = .ok [0xFF, 0xD8, 0xFF] := by
  intro image tree narrow after spelled twice
  exact ⟨by decide +kernel, rfl, rfl, by decide +kernel, by decide +kernel, by decide +kernel,
    by decide +kernel, by decide +kernel⟩

end PhotoTags

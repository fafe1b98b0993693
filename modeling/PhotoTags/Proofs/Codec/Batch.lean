import PhotoTags.Proofs.Codec.Locality

/-!
Updates of many images that share one codec. If the images are different files, each of them is
updated as it would be alone, whatever became of the others: neither the files nor what is staged
let one update know of another. So the order of the updates does not matter.
-/

namespace PhotoTags

structure UpdatedApart (start : Session JpegCodec) (before : FileTree) (step : Path → Step)
    (images : List Path) (answers : List Answer) (after : FileTree) : Prop where
  answers : answers = images.map fun image => (start.step (step image)).1
  reached : ∀ image ∈ images, ∀ location,
    start.codec.tree.Reaches start.codec.backups image location →
    after.node? location = (start.step (step image)).2.codec.tree.node? location
  elsewhere : ∀ location,
    (∀ image ∈ images, ¬ start.codec.tree.Reaches start.codec.backups image location) →
    after.node? location = before.node? location

namespace Session

variable {image : Path} (dryRun : Bool) (edits : List Edit)

theorem step_update_alike {left right : Session JpegCodec} (zones : left.zone = right.zone)
    (alike : JpegCodec.Alike image left.codec right.codec) :
    (left.step (.update image edits dryRun)).1 = (right.step (.update image edits dryRun)).1 ∧
      JpegCodec.Alike image (left.step (.update image edits dryRun)).2.codec
        (right.step (.update image edits dryRun)).2.codec := by
  obtain ⟨report, after, otherAfter, updated, again, kept⟩ :=
    ((JpegCodec.agrees image).update left.zone dryRun edits alike).cases
  simp only [Session.step, ← zones, updated, again]
  cases report <;> exact ⟨rfl, kept⟩

theorem zone_step_update (session : Session JpegCodec) (image : Path) :
    (session.step (.update image edits dryRun)).2.zone = session.zone := by
  simp only [Session.step]
  rcases update session.zone dryRun image edits session.codec with ⟨_ | _, after⟩ <;> rfl

theorem step_update_touched (session : Session JpegCodec) (image : Path) :
    JpegCodec.Touched (session.codec.tree.Reaches session.codec.backups image) session.codec
      (session.step (.update image edits dryRun)).2.codec := by
  have touched := JpegCodec.touched_update session.zone dryRun image edits session.codec
  simp only [Session.step]
  generalize update session.zone dryRun image edits session.codec = result at touched ⊢
  rcases result with ⟨_ | _, after⟩ <;> exact touched

theorem alike_of_step {start now : Session JpegCodec} {other : Path}
    (isImage : image.isImage = true) (otherIsImage : other.isImage = true)
    (differ : ¬ start.codec.tree.Shares image other)
    (alike : JpegCodec.Alike other start.codec now.codec) :
    JpegCodec.Alike other start.codec (now.step (.update image edits dryRun)).2.codec := by
  have touched := step_update_touched dryRun edits now image
  refine ⟨alike.backups.trans touched.backups.symm, alike.tree.trans ?_⟩
  refine .of_touched touched.tree fun location reached spot => differ ?_
  rw [← alike.backups] at spot
  exact FileTree.shares_of_reaches isImage otherIsImage
    ((FileTree.reaches_iff_of_leads alike.tree.leads location).mpr spot)
    ((FileTree.reaches_iff_of_leads alike.tree.leads location).mpr reached)

theorem run_updates {start : Session JpegCodec} (now : Session JpegCodec) {images : List Path}
    (zones : start.zone = now.zone)
    (isImage : ∀ image ∈ images, image.isImage = true)
    (distinct : images.Pairwise fun image other => ¬ start.codec.tree.Shares image other)
    (alike : ∀ image ∈ images, JpegCodec.Alike image start.codec now.codec) :
    UpdatedApart start now.codec.tree (.update · edits dryRun) images
      (now.run (images.map (.update · edits dryRun))).1
      (now.run (images.map (.update · edits dryRun))).2.codec.tree := by
  induction images generalizing now with
  | nil => exact ⟨rfl, by simp, fun _ _ => rfl⟩
  | cons image rest ih =>
      obtain ⟨first, later⟩ := List.pairwise_cons.mp distinct
      obtain ⟨named, restNamed⟩ := List.forall_mem_cons.mp isImage
      obtain ⟨own, others⟩ := List.forall_mem_cons.mp alike
      obtain ⟨answered, stepped⟩ := step_update_alike dryRun edits zones own
      have touched := step_update_touched dryRun edits now image
      have startTouched := step_update_touched dryRun edits start image
      have sameZone := zones.trans (zone_step_update dryRun edits now image).symm
      have followed := ih _ sameZone restNamed later fun other member =>
        alike_of_step dryRun edits named (restNamed other member)
          (first other member) (others other member)
      simp only [List.map_cons, Session.run]
      constructor
      · rw [List.map_cons, followed.answers, answered]
      · intro other member location reached
        rcases List.mem_cons.mp member with rfl | inside
        · rw [followed.elsewhere location fun _ member otherReached =>
            first _ member (FileTree.shares_of_reaches named (restNamed _ member) reached otherReached)]
          refine (stepped.tree.same location ?_).symm
          rw [startTouched.backups]
          exact (FileTree.reaches_iff_of_leads startTouched.tree.leads location).mpr reached
        · exact followed.reached other inside location reached
      · intro location spared
        obtain ⟨imageSpared, restSpared⟩ := List.forall_mem_cons.mp spared
        rw [followed.elsewhere location restSpared]
        refine touched.tree.node?_of_not_spot fun spot => imageSpared ?_
        rw [← own.backups] at spot
        exact (FileTree.reaches_iff_of_leads own.tree.leads location).mpr spot

end Session

/-- Updating collected images that are different files is, for each of them, updating it alone on a
new codec; in whatever order they are updated, each has the same answer and all files end up the
same. An aborted update has an answer of its own, and no say in the others. -/
theorem updates_independent (tree : FileTree) (paths : List Path) (backups dryRun : Bool)
    (edits : List Edit) (zone : Zone)
    (distinct : (tree.images paths).Pairwise fun image other => ¬ tree.Shares image other) :
    let start := Session.new zone (JpegCodec.new tree backups)
    let updated (order : List Path) := start.run (order.map (.update · edits dryRun))
    ∀ order, order.Perm (tree.images paths) →
      UpdatedApart start tree (.update · edits dryRun) order (updated order).1
        (updated order).2.codec.tree ∧
      ∀ other, other.Perm (tree.images paths) →
        (order.zip (updated order).1).Perm (other.zip (updated other).1) ∧
        ∀ location, (updated order).2.codec.tree.node? location =
          (updated other).2.codec.tree.node? location := by
  intro start updated
  have apart (order : List Path) (perm : order.Perm (tree.images paths)) :
      UpdatedApart start tree (.update · edits dryRun) order (updated order).1
        (updated order).2.codec.tree := by
    refine Session.run_updates dryRun edits start rfl ?_ ?_
      fun image _ => ⟨rfl, .refl backups image tree⟩
    · exact fun image member => FileTree.isImage_of_mem_images (perm.mem_iff.mp member)
    · exact perm.symm.pairwise distinct fun differ shares => differ shares.symm
  refine fun order perm => ⟨apart order perm, fun other otherPerm => ⟨?_, fun location => ?_⟩⟩
  · have paired (images : List Path) (answer : Path → Answer) :
        images.zip (images.map answer) = images.map fun image => (image, answer image) := by
      simpa using List.zip_map' (f := id) (g := answer) (l := images)
    rw [(apart order perm).answers, (apart other otherPerm).answers, paired, paired]
    exact (perm.trans otherPerm.symm).map _
  · by_cases reached : ∃ image ∈ order, tree.Reaches backups image location
    · obtain ⟨image, member, reached⟩ := reached
      have listed : image ∈ other := otherPerm.mem_iff.mpr (perm.mem_iff.mp member)
      rw [(apart order perm).reached image member location reached,
        (apart other otherPerm).reached image listed location reached]
    · have spared : ∀ image ∈ order, ¬ tree.Reaches backups image location :=
        fun image member spot => reached ⟨image, member, spot⟩
      rw [(apart order perm).elsewhere location spared, (apart other otherPerm).elsewhere location
        fun image member => spared image (perm.mem_iff.mpr (otherPerm.mem_iff.mp member))]

theorem updates_independent_of_failing :
    let image : Bytes := [0xFF, 0xD8, 0xFF, 0xE0, 0, 2, 0xFF, 0xFE, 0, 2, 0xFF, 0xDA, 0, 3, 1] ++
      List.replicate 100 0
    let tree : FileTree := { nodes := [(["a.jpg"], .file image), (["b.jpg"], .file [0])] }
    let good : Path := ⟨"a.jpg"⟩
    let broken : Path := ⟨"b.jpg"⟩
    let start := Session.new .utc (JpegCodec.new tree true)
    let updated (order : List Path) := start.run (order.map (.update · [("Make", "FOO")] false))
    tree.images [good, broken] = [good, broken] ∧
      ((updated [good, broken]).2.codec.tree.read good).toOption ≠ some image ∧
      ((updated [good, broken]).2.codec.tree.read good.backup).toOption = some image ∧
      ([good, broken].zip (updated [good, broken]).1).Perm
        ([broken, good].zip (updated [broken, good]).1) ∧
      ∀ location, (updated [good, broken]).2.codec.tree.node? location =
        (updated [broken, good]).2.codec.tree.node? location := by
  intro image tree good broken start updated
  have collected : tree.images [good, broken] = [good, broken] := by decide +kernel
  have distinct : (tree.images [good, broken]).Pairwise
      fun image other => ¬ tree.Shares image other := by
    rw [collected]
    simp only [List.pairwise_pair]
    rintro ⟨place, found, otherFound⟩
    have same : (tree.locate good).toOption = (tree.locate broken).toOption := by
      rw [found, otherFound]
    exact absurd same (by decide +kernel)
  obtain ⟨-, others⟩ := updates_independent tree [good, broken] true false [("Make", "FOO")]
    .utc distinct [good, broken] (by rw [collected])
  obtain ⟨answers, nodes⟩ := others [broken, good] (by rw [collected]; exact .swap ..)
  exact ⟨collected, by decide +kernel, by decide +kernel, answers, nodes⟩

end PhotoTags

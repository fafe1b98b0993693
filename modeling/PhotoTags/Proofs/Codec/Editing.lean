import PhotoTags.Proofs.Attributes.Lossless
import PhotoTags.Proofs.Codec.CommitFetch
import PhotoTags.Proofs.Image.Merging
import PhotoTags.Proofs.Image.Reported

/-!
One attribute of an image is changed and all are saved. Whatever was read is written back along with
it, so that the fields of the other tags are those that the texts read for them become. They stay as
they were only if each text becomes the very field that it was read from.
-/

namespace PhotoTags

open Attributes (lastValue?)

namespace Image

theorem named_of_read {bytes : Bytes} {found : Findings} (read : Image.read bytes = .ok found) :
    ∀ entry ∈ found.entries, ∃ tag ∈ Tag.table, tag.name = entry.1 := by
  intro entry member
  rcases reported_held read entry member with ⟨tag, listed, named, -⟩ | ⟨coordinate, -⟩
  · exact ⟨tag, listed, named⟩
  · have listed : ∀ name ∈ ["GPSLatitude", "GPSLongitude"], ∃ tag ∈ Tag.table, tag.name = name := by
      decide
    exact listed entry.1 coordinate

theorem withoutThumbnail_of_read {bytes : Bytes} {found : Findings}
    (read : Image.read bytes = .ok found) :
    Exchange.withoutThumbnail found.entries = found.entries := by
  refine List.filter_eq_self.mpr fun entry member => ?_
  obtain ⟨tag, listed, named⟩ := named_of_read read entry member
  simpa [named] using (name_of_table tag listed).1

theorem exists_segments {bytes : Bytes} {found : Findings} (read : Image.read bytes = .ok found) :
    ∃ segments, Jpeg.read bytes = .ok segments := by
  cases parsed : Jpeg.read bytes with
  | error cause => simp [Image.read, survey, parsed, Except.map] at read
  | ok segments => exact ⟨segments, rfl⟩

theorem namesFree_of_read {bytes : Bytes} {found : Findings} (read : Image.read bytes = .ok found) :
    ∀ entry ∈ found.entries ++ [Exchange.thumbnailEntry found.hasThumbnail],
      '=' ∉ entry.1.toList := by
  intro entry member
  rcases List.mem_append.mp member with own | flag
  · obtain ⟨tag, listed, named⟩ := named_of_read read entry own
    rw [← named]
    exact (name_of_table tag listed).2
  · rw [List.mem_singleton.mp flag]
    exact Exchange.thumbnailName_free

def SameFields (tag : Tag) (segments others : List Jpeg.Segment) : Prop :=
  ∀ field, IsOf tag field → (field ∈ fieldsIn others ↔ field ∈ fieldsIn segments)

def WrittenBack (tag : Tag) (segments : List Jpeg.Segment) (entries : List Entry) : Prop :=
  ∀ new, fieldIn? entries tag = some new →
    ∀ old, IsOf tag old → old.chain = 0 → (old ∈ fieldsIn segments ↔ old = new)

def HasThumbnailBeside (tag : Tag) (segments : List Jpeg.Segment) : Prop :=
  ∀ field ∈ fieldsIn segments, IsOf tag field → field.chain ≠ 0 →
    (contentOf segments).thumbnail.isSome = true

theorem sameFields_iff {tag : Tag} {segments again : List Jpeg.Segment} {entries : List Entry}
    (written : ∀ field, IsOf tag field → (field ∈ fieldsIn again ↔
      fieldIn? entries tag = some field ∨ field ∈ fieldsIn segments ∧
        if field.chain = 0 then fieldIn? entries tag = none
        else (contentOf segments).thumbnail.isSome = true)) :
    SameFields tag segments again ↔
      WrittenBack tag segments entries ∧ HasThumbnailBeside tag segments := by
  have first {field : Tiff.Field} (made : fieldIn? entries tag = some field) : field.chain = 0 :=
    (isOf_of_fieldIn? made).2
  constructor
  · intro same
    constructor
    · intro new made old isOf main
      rw [← same old isOf, written old isOf, made, if_pos main]
      simp [eq_comm]
    · intro field member isOf beside
      rw [← same field isOf, written field isOf, if_neg beside] at member
      rcases member with made | ⟨-, held⟩
      · exact absurd (first made) beside
      · exact held
  · rintro ⟨back, beside⟩ field isOf
    rw [written field isOf]
    by_cases main : field.chain = 0
    · cases made : fieldIn? entries tag with
      | none => simp [main]
      | some new => simp [main, back new made field isOf main, eq_comm]
    · have noField : fieldIn? entries tag ≠ some field := fun made => main (first made)
      simp only [noField, false_or, if_neg main]
      exact and_iff_left_of_imp fun member => beside field member isOf main

end Image

namespace JpegCodec

theorem fetch_eq_ok {path : Path} {codec after : JpegCodec} {wire : String}
    (fetched : fetch path codec = (.ok wire, after)) :
    after = codec ∧ ∃ image found, codec.tree.read path = .ok image ∧ Image.read image = .ok found ∧
      wire = Exchange.encodeWithThumbnail found.entries found.hasThumbnail := by
  unfold fetch Image.findingsAt Image.readAt at fetched
  cases read : codec.tree.read path with
  | error cause => simp [read] at fetched
  | ok image =>
      cases shown : Image.read image with
      | error cause => simp [read, shown] at fetched
      | ok found =>
          simp only [read, shown, Prod.mk.injEq, Except.ok.injEq] at fetched
          exact ⟨fetched.2.symm, image, found, rfl, shown, fetched.1.symm⟩

theorem openAt_eq_ok {path : Path} {before middle : JpegCodec} {file : ImageFile}
    (opened : ImageFile.openAt path before = (.ok file, middle)) :
    middle = before ∧ ∃ image found, before.tree.read path = .ok image ∧
      Image.read image = .ok found ∧
      file = ⟨path, .ofEntries (found.entries ++ [Exchange.thumbnailEntry found.hasThumbnail])⟩ := by
  unfold ImageFile.openAt at opened
  rcases fetched : Codec.fetch path before with ⟨failure | wire, after⟩
  · simp [fetched] at opened
  · obtain ⟨rfl, image, found, read, shown, rfl⟩ := fetch_eq_ok fetched
    rw [fetched] at opened
    dsimp only at opened
    cases loaded : Attributes.load
        (Exchange.encodeWithThumbnail found.entries found.hasThumbnail) with
    | error cause => simp [loaded] at opened
    | ok attributes =>
        rw [loaded] at opened
        obtain ⟨made, rfl⟩ := Prod.mk.inj opened
        obtain ⟨entries, decoded, rfl⟩ := Attributes.load_eq_ok_iff.mp loaded
        rw [Exchange.encodeWithThumbnail, Image.withoutThumbnail_of_read shown] at decoded
        rw [Exchange.eq_of_decode_setText (Image.namesFree_of_read shown) decoded] at made
        exact ⟨rfl, image, found, read, shown, (Except.ok.inj made).symm⟩

theorem exists_decoded {path : Path} {text : String} {before after : JpegCodec}
    (stored : Codec.store path text before = (.ok (), after)) :
    ∃ entries, Exchange.decode text = .ok entries := by
  cases decoded : Exchange.decode text with
  | ok entries => exact ⟨entries, rfl⟩
  | error fault =>
      rw [store_of_malformed path before decoded] at stored
      simp at stored

theorem store_of_save {file : ImageFile} {before after : JpegCodec}
    (saved : file.save before = (.ok (), after)) :
    Codec.store file.path file.attributes.save before = (.ok (), after) := by
  unfold ImageFile.save at saved
  rcases stored : Codec.store file.path file.attributes.save before with ⟨failure | answer, codec⟩
  · simp [stored] at saved
  · rw [stored] at saved
    obtain ⟨-, rfl⟩ := Prod.mk.inj saved
    rfl

theorem set_ofEntries {tag : Tag} (listed : tag ∈ Tag.table) (entries : List Entry)
    (value : String) :
    (Attributes.ofEntries entries).set tag.name value = .ofEntries (entries ++ [(tag.name, value)]) := by
  rw [Attributes.ofEntries_append, Attributes.add, if_neg (Image.name_of_table tag listed).1]

theorem lastValue?_ofEntries (entries : List Entry) (name : String) :
    lastValue? (Attributes.ofEntries entries).entries name =
      lastValue? (Exchange.withoutThumbnail entries) name := by
  have wellFormed := Attributes.wellFormed_ofEntries entries
  refine Option.ext fun text => ?_
  rw [Image.lastValue?_eq_some_iff wellFormed.nodup_names, wellFormed.mem_iff,
    Attributes.get?_ofEntries]

theorem save_of_edit {path : Path} {before after : JpegCodec} {image : Bytes}
    {found : Image.Findings} (shown : Image.read image = .ok found) {tag : Tag}
    (listed : tag ∈ Tag.table) {value : String}
    (saved : ((ImageFile.mk path (.ofEntries (found.entries ++
      [Exchange.thumbnailEntry found.hasThumbnail]))).set tag.name value).save before =
        (.ok (), after)) :
    ∃ entries answer, Image.save before.backups path entries before.tree = (.ok answer, after.tree) ∧
      ∀ other ∈ Tag.table, other ≠ tag →
        Image.fieldIn? (Image.convertible entries) other = Image.fieldIn? found.entries other := by
  have isTag := (Image.name_of_table tag listed).1
  have stored := store_of_save saved
  dsimp only [ImageFile.set] at stored
  rw [set_ofEntries listed] at stored
  have wellFormed := Attributes.wellFormed_ofEntries (found.entries ++
    [Exchange.thumbnailEntry found.hasThumbnail] ++ [(tag.name, value)])
  have namesFree : ∀ entry ∈ (Attributes.ofEntries (found.entries ++
      [Exchange.thumbnailEntry found.hasThumbnail] ++ [(tag.name, value)])).entries,
        '=' ∉ entry.1.toList := by
    intro entry member
    rcases List.mem_append.mp (Attributes.mem_ofEntries member) with old | new
    · exact Image.namesFree_of_read shown entry old
    · rw [List.mem_singleton.mp new]
      exact (Image.name_of_table tag listed).2
  obtain ⟨set, decoded⟩ := exists_decoded stored
  obtain ⟨answer, succeeded⟩ := save_of_store decoded stored
  rw [wellFormed.save_eq] at decoded
  obtain rfl := Exchange.eq_of_decode_setText namesFree decoded
  refine ⟨_, answer, succeeded, fun other otherListed differs => ?_⟩
  have flag : (Exchange.thumbnailEntry found.hasThumbnail).1 = Exchange.thumbnailName := rfl
  have otherName : tag.name ≠ other.name := fun same =>
    differs (Tag.eq_of_name tag listed other otherListed same).symm
  rw [Image.fieldIn?_convertible wellFormed.nodup_names otherListed, Image.fieldIn?, Image.fieldIn?,
    lastValue?_ofEntries, Attributes.withoutThumbnail_append, if_neg isTag,
    Attributes.lastValue?_append, if_neg otherName, Attributes.withoutThumbnail_append, if_pos flag,
    Image.withoutThumbnail_of_read shown]

/-- What was read is written back when an opened image is saved with one attribute set. Any other tag
that was not reported without a field then has the fields of before if and only if nothing was
written at all, or what was read of it becomes the only field that it had and none of its fields is
about a thumbnail that there is not. -/
theorem edit_keeps_others_iff {path : Path} {before middle after : JpegCodec} {file : ImageFile}
    {tag : Tag} {value : String} (opened : ImageFile.openAt path before = (.ok file, middle))
    (listed : tag ∈ Tag.table) (saved : (file.set tag.name value).save middle = (.ok (), after)) :
    ∃ image now segments found,
      before.tree.read path = .ok image ∧ after.tree.read path = .ok now ∧
      Jpeg.read image = .ok segments ∧ Image.read image = .ok found ∧
      (now = image ∨ Jpeg.HasScan segments → ∃ again, Jpeg.read now = .ok again ∧
        ∀ other ∈ Tag.table, other ≠ tag →
          (∀ text, (other.name, text) ∈ found.entries → Image.HoldsTag image other.name) →
          (Image.SameFields other segments again ↔
            now = image ∨ Image.WrittenBack other segments found.entries ∧
              Image.HasThumbnailBeside other segments)) := by
  obtain ⟨rfl, image, found, read, shown, rfl⟩ := openAt_eq_ok opened
  obtain ⟨segments, parsed⟩ := Image.exists_segments shown
  obtain ⟨entries, answer, succeeded, others⟩ := save_of_edit shown listed saved
  have same (other : Tag) : Image.SameFields other segments segments := fun _ _ => Iff.rfl
  by_cases unchanged : Image.plan image (Image.Selection.ofEntries entries).fields = .ok .unchanged
  · have kept := Image.eq_of_unchanged read succeeded unchanged
    refine ⟨image, image, segments, found, read, kept ▸ read, parsed, shown, fun _ => ?_⟩
    exact ⟨segments, parsed, fun other _ _ _ => iff_of_true (same other) (.inl rfl)⟩
  · obtain ⟨now, readAfter, readable, fields⟩ := Image.fields_saved read parsed succeeded unchanged
    refine ⟨image, now, segments, found, read, readAfter, parsed, shown, fun readableOr => ?_⟩
    by_cases still : now = image
    · subst still
      exact ⟨segments, parsed, fun other _ _ _ => iff_of_true (same other) (.inl rfl)⟩
    · obtain ⟨again, parsedAgain⟩ := readable.mpr (readableOr.resolve_left still)
      refine ⟨again, parsedAgain, fun other otherListed differs _ => ?_⟩
      have written := fields again parsedAgain other otherListed
      rw [others other otherListed differs] at written
      rw [Image.sameFields_iff written, or_iff_right still]

theorem edit_keeps_maker :
    let image : Bytes := [0xFF, 0xD8, 0xFF, 0xE0, 0, 2, 0xFF, 0xE1, 0, 0x22, 0x45, 0x78, 0x69, 0x66, 0,
      0, 0x4D, 0x4D, 0, 0x2A, 0, 0, 0, 8, 0, 1, 1, 0x0F, 0, 2, 0, 0, 0, 4, 0x46, 0x4F, 0x4F, 0, 0, 0,
      0, 0, 0xFF, 0xFE, 0, 2, 0xFF, 0xFE, 0, 2, 0xFF, 0xDA, 0, 3, 1] ++ List.replicate 100 0
    let make : Tag := ⟨"Make", 0x010F, .main, .text⟩
    let file : ImageFile := ⟨⟨"a.jpg"⟩, ⟨[("Make", "FOO")], false⟩⟩
    let before := new { nodes := [(["a.jpg"], .file image)] } false
    let after := ((file.set "Artist" "Zoe").save before).2
    ImageFile.openAt ⟨"a.jpg"⟩ before = (.ok file, before) ∧
      (file.set "Artist" "Zoe").save before = (.ok (), after) ∧
      ∃ segments now again, Jpeg.read image = .ok segments ∧ after.tree.read ⟨"a.jpg"⟩ = .ok now ∧
        Jpeg.read now = .ok again ∧ Image.SameFields make segments again := by
  intro image make file before after
  let artist : Tag := ⟨"Artist", 0x013B, .main, .text⟩
  let known : List Jpeg.Segment := [⟨0xE0, [], []⟩, .ofBlock [0x4D, 0x4D, 0, 0x2A, 0, 0, 0, 8, 0, 1, 1,
    0x0F, 0, 2, 0, 0, 0, 4, 0x46, 0x4F, 0x4F, 0, 0, 0, 0, 0], ⟨0xFE, [], []⟩, ⟨0xFE, [], []⟩,
    ⟨0xDA, [1], List.replicate 100 0⟩]
  let maker : Tiff.Field := ⟨.main, 0x010F, 0, ⟨.ascii, [0x46, 0x4F, 0x4F, 0]⟩⟩
  have opened : ImageFile.openAt ⟨"a.jpg"⟩ before = (.ok file, before) := by decide +kernel
  have answered : ((file.set artist.name "Zoe").save before).1 = .ok () := by decide +kernel
  have saved : (file.set artist.name "Zoe").save before = (.ok (), after) := Prod.ext answered rfl
  have knownParsed : Jpeg.read image = .ok known := by decide +kernel
  have knownRead : Image.read image = .ok ⟨[("Make", "FOO")], false⟩ := by decide +kernel
  have fields : Image.fieldsIn known = [maker] := by decide +kernel
  have held : Image.HoldsTag image "Make" := by
    rcases Image.reported_held knownRead ("Make", "FOO") (by decide) with held | ⟨coordinate, -⟩
    · exact held
    · simp at coordinate
  obtain ⟨bytes, now, segments, found, read, readAfter, parsed, shown, kept⟩ :=
    edit_keeps_others_iff opened (by decide) saved
  obtain rfl : image = bytes := Except.ok.inj read
  obtain rfl := Except.ok.inj (knownParsed.symm.trans parsed)
  obtain rfl := Except.ok.inj (knownRead.symm.trans shown)
  obtain ⟨again, readAgain, others⟩ := kept (.inr (by decide))
  have written : Image.fieldIn? [("Make", "FOO")] make = some maker := by decide
  have back : Image.WrittenBack make known [("Make", "FOO")] := by
    intro new made old _ _
    obtain rfl := Option.some.inj (written.symm.trans made)
    rw [fields, List.mem_singleton]
  have beside : Image.HasThumbnailBeside make known := by
    intro field member _ second
    rw [fields] at member
    exact absurd (congrArg Tiff.Field.chain (List.mem_singleton.mp member)) second
  have same := (others make (by decide) (by decide) fun _ _ => held).mpr (.inr ⟨back, beside⟩)
  exact ⟨opened, saved, known, now, again, knownParsed, readAfter, readAgain, same⟩

/-- A space at the end of a maker's name is lost when another attribute is set. -/
theorem edit_trims_maker :
    let image : Bytes := [0xFF, 0xD8, 0xFF, 0xE0, 0, 2, 0xFF, 0xE1, 0, 0x22, 0x45, 0x78, 0x69, 0x66, 0,
      0, 0x4D, 0x4D, 0, 0x2A, 0, 0, 0, 8, 0, 1, 1, 0x0F, 0, 2, 0, 0, 0, 4, 0x46, 0x4F, 0x20, 0, 0, 0,
      0, 0, 0xFF, 0xFE, 0, 2, 0xFF, 0xFE, 0, 2, 0xFF, 0xDA, 0, 3, 1] ++ List.replicate 100 0
    let make : Tag := ⟨"Make", 0x010F, .main, .text⟩
    let file : ImageFile := ⟨⟨"a.jpg"⟩, ⟨[("Make", "FO")], false⟩⟩
    let before := new { nodes := [(["a.jpg"], .file image)] } false
    let answer := (file.set "Artist" "Zoe").save before
    ImageFile.openAt ⟨"a.jpg"⟩ before = (.ok file, before) ∧ answer.1 = .ok () ∧
      ∃ segments now again, Jpeg.read image = .ok segments ∧
        answer.2.tree.read ⟨"a.jpg"⟩ = .ok now ∧ Jpeg.read now = .ok again ∧
        Image.fieldsIn segments = [⟨.main, 0x010F, 0, ⟨.ascii, [0x46, 0x4F, 0x20, 0]⟩⟩] ∧
        Image.fieldsIn again = [⟨.main, 0x010F, 0, ⟨.ascii, [0x46, 0x4F, 0]⟩⟩,
          ⟨.main, 0x013B, 0, ⟨.ascii, [0x5A, 0x6F, 0x65, 0]⟩⟩] ∧
        ¬ Image.SameFields make segments again := by
  intro image make file before answer
  let segments := (Jpeg.read image).toOption.getD []
  let now := (answer.2.tree.read ⟨"a.jpg"⟩).toOption.getD []
  let again := (Jpeg.read now).toOption.getD []
  let padded : Tiff.Field := ⟨.main, 0x010F, 0, ⟨.ascii, [0x46, 0x4F, 0x20, 0]⟩⟩
  have old : Image.fieldsIn segments = [padded] := by decide +kernel
  have new : Image.fieldsIn again = [⟨.main, 0x010F, 0, ⟨.ascii, [0x46, 0x4F, 0]⟩⟩,
      ⟨.main, 0x013B, 0, ⟨.ascii, [0x5A, 0x6F, 0x65, 0]⟩⟩] := by
    decide +kernel
  refine ⟨by decide +kernel, by decide +kernel, segments, now, again, by decide +kernel,
    by decide +kernel, by decide +kernel, old, new, fun same => ?_⟩
  have kept := same padded ⟨rfl, rfl⟩
  rw [old, new] at kept
  exact absurd (kept.mpr (List.mem_singleton.mpr rfl)) (by decide)

end JpegCodec

end PhotoTags

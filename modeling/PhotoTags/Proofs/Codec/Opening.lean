import PhotoTags.Proofs.Codec.Editing
import PhotoTags.Proofs.Image.Fitting
import PhotoTags.Proofs.Image.Thumbnail

/-!
An image opens as what is read from it. Whatever its bytes are, what was read fits into a text, the
text can be read back, and no name stands in it twice, so that the attributes of the opened image
are the ones that were read.
-/

namespace PhotoTags

theorem Exchange.fst_thumbnailEntry (flag : Bool) : (thumbnailEntry flag).1 = thumbnailName := rfl

namespace Attributes

theorem perm_ofEntries {entries : List Entry}
    (apart : ((Exchange.withoutThumbnail entries).map (·.1)).Nodup) :
    (ofEntries entries).entries.Perm (Exchange.withoutThumbnail entries) := by
  have wellFormed := wellFormed_ofEntries entries
  refine (List.perm_ext_iff_of_nodup wellFormed.nodup_names.of_map apart.of_map).mpr ?_
  rintro ⟨name, value⟩
  rw [wellFormed.mem_iff, get?_ofEntries, Image.lastValue?_eq_some_iff apart]

theorem hasThumbnail_ofEntries_append (entries : List Entry) (flag : Bool) :
    (ofEntries (entries ++ [Exchange.thumbnailEntry flag])).hasThumbnail = flag := by
  rw [hasThumbnail_ofEntries, lastValue?_append, if_pos (Exchange.fst_thumbnailEntry flag)]
  cases flag <;> decide

end Attributes

namespace Image

theorem hasThumbnail_iff {tree : FileTree} {path : Path} {found : Findings}
    (findings : findingsAt tree path = .ok found) :
    found.hasThumbnail = true ↔ ∃ bytes, thumbnailAt tree path = .ok (some bytes) := by
  constructor
  · intro given
    unfold findingsAt readAt at findings
    split at findings
    · simp at findings
    · rename_i image held
      split at findings
      · simp at findings
      · rename_i other read
        obtain rfl := Except.ok.inj findings
        rcases read_eq_ok read with ⟨-, rfl⟩ | ⟨survey, surveyed, rfl⟩
        · simp [Findings.empty] at given
        · obtain ⟨bytes, there⟩ := Option.isSome_iff_exists.mp given
          refine ⟨bytes, (thumbnailAt_of_read held _).mpr ?_⟩
          rw [thumbnail, surveyed, ← there]
          rfl
  · rintro ⟨bytes, shown⟩
    obtain ⟨other, same, given⟩ := hasThumbnail_of_thumbnailAt shown
    obtain rfl := Except.ok.inj (findings.symm.trans same)
    exact given

theorem decode_of_read {bytes : Bytes} {found : Findings} (read : Image.read bytes = .ok found) :
    Exchange.decode (Exchange.encodeWithThumbnail found.entries found.hasThumbnail) =
      .ok (found.entries ++ [Exchange.thumbnailEntry found.hasThumbnail]) := by
  rw [Exchange.encodeWithThumbnail, withoutThumbnail_of_read read]
  exact (Exchange.decode_setText_iff (fits_of_read read)).mpr (namesFree_of_read read)

end Image

namespace JpegCodec

theorem openAt_of_fetch {path : Path} {codec after : JpegCodec} {wire : String}
    (fetched : Codec.fetch path codec = (.ok wire, after)) {entries : List Entry}
    (decoded : Exchange.decode wire = .ok entries) :
    ImageFile.openAt path codec = (.ok ⟨path, .ofEntries entries⟩, after) := by
  simp [ImageFile.openAt, fetched, Attributes.load_eq_ok_iff.mpr ⟨entries, decoded, rfl⟩]

theorem openAt_ne_malformed (path : Path) (codec after : JpegCodec) (cause : Exchange.Malformed) :
    ImageFile.openAt path codec ≠ (.error (.error (.malformed cause)), after) := by
  rcases fetched : Codec.fetch path codec with ⟨failure | wire, middle⟩
  · cases failure <;> simp [ImageFile.openAt, fetched, Failure.map]
  · obtain ⟨-, image, found, -, shown, rfl⟩ := fetch_eq_ok fetched
    simp [openAt_of_fetch fetched (Image.decode_of_read shown)]

/-- The text that is fetched can always be read. It gives the attributes that are read from the
image, each under the name of another tag, and then whether there is a thumbnail; the image opens
with just these attributes. -/
theorem opened_as_read (path : Path) (codec : JpegCodec) :
    (∀ cause after, ImageFile.openAt path codec ≠ (.error (.error (.malformed cause)), after)) ∧
    ∀ wire after, Codec.fetch path codec = (.ok wire, after) →
      ∃ found file, Image.findingsAt codec.tree path = .ok found ∧
        Exchange.decode wire =
          .ok (found.entries ++ [Exchange.thumbnailEntry found.hasThumbnail]) ∧
        (found.entries.map (·.1)).Nodup ∧
        (∀ entry ∈ found.entries, ∃ tag ∈ Tag.table, tag.name = entry.1) ∧
        ImageFile.openAt path codec = (.ok file, after) ∧ after = codec ∧ file.path = path ∧
        file.attributes.entries.Perm found.entries ∧
        (∀ name value, file.get? name = some value ↔ (name, value) ∈ found.entries) ∧
        (file.attributes.hasThumbnail = true ↔
          ∃ bytes, Image.thumbnailAt codec.tree path = .ok (some bytes)) := by
  refine ⟨fun cause after => openAt_ne_malformed path codec after cause, fun wire after fetched => ?_⟩
  obtain ⟨same, image, found, held, shown, rfl⟩ := fetch_eq_ok fetched
  have findings : Image.findingsAt codec.tree path = .ok found := by
    simp [Image.findingsAt, Image.readAt, held, shown]
  have decoded := Image.decode_of_read shown
  have apart := Image.nodup_names_of_read shown
  have own : Exchange.withoutThumbnail
      (found.entries ++ [Exchange.thumbnailEntry found.hasThumbnail]) = found.entries := by
    rw [Attributes.withoutThumbnail_append, if_pos (Exchange.fst_thumbnailEntry _),
      Image.withoutThumbnail_of_read shown]
  refine ⟨found, _, findings, decoded, apart, Image.named_of_read shown,
    openAt_of_fetch fetched decoded, same, rfl, ?_, fun name value => ?_, ?_⟩
  · have perm := Attributes.perm_ofEntries (own.symm ▸ apart)
    rwa [own] at perm
  · rw [ImageFile.get?, Attributes.get?_ofEntries, own, Image.lastValue?_eq_some_iff apart]
  · rw [Attributes.hasThumbnail_ofEntries_append]
    exact Image.hasThumbnail_iff findings

/-- A value may look like further entries of the text. -/
theorem opened_with_thumbnail :
    let image : Bytes := [0xFF, 0xD8, 0xFF, 0xE1, 0, 0x4E, 0x45, 0x78, 0x69, 0x66, 0, 0, 0x4D, 0x4D,
      0, 0x2A, 0, 0, 0, 8, 0, 1, 1, 0x0F, 0, 2, 0, 0, 0, 8, 0, 0, 0, 0x3E, 0, 0, 0, 0x1A, 0, 2, 2,
      1, 0, 4, 0, 0, 0, 1, 0, 0, 0, 0x38, 2, 2, 0, 4, 0, 0, 0, 1, 0, 0, 0, 6, 0, 0, 0, 0, 0xFF,
      0xD8, 0x41, 0x41, 0xFF, 0xD9, 0xC3, 0xA9, 0x41, 0x3D, 0x31, 0x20, 0x42, 0, 0xFF, 0xDA, 0, 3,
      1] ++ List.replicate 100 0
    let codec := new { nodes := [(["a.jpg"], .file image)] } false
    Codec.fetch ⟨"a.jpg"⟩ codec = (.ok "2 Make=7 éA=1 BhasThumbnail=4 true", codec) ∧
      ∃ file, ImageFile.openAt ⟨"a.jpg"⟩ codec = (.ok file, codec) ∧
        file.attributes.entries = [("Make", "éA=1 B")] ∧ file.attributes.hasThumbnail = true ∧
        Image.thumbnailAt codec.tree ⟨"a.jpg"⟩ =
          .ok (some [0xFF, 0xD8, 0x41, 0x41, 0xFF, 0xD9]) := by
  intro image codec
  have fetched : Codec.fetch ⟨"a.jpg"⟩ codec =
      (.ok "2 Make=7 éA=1 BhasThumbnail=4 true", codec) := by
    decide +kernel
  have findings : Image.findingsAt codec.tree ⟨"a.jpg"⟩ = .ok ⟨[("Make", "éA=1 B")], true⟩ := by
    decide +kernel
  have shown : Image.thumbnailAt codec.tree ⟨"a.jpg"⟩ =
      .ok (some [0xFF, 0xD8, 0x41, 0x41, 0xFF, 0xD9]) := by
    decide +kernel
  obtain ⟨found, file, read, -, -, -, opened, -, -, entries, -, flag⟩ :=
    (opened_as_read ⟨"a.jpg"⟩ codec).2 _ _ fetched
  obtain rfl := Except.ok.inj (findings.symm.trans read)
  exact ⟨fetched, file, opened, List.perm_singleton.mp entries, flag.mpr ⟨_, shown⟩, shown⟩

end JpegCodec

end PhotoTags

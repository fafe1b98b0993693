import PhotoTags.Proofs.Codec.Containment
import PhotoTags.Proofs.Exchange.RoundTrip
import PhotoTags.Proofs.Image.Rewriting

/-!
Attributes that are stored in an image and fetched from it. One set after another is staged and
committed; what is fetched in the end is what all sets say together, the last value of each name, if
and only if the strict scan gets to the block in the image that was written last.
-/

namespace PhotoTags

open Attributes (lastValue?)

namespace Image

theorem decode_listing {entries : List Entry}
    (short : ∀ entry ∈ entries, entry.2.utf8ByteSize < Text.bound64) :
    Exchange.decode (Exchange.encodeWithThumbnail (listing entries) false) =
      .ok (listing entries ++ [Exchange.thumbnailEntry false]) := by
  have noThumbnail : Exchange.withoutThumbnail (listing entries) = listing entries :=
    List.filter_eq_self.mpr fun entry member => by simpa using (name_of_listing entry member).1
  have few : (listing entries).length ≤ Tag.table.length := List.length_filterMap_le _ _
  have fits : Exchange.Fits (listing entries ++ [Exchange.thumbnailEntry false]) := by
    constructor
    · rw [List.length_append, List.length_singleton]
      exact Nat.lt_of_le_of_lt (Nat.succ_le_succ few) (by decide)
    · intro entry member
      rcases List.mem_append.mp member with shown | flag
      · exact short entry (Attributes.mem_of_lastValue? (mem_listing_iff.mp shown).1)
      · rw [List.mem_singleton.mp flag]
        decide
  rw [Exchange.encodeWithThumbnail, noThumbnail, Exchange.decode_setText_iff fits]
  intro entry member
  rcases List.mem_append.mp member with shown | flag
  · exact (name_of_listing entry shown).2
  · rw [List.mem_singleton.mp flag]
    exact Exchange.thumbnailName_free

end Image

namespace JpegCodec

inductive Stored (path : Path) : JpegCodec → List (List Entry) → JpegCodec → Prop
  | done (codec : JpegCodec) : Stored path codec [] codec
  | store {before middle after : JpegCodec} {text : String} {set : List Entry}
      {sets : List (List Entry)} : Exchange.decode text = .ok set →
      Codec.store path text before = (.ok (), middle) → Stored path middle sets after →
      Stored path before (set :: sets) after

theorem Stored.of_ok {path : Path} {before after : JpegCodec} {text : String} {set : List Entry}
    {sets : List (List Entry)} (decoded : Exchange.decode text = .ok set)
    (ok : (Codec.store path text before).1 = .ok ())
    (later : Stored path (Codec.store path text before).2 sets after) :
    Stored path before (set :: sets) after :=
  .store decoded (Prod.ext ok rfl) later

theorem Stored.short {path : Path} {before after : JpegCodec} {sets : List (List Entry)}
    (stored : Stored path before sets after) :
    ∀ entry ∈ sets.flatten, entry.2.utf8ByteSize < Text.bound64 := by
  induction stored with
  | done _ => simp
  | store decoded _ _ ih =>
      intro entry member
      rw [List.flatten_cons] at member
      exact (List.mem_append.mp member).elim (Exchange.short_of_decode decoded entry) (ih entry)

theorem Stored.holding {path : Path} {before after : JpegCodec} {sets : List (List Entry)}
    (stored : Stored path before sets after) {image : Bytes} {original : List Jpeg.Segment}
    (parsed : Jpeg.read image = .ok original) (noExif : Jpeg.exifBlock? original = none)
    (canonical : ∀ set ∈ sets, Image.Canonical set) {entries : List Entry}
    (already : Image.Canonical entries) {bytes : Bytes} (read : before.tree.read path = .ok bytes)
    (holding : Image.Holding image original entries bytes) :
    ∃ now, after.tree.read path = .ok now ∧
      Image.Holding image original (entries ++ sets.flatten) now := by
  -- What the image holds is kept along the run: the next write reads it again and adds its own.
  induction stored generalizing entries bytes with
  | done codec => exact ⟨bytes, read, by simpa using holding⟩
  | @store before middle after text set sets decoded written _ ih =>
      obtain ⟨saved, succeeded⟩ := save_of_store decoded written
      have own := canonical set (List.mem_cons_self ..)
      obtain ⟨between, again, kept⟩ :=
        holding.save parsed noExif already own read succeeded
      rw [List.flatten_cons, ← List.append_assoc]
      exact ih (fun other member => canonical other (List.mem_cons_of_mem _ member))
        (already.append own) again kept

def Fetches (path : Path) (codec : JpegCodec) (entries : List Entry) : Prop :=
  ∃ wire found, (fetch path codec).1 = .ok wire ∧ Exchange.decode wire = .ok found ∧
    (found.map (·.1)).Nodup ∧
    ∀ name, lastValue? found name = lastValue? (entries ++ [Exchange.thumbnailEntry false]) name

theorem fetch_of_read {path : Path} {codec : JpegCodec} {bytes : Bytes}
    (read : codec.tree.read path = .ok bytes) :
    (fetch path codec).1 =
      match Image.read bytes with
      | .error cause => .error (failed (.unreadable cause))
      | .ok found => .ok (Exchange.encodeWithThumbnail found.entries found.hasThumbnail) := by
  unfold fetch
  rw [Image.findingsAt, Image.readAt, read]
  dsimp only
  cases Image.read bytes <;> rfl

theorem fetches_of_listing {path : Path} {codec : JpegCodec} {bytes : Bytes} {entries : List Entry}
    (canonical : Image.Canonical entries)
    (short : ∀ entry ∈ entries, entry.2.utf8ByteSize < Text.bound64)
    (read : codec.tree.read path = .ok bytes)
    (found : Image.read bytes = .ok ⟨Image.listing entries, false⟩) :
    Fetches path codec entries := by
  refine ⟨_, _, by rw [fetch_of_read read, found], Image.decode_listing short, ?_, fun name => ?_⟩
  · rw [List.map_append]
    refine (Image.nodup_listing entries).append (List.nodup_singleton _) fun name shown flag => ?_
    obtain ⟨entry, member, rfl⟩ := List.mem_map.mp shown
    exact (Image.name_of_listing entry member).1 (List.mem_singleton.mp flag)
  · rw [Attributes.lastValue?_append, Attributes.lastValue?_append, canonical.lastValue?_listing]

theorem Fetches.agree {path : Path} {codec : JpegCodec} {entries others : List Entry}
    (first : Fetches path codec entries) (second : Fetches path codec others) (name : String) :
    lastValue? (entries ++ [Exchange.thumbnailEntry false]) name =
      lastValue? (others ++ [Exchange.thumbnailEntry false]) name := by
  obtain ⟨wire, found, fetched, decoded, -, same⟩ := first
  obtain ⟨otherWire, otherFound, otherFetched, otherDecoded, -, otherSame⟩ := second
  obtain rfl := Except.ok.inj (fetched.symm.trans otherFetched)
  obtain rfl := Except.ok.inj (decoded.symm.trans otherDecoded)
  exact (same name).symm.trans (otherSame name)

theorem Fetches.eq_nil {path : Path} {codec : JpegCodec} {bytes : Bytes} {entries : List Entry}
    (fetches : Fetches path codec entries) (canonical : Image.Canonical entries)
    (read : codec.tree.read path = .ok bytes)
    (found : ∀ findings, Image.read bytes = .ok findings → findings = .empty) : entries = [] := by
  have shown : Image.read bytes = .ok .empty := by
    obtain ⟨wire, -, fetched, -⟩ := fetches
    rw [fetch_of_read read] at fetched
    cases shown : Image.read bytes with
    | error cause => simp [shown] at fetched
    | ok findings => rw [found findings shown]
  have nothing : Fetches path codec [] :=
    fetches_of_listing (by simp [Image.Canonical]) (by simp) read shown
  refine List.eq_nil_iff_forall_not_mem.mpr fun entry member => ?_
  obtain ⟨tag, listed, named, -⟩ := canonical entry member
  have isTag : (Exchange.thumbnailEntry false).1 ≠ entry.1 := by
    rw [← named]
    exact (Image.name_of_table tag listed).1.symm
  obtain ⟨text, last⟩ := Image.exists_lastValue? (List.mem_map_of_mem (f := (·.1)) member)
  have alike := fetches.agree nothing entry.1
  rw [Attributes.lastValue?_append, Attributes.lastValue?_append, if_neg isTag, if_neg isTag,
    last] at alike
  simp [lastValue?] at alike

/-- After sets of canonical attributes were stored in an image without an Exif segment, what is
fetched is the last value of each name in all of them if and only if nothing was to be written, or
the image data were kept, the scan gets past the first segment and the image is long enough for the
scan. -/
theorem fetches_stored_iff {path : Path} {before after : JpegCodec} {sets : List (List Entry)}
    {image : Bytes} {segments : List Jpeg.Segment} (read : before.tree.read path = .ok image)
    (parsed : Jpeg.read image = .ok segments) (noExif : Jpeg.exifBlock? segments = none)
    (stored : Stored path before sets after)
    (canonical : ∀ set ∈ sets, Image.Canonical set ∧ Image.HasWholePosition set) :
    Fetches path after sets.flatten ↔
      sets.flatten = [] ∨ Jpeg.HasScan segments ∧ Jpeg.IsPassable segments ∧
        ∃ bytes, after.tree.read path = .ok bytes ∧ Jpeg.scanMinimum ≤ bytes.length := by
  have all := Image.Canonical.flatten fun set member => (canonical set member).1
  have whole := Image.HasWholePosition.flatten fun set member => (canonical set member).2
  have none : Image.Canonical [] := by simp [Image.Canonical]
  obtain ⟨bytes, readAfter, holding⟩ := stored.holding parsed noExif
    (fun set member => (canonical set member).1) none read (.inl ⟨rfl, rfl⟩)
  rw [List.nil_append] at holding
  -- Either nothing was written, or the image has the block of all sets. In the second case a fetch
  -- that does not get to the block gives nothing, while the sets do say something.
  rcases holding with ⟨empty, rfl⟩ | ⟨block, rewritten⟩
  · have shown : Image.read bytes = .ok .empty := by
      simp [Image.read, Image.survey, parsed, noExif, Except.map]
    rw [empty]
    exact iff_of_true (fetches_of_listing none (by simp) readAfter shown) (.inl rfl)
  · have found := rewritten.read_eq parsed noExif all whole
    constructor
    · intro fetches
      by_cases hasScan : Jpeg.HasScan segments
      · rw [if_pos hasScan] at found
        by_cases seen : Jpeg.scanMinimum ≤ bytes.length ∧ Jpeg.IsPassable segments
        · exact .inr ⟨hasScan, seen.2, bytes, readAfter, seen.1⟩
        · rw [if_neg seen] at found
          refine .inl (fetches.eq_nil all readAfter fun findings shown => ?_)
          exact (Except.ok.inj (found.symm.trans shown)).symm
      · rw [if_neg hasScan] at found
        refine .inl (fetches.eq_nil all readAfter fun findings shown => ?_)
        simp [found] at shown
    · rintro (empty | ⟨hasScan, passable, other, readOther, long⟩)
      · exact absurd empty rewritten.entries_ne_nil
      · obtain rfl := Except.ok.inj (readAfter.symm.trans readOther)
        rw [if_pos hasScan, if_pos ⟨long, passable⟩] at found
        exact fetches_of_listing all stored.short readAfter found

theorem fetches_stored_twice :
    let image : Bytes := [0xFF, 0xD8, 0xFF, 0xE0, 0, 2, 0xFF, 0xFE, 0, 2, 0xFF, 0xDA, 0, 3, 1] ++
      List.replicate 100 0
    let before := new { nodes := [(["a.jpg"], .file image)] } false
    let middle := (Codec.store ⟨"a.jpg"⟩ "2 Make=3 FOOFNumber=5 28/10" before).2
    let after := (Codec.store ⟨"a.jpg"⟩ "1 Make=3 BAR" middle).2
    Stored ⟨"a.jpg"⟩ before [[("Make", "FOO"), ("FNumber", "28/10")], [("Make", "BAR")]] after ∧
      Fetches ⟨"a.jpg"⟩ after [("Make", "FOO"), ("FNumber", "28/10"), ("Make", "BAR")] := by
  intro image before middle after
  have stored : Stored ⟨"a.jpg"⟩ before
      [[("Make", "FOO"), ("FNumber", "28/10")], [("Make", "BAR")]] after :=
    .of_ok (by decide) (by decide +kernel) (.of_ok (by decide) (by decide +kernel) (.done after))
  have parsed : Jpeg.read image =
      .ok [⟨0xE0, [], []⟩, ⟨0xFE, [], []⟩, ⟨0xDA, [1], List.replicate 100 0⟩] := by
    decide +kernel
  have text (word : String) (printable : word.toList.all (Tag.IsPrintable ·) = true)
      (unchanged : Tag.plain? word.toList = some word.toList) :
      ∃ tag ∈ Tag.table, tag.name = "Make" ∧ tag.Canonical word.toList :=
    ⟨⟨"Make", 0x010F, .main, .text⟩, by decide, rfl,
      .text rfl (by decide) (by decide) (by simpa using printable) unchanged⟩
  have number : ∃ tag ∈ Tag.table, tag.name = "FNumber" ∧ tag.Canonical "28/10".toList :=
    ⟨⟨"FNumber", 0x829D, .exif, .rational⟩, by decide, rfl,
      .ratio (by decide) (by decide) (by decide : Tag.FitsWords (28, 10))⟩
  have canonical : ∀ set ∈ [[("Make", "FOO"), ("FNumber", "28/10")], [("Make", "BAR")]],
      Image.Canonical set ∧ Image.HasWholePosition set := by
    simp only [Image.Canonical, List.forall_mem_cons, List.not_mem_nil, false_implies, implies_true,
      and_true]
    exact ⟨⟨⟨text "FOO" (by decide) (by decide), number⟩, by decide⟩,
      text "BAR" (by decide) (by decide), by decide⟩
  have long : ∃ bytes, after.tree.read ⟨"a.jpg"⟩ = .ok bytes ∧ Jpeg.scanMinimum ≤ bytes.length :=
    ⟨(after.tree.read ⟨"a.jpg"⟩).toOption.getD [], by decide +kernel, by decide +kernel⟩
  exact ⟨stored, (fetches_stored_iff rfl parsed (by decide) stored canonical).mpr
    (.inr ⟨by decide, by decide, long⟩)⟩

/-- In an image that starts with an application segment 1 of another kind the new block stands
behind it, and what was stored is not seen again. -/
theorem stored_not_fetched :
    let image : Bytes := [0xFF, 0xD8, 0xFF, 0xE1, 0, 0x1F, 0x68, 0x74, 0x74, 0x70, 0x3A, 0x2F, 0x2F,
      0x6E, 0x73, 0x2E, 0x61, 0x64, 0x6F, 0x62, 0x65, 0x2E, 0x63, 0x6F, 0x6D, 0x2F, 0x78, 0x61,
      0x70, 0x2F, 0x31, 0x2E, 0x30, 0x2F, 0, 0xFF, 0xFE, 0, 0x02, 0xFF, 0xDA, 0, 0x03, 0x01] ++
        List.replicate 100 0
    let before := new { nodes := [(["a.jpg"], .file image)] } false
    let after := (Codec.store ⟨"a.jpg"⟩ "1 Make=3 FOO" before).2
    (Jpeg.read image).toOption.map Jpeg.exifBlock? = some none ∧
      Stored ⟨"a.jpg"⟩ before [[("Make", "FOO")]] after ∧
      (fetch ⟨"a.jpg"⟩ after).1 = .ok "1 hasThumbnail=5 false" ∧
      ¬ Fetches ⟨"a.jpg"⟩ after [("Make", "FOO")] := by
  intro image before after
  have fetched : (fetch ⟨"a.jpg"⟩ after).1 = .ok "1 hasThumbnail=5 false" := by decide +kernel
  have shown : Exchange.decode "1 hasThumbnail=5 false" = .ok [("hasThumbnail", "false")] := by
    decide
  refine ⟨by decide +kernel, .of_ok (by decide) (by decide +kernel) (.done after), fetched, ?_⟩
  rintro ⟨wire, found, answered, decoded, -, same⟩
  obtain rfl := Except.ok.inj (fetched.symm.trans answered)
  obtain rfl := Except.ok.inj (shown.symm.trans decoded)
  exact absurd (same "Make") (by decide)

end JpegCodec

end PhotoTags

import PhotoTags.Proofs.Attributes.Lossless

/-!
The one text of a mapping. Whatever text attributes were loaded from, they are saved as the same
text: the last value of each name, in the order of the names, with nothing behind. Attributes whose
names have no equals sign, loaded or set one by one, are told apart by their texts.
-/

namespace PhotoTags.Attributes

def Agree (entries others : List Entry) : Prop :=
  ∀ name, lastValue? (Exchange.withoutThumbnail entries) name =
    lastValue? (Exchange.withoutThumbnail others) name

structure Settled (entries settled : List Entry) : Prop where
  ordered : settled.Pairwise fun first second =>
    Text.utf8 first.1.toList < Text.utf8 second.1.toList
  noThumbnail : ∀ entry ∈ settled, entry.1 ≠ Exchange.thumbnailName
  last : ∀ name value, (name, value) ∈ settled ↔
    lastValue? (Exchange.withoutThumbnail entries) name = some value

theorem settled_ofEntries (entries : List Entry) : Settled entries (ofEntries entries).entries where
  ordered := (wellFormed_ofEntries entries).ordered_bytes
  noThumbnail := (wellFormed_ofEntries entries).noThumbnail
  last name value := by rw [(wellFormed_ofEntries entries).mem_iff, get?_ofEntries]

theorem agree_iff (entries others : List Entry) :
    Agree entries others ↔ (ofEntries entries).entries = (ofEntries others).entries := by
  constructor
  · intro agree
    apply (wellFormed_ofEntries entries).entries_eq (wellFormed_ofEntries others)
    intro name
    rw [get?_ofEntries, get?_ofEntries, agree name]
  · intro same name
    rw [← get?_ofEntries, ← get?_ofEntries, get?, get?, same]

theorem fits_of_load {text : String} {loaded : Attributes} (read : load text = .ok loaded) :
    Exchange.Fits loaded.entries := by
  obtain ⟨entries, decoded, rfl⟩ := load_eq_ok_iff.mp read
  obtain ⟨_, _, _, numeral, _⟩ := Exchange.decode_eq_ok_iff.mp decoded
  constructor
  · exact Nat.lt_of_le_of_lt (length_ofEntries_le entries) numeral.1
  · intro entry member
    exact Exchange.short_of_decode decoded entry (mem_ofEntries member)

theorem load_save_of_load {text : String} {loaded : Attributes} (read : load text = .ok loaded) :
    load loaded.save = .ok ⟨loaded.entries, false⟩ :=
  (wellFormed_of_load read).load_save (fits_of_load read) (namesFree_of_load read)

theorem decode_save_of_load {text : String} {loaded : Attributes} (read : load text = .ok loaded) :
    Exchange.decode loaded.save = .ok loaded.entries := by
  rw [(wellFormed_of_load read).save_eq]
  exact (Exchange.decode_setText_iff (fits_of_load read)).mpr (namesFree_of_load read)

theorem save_eq_iff_of_load {text other : String} {loaded otherLoaded : Attributes}
    (read : load text = .ok loaded) (otherRead : load other = .ok otherLoaded) :
    loaded.save = otherLoaded.save ↔ loaded.entries = otherLoaded.entries := by
  constructor
  · exact (wellFormed_of_load read).save_injective (wellFormed_of_load otherRead)
      (namesFree_of_load read) (namesFree_of_load otherRead)
  · intro same
    rw [save, save, same]

def SetsFree (calls : List Call) : Prop :=
  ∀ name value, .set name value ∈ calls → '=' ∉ name.toList

theorem namesFree_run {calls : List Call} (setsFree : SetsFree calls) : NamesFree (run calls) := by
  induction calls using List.reverseRecOn with
  | nil => simp [NamesFree, run, empty]
  | append_singleton calls call ih =>
      have before : NamesFree (run calls) :=
        ih fun name value member => setsFree name value (List.mem_append_left _ member)
      rw [run_append]
      cases call with
      | load text =>
          simp only [Call.step, reload]
          cases read : load text with
          | ok loaded => exact namesFree_of_load read
          | error fault => exact before
      | set name value =>
          intro entry member
          simp only [Call.step, Attributes.set] at member
          split at member
          · exact before entry member
          · rcases mem_insert member with rfl | kept
            · exact setsFree name value (by simp)
            · exact before entry kept

/-- Attributes that were loaded are saved as a text that holds the settled entries of the one that
they were loaded from, and that comes back when it is loaded and saved. Two texts are saved as one
if and only if their entries agree; and attributes with the same text are the same, whether they
were loaded or set under names without an equals sign. -/
theorem save_canonical :
    (∀ text loaded, load text = .ok loaded → ∃ entries settled again,
      Exchange.decode text = .ok entries ∧ Exchange.decode loaded.save = .ok settled ∧
        Settled entries settled ∧ load loaded.save = .ok again ∧ again.save = loaded.save) ∧
    (∀ text other loaded otherLoaded entries others,
      load text = .ok loaded → load other = .ok otherLoaded →
        Exchange.decode text = .ok entries → Exchange.decode other = .ok others →
          (loaded.save = otherLoaded.save ↔ Agree entries others)) ∧
    ∀ calls others, SetsFree calls → SetsFree others →
      (run calls).save = (run others).save → (run calls).entries = (run others).entries := by
  refine ⟨?_, ?_, ?_⟩
  · intro text loaded read
    obtain ⟨entries, decoded, rfl⟩ := load_eq_ok_iff.mp read
    exact ⟨entries, _, _, decoded, decode_save_of_load read, settled_ofEntries entries,
      load_save_of_load read, rfl⟩
  · intro text other loaded otherLoaded entries others read otherRead decoded otherDecoded
    rw [save_eq_iff_of_load read otherRead, agree_iff]
    obtain ⟨_, again, rfl⟩ := load_eq_ok_iff.mp read
    obtain ⟨_, otherAgain, rfl⟩ := load_eq_ok_iff.mp otherRead
    rw [Except.ok.inj (decoded.symm.trans again), Except.ok.inj (otherDecoded.symm.trans otherAgain)]
  · intro calls others setsFree othersFree
    exact (wellFormed_run calls).save_injective (wellFormed_run others) (namesFree_run setsFree)
      (namesFree_run othersFree)

/-- Order, overwritten values, signs and zeros of numbers, thumbnail entries and what stands behind
the last entry make no difference. -/
theorem save_canonical_spellings :
    let text := "+04 b=1 xhasThumbnail=4 trueé=+1 yb=002 =1behind"
    let other := "2 é=1 yb=2 =1"
    ∃ loaded otherLoaded entries others, load text = .ok loaded ∧ load other = .ok otherLoaded ∧
      Exchange.decode text = .ok entries ∧ Exchange.decode other = .ok others ∧
      Agree entries others ∧ loaded.save = otherLoaded.save ∧ loaded.save = "2 b=2 =1é=1 y" ∧
      SetsFree [.load text] ∧ SetsFree [.set "é" "y", .set "b" "=1"] ∧
      (run [.load text]).entries = (run [.set "é" "y", .set "b" "=1"]).entries := by
  intro text other
  obtain ⟨settles, agrees, apart⟩ := save_canonical
  have read : load text = .ok ⟨[("b", "=1"), ("é", "y")], true⟩ := by decide
  have otherRead : load other = .ok ⟨[("b", "=1"), ("é", "y")], false⟩ := by decide
  obtain ⟨entries, _, _, decoded, -⟩ := settles text _ read
  obtain ⟨others, _, _, otherDecoded, -⟩ := settles other _ otherRead
  have same := agrees text other _ _ entries others read otherRead decoded otherDecoded
  have loadsFree : SetsFree [.load text] := by
    intro name value member
    simp at member
  have setsFree : SetsFree [.set "é" "y", .set "b" "=1"] := by
    intro name value member
    simp only [List.mem_cons, Call.set.injEq, List.not_mem_nil, or_false] at member
    rcases member with ⟨rfl, -⟩ | ⟨rfl, -⟩ <;> decide
  refine ⟨_, _, entries, others, read, otherRead, decoded, otherDecoded, same.mp (by decide),
    by decide, by decide, loadsFree, setsFree, ?_⟩
  exact apart _ _ loadsFree setsFree (by decide)

end PhotoTags.Attributes

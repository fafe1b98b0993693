import PhotoTags.Proofs.Attributes.History
import PhotoTags.Proofs.Exchange.RoundTrip

/-!
Saving attributes and loading the text again. Any name can be set, but a text cannot carry a name
with an equals sign: exactly the attributes without such a name come back, and two of those with
the same text are the same. A name with an equals sign can make the text that of other attributes.
-/

namespace PhotoTags.Attributes

def Reachable (attributes : Attributes) : Prop :=
  ∃ calls, run calls = attributes

def NamesFree (attributes : Attributes) : Prop :=
  ∀ entry ∈ attributes.entries, '=' ∉ entry.1.toList

instance (attributes : Attributes) : Decidable (NamesFree attributes) :=
  inferInstanceAs (Decidable (∀ entry ∈ attributes.entries, _))

theorem Reachable.wellFormed {attributes : Attributes} (reachable : Reachable attributes) :
    WellFormed attributes := by
  obtain ⟨calls, rfl⟩ := reachable
  exact wellFormed_run calls

theorem WellFormed.save_eq {attributes : Attributes} (wellFormed : WellFormed attributes) :
    attributes.save = String.ofList (Exchange.setText attributes.entries) := by
  have kept : Exchange.withoutThumbnail attributes.entries = attributes.entries := by
    apply List.filter_eq_self.mpr
    intro entry member
    simpa using wellFormed.noThumbnail entry member
  rw [save, Exchange.encode, kept]

theorem load_eq_ok_iff {text : String} {loaded : Attributes} :
    load text = .ok loaded ↔
      ∃ entries, Exchange.decode text = .ok entries ∧ ofEntries entries = loaded := by
  unfold load
  cases Exchange.decode text <;> simp [Except.map]

theorem wellFormed_of_load {text : String} {attributes : Attributes}
    (loaded : load text = .ok attributes) : WellFormed attributes := by
  obtain ⟨entries, -, rfl⟩ := load_eq_ok_iff.mp loaded
  exact wellFormed_ofEntries entries

theorem namesFree_of_load {text : String} {loaded : Attributes} (read : load text = .ok loaded) :
    NamesFree loaded := by
  obtain ⟨entries, decoded, rfl⟩ := load_eq_ok_iff.mp read
  obtain ⟨_, _, _, _, form, _⟩ := Exchange.decode_eq_ok_iff.mp decoded
  intro entry member
  exact form.name_free entry (mem_ofEntries member)

theorem WellFormed.load_save {attributes : Attributes} (wellFormed : WellFormed attributes)
    (fits : Exchange.Fits attributes.entries) (namesFree : NamesFree attributes) :
    load attributes.save = .ok ⟨attributes.entries, false⟩ := by
  rw [wellFormed.save_eq, load_eq_ok_iff]
  exact ⟨attributes.entries, (Exchange.decode_setText_iff fits).mpr namesFree,
    ofEntries_of_ordered wellFormed.ordered wellFormed.noThumbnail⟩

theorem reload_eq_ok_iff {attributes loaded : Attributes} {text : String} :
    attributes.reload text = (.ok (), loaded) ↔ load text = .ok loaded := by
  unfold reload
  cases load text <;> simp

theorem WellFormed.save_injective {first second : Attributes} (firstFormed : WellFormed first)
    (secondFormed : WellFormed second) (firstFree : NamesFree first)
    (secondFree : NamesFree second) (same : first.save = second.save) :
    first.entries = second.entries := by
  rw [firstFormed.save_eq, secondFormed.save_eq] at same
  exact Exchange.eq_of_setText firstFree secondFree (String.ofList_injective same)

/-- Saved attributes come back in place of empty ones if and only if no name has an equals sign, and
the texts of attributes without such a name tell them apart. -/
theorem save_lossless_iff (attributes : Attributes) (reachable : Reachable attributes)
    (fits : Exchange.Fits attributes.entries) :
    ((∃ loaded, empty.reload attributes.save = (.ok (), loaded) ∧
        loaded.entries = attributes.entries) ↔ NamesFree attributes) ∧
      ∀ other, Reachable other → Exchange.Fits other.entries → NamesFree attributes →
        NamesFree other → attributes.save = other.save → attributes.entries = other.entries := by
  refine ⟨⟨?_, ?_⟩, ?_⟩
  · rintro ⟨loaded, read, same⟩
    have loadedFree := namesFree_of_load (reload_eq_ok_iff.mp read)
    rwa [NamesFree, same] at loadedFree
  · intro namesFree
    have read := reachable.wellFormed.load_save fits namesFree
    exact ⟨⟨attributes.entries, false⟩, reload_eq_ok_iff.mpr read, rfl⟩
  · intro other otherReachable _ namesFree otherFree same
    exact reachable.wellFormed.save_injective otherReachable.wellFormed namesFree otherFree same

theorem save_lossless_loaded :
    let attributes := run [.load "2 hasThumbnail=4 trueMake=3 FOO", .set "é" "a=1 b"]
    let other := run [.set "é" "a=1 b", .set "Make" "FOO"]
    Reachable attributes ∧ Reachable other ∧ Exchange.Fits attributes.entries ∧
      (∃ loaded, empty.reload attributes.save = (.ok (), loaded) ∧
        loaded.entries = attributes.entries) ∧
      attributes.save = other.save ∧ attributes.entries = other.entries := by
  intro attributes other
  have reachable : Reachable attributes := ⟨_, rfl⟩
  have otherReachable : Reachable other := ⟨_, rfl⟩
  have fits : Exchange.Fits attributes.entries := by decide
  have otherFits : Exchange.Fits other.entries := by decide
  have namesFree : NamesFree attributes := by decide
  have otherFree : NamesFree other := by decide
  have same : attributes.save = other.save := by decide
  obtain ⟨lossless, apart⟩ := save_lossless_iff attributes reachable fits
  exact ⟨reachable, otherReachable, fits, lossless.mpr namesFree, same,
    apart other otherReachable otherFits namesFree otherFree same⟩

/-- An equals sign in a name gives attributes the text of others, which are what is loaded then. -/
theorem save_equals_in_name :
    let attributes := run [.set "a=5 b" "y"]
    let other := run [.set "a" "b=1 y"]
    Exchange.Fits attributes.entries ∧ attributes.save = other.save ∧
      attributes.entries ≠ other.entries ∧
      ¬ ∃ loaded, empty.reload attributes.save = (.ok (), loaded) ∧
        loaded.entries = attributes.entries := by
  intro attributes other
  have read : load attributes.save = .ok other := by decide
  refine ⟨by decide, by decide, by decide, ?_⟩
  rintro ⟨loaded, reloaded, same⟩
  rw [reload_eq_ok_iff, read] at reloaded
  obtain rfl := Except.ok.inj reloaded
  exact absurd same (by decide)

end PhotoTags.Attributes

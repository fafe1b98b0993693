import PhotoTags.Tiff.Walk

/-!
The directories that a walk over any block can get to, well formed or not, and the fields in them.
Everything that the walk sees is an entry of such a directory; the reverse fails, since a directory
is left as soon as it points to one that was entered before.
-/

namespace PhotoTags.Tiff

structure Entry.LeadsTo (order : ByteOrder) (block : Bytes) (entry : Entry) (target : Nat) :
    Prop where
  pointer : isPointerId entry.id = true
  known : ∃ type, FieldType.ofCode? entry.typeCode = some type ∧
    (entry.valueBytes? order block type).isSome = true
  fits : fitsAt order block target = true
  offset : entry.offset order = target

inductive Reached (order : ByteOrder) (block : Bytes) (first : Nat) : Nat → Nat → Prop
  | first : Reached order block first 0 first
  | pointed {chain offset target : Nat} {entries : List Entry} {rest : Bytes} {entry : Entry} :
      Reached order block first chain offset →
      wholeAt? order block offset = some (entries, rest) → entry ∈ entries →
      entry.LeadsTo order block target → Reached order block first chain target
  | next {chain offset target : Nat} {entries : List Entry} {rest : Bytes} :
      Reached order block first chain offset →
      wholeAt? order block offset = some (entries, rest) →
      nextOffset? order block rest = some target → Reached order block first (chain + 1) target

def Seen (order : ByteOrder) (block : Bytes) (first chain : Nat) (entry : Entry) : Prop :=
  ∃ offset entries rest, Reached order block first chain offset ∧
    wholeAt? order block offset = some (entries, rest) ∧ entry ∈ entries

section

variable {order : ByteOrder} {block : Bytes} {zone : Option (List Char)}

theorem outcome_eq_directory_iff {entry : Entry} {target : Nat} :
    outcome order block zone entry = .directory target ↔ entry.LeadsTo order block target := by
  unfold outcome
  constructor
  · intro same
    split at same
    · simp at same
    · rename_i type known
      split at same
      · simp at same
      · rename_i bytes value
        split at same
        · rename_i leads
          obtain rfl := Outcome.directory.inj same
          simp only [Bool.and_eq_true] at leads
          exact ⟨leads.1, ⟨type, known, by simp [value]⟩, leads.2, rfl⟩
        · split at same <;> simp at same
  · rintro ⟨pointer, ⟨type, known, value⟩, fits, rfl⟩
    obtain ⟨bytes, value⟩ := Option.isSome_iff_exists.mp value
    simp [known, value, pointer, fits]

/-- What holds of the entries of a directory, of the visits in those that they point to and of the
visits behind it holds of all visits. -/
theorem forall_visits_walkEntries {good : Visit → Prop} {chain : Nat}
    {enter : List Nat → Nat → Trace} {next : List Nat → Trace} {entries : List Entry}
    (own : ∀ entry ∈ entries, good ⟨chain, entry.id, outcome order block zone entry⟩)
    (inside : ∀ entry ∈ entries, ∀ target, entry.LeadsTo order block target →
      ∀ entered, ∀ visit ∈ (enter entered target).visits, good visit)
    (behind : ∀ entered, ∀ visit ∈ (next entered).visits, good visit) (entered : List Nat) :
    ∀ visit ∈ (walkEntries order block zone chain enter next entries entered).visits,
      good visit := by
  induction entries generalizing entered with
  | nil => exact behind entered
  | cons entry rest ih =>
      have here := own entry (List.mem_cons_self ..)
      have later := ih (fun other member => own other (List.mem_cons_of_mem _ member))
        fun other member => inside other (List.mem_cons_of_mem _ member)
      rw [walkEntries]
      split
      · simp
      · cases found : outcome order block zone entry with
        | directory target =>
            rw [found] at here
            dsimp only
            split
            · simp
            · intro visit member
              simp only [List.cons_append, List.mem_cons, List.mem_append] at member
              rcases member with rfl | within | other
              · exact here
              · exact inside entry (List.mem_cons_self ..) target
                  (outcome_eq_directory_iff.mp found) _ visit within
              · exact later _ visit other
        | datum _ | unreadable =>
            rw [found] at here
            intro visit member
            rcases List.mem_cons.mp member with rfl | other
            · exact here
            · exact later _ visit other

theorem exists_seen_of_mem_visits {first fuel chain offset : Nat} {entered : List Nat}
    (reached : Reached order block first chain offset) {visit : Visit}
    (member : visit ∈ (walkAt order block zone fuel chain entered offset).visits) :
    ∃ entry, Seen order block first visit.chain entry ∧ visit.id = entry.id ∧
      visit.outcome = outcome order block zone entry := by
  induction fuel generalizing chain entered offset visit with
  | zero => simp [walkAt] at member
  | succ fuel ih =>
      rw [walkAt] at member
      split at member
      · simp at member
      · rename_i entries rest whole
        revert visit
        apply forall_visits_walkEntries
        · intro entry listed
          exact ⟨entry, ⟨offset, entries, rest, reached, whole, listed⟩, rfl, rfl⟩
        · intro entry listed target leads entered visit member
          exact ih (reached.pointed whole listed leads) member
        · intro entered visit member
          split at member
          · simp at member
          · rename_i target found
            split at member
            · simp at member
            · exact ih (reached.next whole found) member

end

def HasField (block : Bytes) (id : Nat) : Prop :=
  ∃ header entry, header? block = some header ∧ Seen header.order block header.first 0 entry ∧
    entry.id = id

def HasPositionField (block : Bytes) (id : Nat) : Prop :=
  ∃ header chain pointer target entries rest entry, header? block = some header ∧
    Seen header.order block header.first chain pointer ∧ pointer.id = gpsPointer ∧
    pointer.LeadsTo header.order block target ∧
    wholeAt? header.order block target = some (entries, rest) ∧ entry ∈ entries ∧ entry.id = id

section

variable {block : Bytes} {survey : Survey}

theorem survey?_eq_some (surveyed : survey? block = some survey) :
    ∃ header, header? block = some header ∧ survey.order = header.order ∧
      survey.visits = (walkAt header.order block survey.zone (block.length + 1) 0 []
        header.first).visits := by
  unfold survey? at surveyed
  split at surveyed
  · simp at surveyed
  · rename_i header found
    split at surveyed
    · simp at surveyed
    · obtain rfl := Option.some.inj surveyed
      exact ⟨header, found, rfl, rfl⟩

theorem hasField_of_find? (surveyed : survey? block = some survey) {id : Nat} {value : Datum}
    (found : survey.find? 0 id = some value) : HasField block id := by
  obtain ⟨header, headed, -, visits⟩ := survey?_eq_some surveyed
  obtain ⟨visit, member, looked⟩ := List.exists_of_findSome?_eq_some found
  rw [visits] at member
  obtain ⟨entry, seen, same, -⟩ := exists_seen_of_mem_visits .first member
  split at looked
  · rename_i both
    rw [both.1] at seen
    exact ⟨header, entry, headed, seen, same.symm.trans both.2⟩
  · simp at looked

end

end PhotoTags.Tiff

import Mathlib.Data.Finset.Card
import PhotoTags.Proofs.Attributes.Order
import PhotoTags.Proofs.Text.Utf8

/-!
Histories of attributes: texts loaded and names set, one after another, from empty attributes on.
What the attributes are after a history is told by the history alone: the last text that could be
read, and what was set since.
-/

namespace PhotoTags.Attributes

inductive Call
  | load (text : String)
  | set (name value : String)
  deriving DecidableEq, Repr

def Call.step (attributes : Attributes) : Call → Attributes
  | load text => (attributes.reload text).2
  | set name value => attributes.set name value

def run (calls : List Call) : Attributes :=
  calls.foldl Call.step empty

def Call.loaded? : Call → Option (List Entry)
  | load text => (Exchange.decode text).toOption
  | set _ _ => none

def Call.written? : Call → Option Entry
  | load _ => none
  | set name value => if name = Exchange.thumbnailName then none else some (name, value)

def Call.isFailedLoad : Call → Bool
  | load text => (Exchange.decode text).toOption.isNone
  | set _ _ => false

def lastLoad? (calls : List Call) : Option (List Entry) :=
  calls.reverse.findSome? Call.loaded?

def writtenSince (calls : List Call) : List Entry :=
  (calls.reverse.takeWhile (·.loaded?.isNone)).reverse.filterMap Call.written?

/-- All entries that count, in their order, of which the last one of each name holds. -/
def history (calls : List Call) : List Entry :=
  Exchange.withoutThumbnail ((lastLoad? calls).getD []) ++ writtenSince calls

theorem run_append (calls : List Call) (call : Call) :
    run (calls ++ [call]) = call.step (run calls) := by
  simp [run]

theorem lastLoad?_append (calls : List Call) (call : Call) :
    lastLoad? (calls ++ [call]) = call.loaded?.or (lastLoad? calls) := by
  simp only [lastLoad?, List.reverse_append, List.reverse_singleton, List.singleton_append,
    List.findSome?_cons]
  cases call.loaded? <;> rfl

theorem writtenSince_append (calls : List Call) (call : Call) :
    writtenSince (calls ++ [call]) =
      if call.loaded?.isNone then writtenSince calls ++ call.written?.toList else [] := by
  simp only [writtenSince, List.reverse_append, List.reverse_singleton, List.singleton_append,
    List.takeWhile_cons]
  split
  · rw [List.reverse_cons, List.filterMap_append]
    cases written : call.written? <;> simp [written]
  · rfl

theorem step_cases (attributes : Attributes) (call : Call) :
    (∃ entries, call.loaded? = some entries ∧ call.step attributes = ofEntries entries) ∨
      call.loaded? = none ∧
        ((∃ entry, call.written? = some entry ∧ entry.1 ≠ Exchange.thumbnailName ∧
            call.step attributes = attributes.set entry.1 entry.2) ∨
          call.written? = none ∧ call.step attributes = attributes) := by
  cases call with
  | load text =>
      cases read : Exchange.decode text with
      | ok entries =>
          refine Or.inl ⟨entries, ?_, ?_⟩
          · simp [Call.loaded?, read, Except.toOption]
          · simp [Call.step, reload, load, read, Except.map]
      | error fault =>
          refine Or.inr ⟨?_, Or.inr ⟨rfl, ?_⟩⟩
          · simp [Call.loaded?, read, Except.toOption]
          · simp [Call.step, reload, load, read, Except.map]
  | set name value =>
      refine Or.inr ⟨rfl, ?_⟩
      by_cases thumbnail : name = Exchange.thumbnailName
      · refine Or.inr ⟨if_pos thumbnail, ?_⟩
        rw [Call.step, thumbnail, set_thumbnailName]
      · exact Or.inl ⟨(name, value), if_neg thumbnail, thumbnail, rfl⟩

theorem history_append_loaded {call : Call} {entries : List Entry} (calls : List Call)
    (loaded : call.loaded? = some entries) :
    history (calls ++ [call]) = Exchange.withoutThumbnail entries := by
  simp [history, lastLoad?_append, writtenSince_append, loaded]

theorem history_append_unloaded {call : Call} (calls : List Call)
    (unloaded : call.loaded? = none) :
    history (calls ++ [call]) = history calls ++ call.written?.toList := by
  simp [history, lastLoad?_append, writtenSince_append, unloaded]

theorem WellFormed.step {attributes : Attributes} (wellFormed : WellFormed attributes)
    (call : Call) : WellFormed (call.step attributes) := by
  rcases step_cases attributes call with
    ⟨entries, _, after⟩ | ⟨_, ⟨entry, _, _, after⟩ | ⟨_, after⟩⟩
  · rw [after]
    exact wellFormed_ofEntries entries
  · rw [after]
    exact wellFormed.set entry.1 entry.2
  · rw [after]
    exact wellFormed

theorem wellFormed_run (calls : List Call) : WellFormed (run calls) := by
  induction calls using List.reverseRecOn with
  | nil => exact wellFormed_empty
  | append_singleton calls call ih =>
      rw [run_append]
      exact ih.step call

theorem get?_run (calls : List Call) (name : String) :
    (run calls).get? name = lastValue? (history calls) name := by
  induction calls using List.reverseRecOn with
  | nil => rfl
  | append_singleton calls call ih =>
      rw [run_append]
      rcases step_cases (run calls) call with
        ⟨entries, loaded, after⟩ | ⟨unloaded, ⟨entry, written, isTag, after⟩ | ⟨unwritten, after⟩⟩
      · rw [after, history_append_loaded calls loaded]
        exact get?_ofEntries entries name
      · rw [after, history_append_unloaded calls unloaded, written, get?_set _ _ _ _ isTag,
          Option.toList_some, lastValue?_append, ih]
      · rw [after, history_append_unloaded calls unloaded, unwritten, Option.toList_none,
          List.append_nil, ih]

theorem hasThumbnail_run (calls : List Call) :
    (run calls).hasThumbnail =
      ((lastLoad? calls).bind (lastValue? · Exchange.thumbnailName)).any isTrue := by
  induction calls using List.reverseRecOn with
  | nil => rfl
  | append_singleton calls call ih =>
      rw [run_append, lastLoad?_append]
      rcases step_cases (run calls) call with
        ⟨entries, loaded, after⟩ | ⟨unloaded, ⟨entry, _, _, after⟩ | ⟨_, after⟩⟩
      · rw [after, loaded, hasThumbnail_ofEntries, Option.some_or, Option.bind_some]
      · rw [after, unloaded, hasThumbnail_set, Option.none_or, ih]
      · rw [after, unloaded, Option.none_or, ih]

theorem step_of_isFailedLoad {call : Call} (attributes : Attributes)
    (failed : call.isFailedLoad = true) : call.step attributes = attributes := by
  cases call with
  | set name value => simp [Call.isFailedLoad] at failed
  | load text =>
      rcases step_cases attributes (.load text) with
        ⟨entries, loaded, _⟩ | ⟨_, ⟨entry, written, _⟩ | ⟨_, after⟩⟩
      · rw [Call.loaded?] at loaded
        simp [Call.isFailedLoad, loaded] at failed
      · simp [Call.written?] at written
      · exact after

theorem run_filter_isFailedLoad (calls : List Call) :
    run (calls.filter (!·.isFailedLoad)) = run calls := by
  induction calls using List.reverseRecOn with
  | nil => rfl
  | append_singleton calls call ih =>
      rw [List.filter_append, run_append]
      cases failed : call.isFailedLoad with
      | false => simp [failed, run_append, ih]
      | true =>
          rw [step_of_isFailedLoad _ failed]
          simpa [failed] using ih

theorem lastValue?_isSome_iff (entries : List Entry) (name : String) :
    (lastValue? entries name).isSome = true ↔ name ∈ entries.map (·.1) := by
  simp [lastValue?]

theorem names_run (calls : List Call) (name : String) :
    name ∈ (run calls).entries.map (·.1) ↔ name ∈ (history calls).map (·.1) := by
  rw [← lastValue?_isSome_iff (history calls), ← get?_run]
  simp [get?]

theorem length_run (calls : List Call) :
    (run calls).entries.length = ((history calls).map (·.1)).toFinset.card := by
  have sameNames : ((history calls).map (·.1)).toFinset =
      ((run calls).entries.map (·.1)).toFinset := by
    ext name
    rw [List.mem_toFinset, List.mem_toFinset, names_run]
  rw [sameNames, List.toFinset_card_of_nodup (wellFormed_run calls).nodup_names, List.length_map]

theorem WellFormed.ordered_bytes {attributes : Attributes} (wellFormed : WellFormed attributes) :
    attributes.entries.Pairwise fun first second =>
      Text.utf8 first.1.toList < Text.utf8 second.1.toList :=
  wellFormed.ordered.imp fun before => Text.utf8_lt (String.lt_iff_toList_lt.mp before)

/-- Attributes after any history hold the last value that counts of each name, in the order of the
names' bytes; the flag is that of the last text that could be read; texts that could not be read
make no difference. -/
theorem run_holds_history (calls : List Call) :
    (∀ name, (run calls).get? name = lastValue? (history calls) name) ∧
      (∀ name value, (name, value) ∈ (run calls).entries ↔
        lastValue? (history calls) name = some value) ∧
      ((run calls).hasThumbnail = true ↔ ∃ entries value, lastLoad? calls = some entries ∧
        lastValue? entries Exchange.thumbnailName = some value ∧
        Text.asciiLower value.toList = "true".toList) ∧
      run (calls.filter (!·.isFailedLoad)) = run calls ∧
      (run calls).get? Exchange.thumbnailName = none ∧
      ((run calls).entries.Pairwise fun first second =>
        Text.utf8 first.1.toList < Text.utf8 second.1.toList) ∧
      (run calls).entries.length = ((history calls).map (·.1)).toFinset.card := by
  have wellFormed := wellFormed_run calls
  refine ⟨get?_run calls, ?_, ?_, run_filter_isFailedLoad calls, wellFormed.get?_thumbnailName,
    wellFormed.ordered_bytes, length_run calls⟩
  · intro name value
    rw [wellFormed.mem_iff, get?_run]
  · rw [hasThumbnail_run, Option.any_eq_true]
    constructor
    · rintro ⟨value, found, isWord⟩
      obtain ⟨entries, loaded, last⟩ := Option.bind_eq_some_iff.mp found
      exact ⟨entries, value, loaded, last, by simpa [isTrue] using isWord⟩
    · rintro ⟨entries, value, loaded, last, isWord⟩
      exact ⟨value, by simp [loaded, last], by simpa [isTrue] using isWord⟩

example :
    let calls := [.set "Make" "A", .load "2 hasThumbnail=4 TRUEModel=1 B", .load "1 Make",
      .set "Artist" "C", .set "hasThumbnail" "false"]
    history calls = [("Model", "B"), ("Artist", "C")] ∧
      run calls = ⟨[("Artist", "C"), ("Model", "B")], true⟩ := by decide

end PhotoTags.Attributes

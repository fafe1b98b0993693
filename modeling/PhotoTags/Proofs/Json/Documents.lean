import Mathlib.Data.List.Forall2
import PhotoTags.Proofs.Json.Reading
import PhotoTags.Proofs.Json.Tokens

/-!
Documents are read as they were written. What a document is read as is told part by part: words,
numbers and strings are themselves, and an array or object holds what its items or members are read
as, at whatever depth they are written and however deep the reader has come. Only a literal that is
neither a word nor a number is read as nothing.
-/

namespace PhotoTags.Json

def State.IsReady (state : State) : Prop :=
  state.expect = .value ∨ state.expect = .firstItem

theorem State.step?_of_isReady {state : State} {token : Token} (ready : state.IsReady)
    (opens : token ≠ .closeBracket) : state.step? token = state.value? token := by
  unfold step?
  rcases ready with value | first
  · rw [value]
  · rw [first]
    cases token with
    | closeBracket => exact absurd rfl opens
    | _ => rfl

theorem State.finish_congr {state other : State} (same : state.frames = other.frames)
    (value : Json) : state.finish value = other.finish value := by
  obtain ⟨frames, expect, last⟩ := state
  obtain ⟨otherFrames, otherExpect, otherLast⟩ := other
  obtain rfl : frames = otherFrames := same
  rcases frames with _ | ⟨_ | _, _⟩ <;> rfl

theorem run_lineBreak (depth : Nat) (rest : List Char) (state : State) :
    Run (lineBreak depth ++ rest, state) (rest, state) := by
  have spaces (count : Nat) : Run (List.replicate count ' ' ++ rest, state) (rest, state) := by
    induction count with
    | zero => exact .refl
    | succ count ih => exact (Run.space rfl).trans ih
  exact (Run.space rfl).trans (spaces (2 * depth))

theorem ends_cons (c : Char) (other : isNumberChar c = false) (rest : List Char) :
    Ends (c :: rest) := by
  intro first head
  exact Option.some.inj head ▸ other

section

variable {Part : Type} (ready held : List Part → State → Prop)

def Carries (text : List Char) (part : Part) : Prop :=
  ∀ done state rest, Ends rest → ready done state →
    ∃ next, Run (text ++ rest, state) (rest, next) ∧ held (part :: done) next

variable {ready held}
  (comma : ∀ done state, held done state →
    ∃ next, state.step? .comma = some next ∧ ready done next)

include comma

theorem run_parts {texts : List (List Char)} {parts : List Part} (depth : Nat)
    (each : List.Forall₂ (Carries ready held) texts parts) (nonempty : texts ≠ [])
    {done : List Part} {state : State} (start : ready done state) {rest : List Char}
    (ends : Ends rest) :
    ∃ next, Run ((',' :: lineBreak depth).intercalate texts ++ rest, state) (rest, next) ∧
      held (parts.reverse ++ done) next := by
  induction each generalizing done state with
  | nil => exact absurd rfl nonempty
  | @cons text part texts parts carries each ih =>
      cases each with
      | nil =>
          rw [List.intercalate_singleton]
          exact carries done state rest ends start
      | @cons second other seconds others =>
          rw [List.intercalate_cons_cons, List.append_assoc, List.append_assoc]
          obtain ⟨behind, first, held⟩ :=
            carries done state _ (ends_cons ',' (by decide) _) start
          obtain ⟨between, passed, again⟩ := comma _ behind held
          obtain ⟨last, later, all⟩ := ih (List.cons_ne_nil _ _) again
          refine ⟨last, first.trans ((Run.token rfl passed).trans
            ((run_lineBreak depth _ between).trans later)), ?_⟩
          rwa [List.reverse_cons, List.append_assoc, List.singleton_append]

/-- Brackets with parts between them are read if they are opened before the first part and closed
behind the last one. -/
theorem run_bracketed {opening closing : Char} {openMark closeMark : Token}
    (openTaken : ∀ rest, tokenAt (opening :: rest) = some (openMark, rest))
    (closeTaken : ∀ rest, tokenAt (closing :: rest) = some (closeMark, rest))
    {texts : List (List Char)} {parts : List Part}
    (each : List.Forall₂ (Carries ready held) texts parts) {state first last : State}
    (opened : state.step? openMark = some first) (start : ready [] first)
    (empty : parts = [] → first.step? closeMark = some last)
    (closed : ∀ next, held parts.reverse next → next.step? closeMark = some last) (depth : Nat)
    (rest : List Char) : Run (bracketed opening closing depth texts ++ rest, state) (rest, last) := by
  have begun (rest : List Char) : Run (opening :: rest, state) (rest, first) :=
    Run.token (openTaken rest) opened
  unfold bracketed
  split
  · rename_i none
    obtain rfl := List.isEmpty_iff.mp none
    cases each
    exact (begun _).trans (Run.token (closeTaken rest) (empty rfl))
  · rename_i some
    have nonempty : texts ≠ [] := fun none => some (List.isEmpty_iff.mpr none)
    obtain ⟨behind, passed, all⟩ := run_parts comma (depth + 1) each nonempty start
      (ends_cons '\n' (by decide) (List.replicate (2 * depth) ' ' ++ closing :: rest))
    rw [List.append_nil] at all
    have finished : Run (lineBreak depth ++ closing :: rest, behind) (rest, last) :=
      (run_lineBreak depth _ behind).trans (Run.token (closeTaken rest) (closed behind all))
    simp only [List.append_assoc, List.cons_append, List.nil_append]
    exact (begun _).trans ((run_lineBreak (depth + 1) _ first).trans (passed.trans finished))

end

namespace Document

/-- The text of the document is read as the value, at any depth and wherever a value may come, if it
does not end in a number that goes on. -/
def Reads (document : Document) (json : Json) : Prop :=
  ∀ depth state rest, Ends rest → state.IsReady →
    Run (document.textAt depth ++ rest, state) (rest, state.finish json)

theorem reads_literal {text : List Char} {token : Token} {json : Json}
    (taken : ∀ rest, Ends rest → tokenAt (text ++ rest) = some (token, rest))
    (opens : token ≠ .closeBracket)
    (finished : ∀ state : State, state.value? token = some (state.finish json)) :
    (Document.literal text).Reads json := by
  intro depth state rest ends ready
  rw [textAt]
  refine Run.token (taken rest ends) ?_
  rw [State.step?_of_isReady ready opens, finished]

theorem reads_string (text : String) : (Document.string text).Reads (.string (some text)) := by
  intro depth state rest ends ready
  rw [textAt]
  refine Run.token (tokenAt_stringText text rest) ?_
  rw [State.step?_of_isReady ready (by simp)]
  rfl

theorem itemTexts_eq_map (depth : Nat) (items : List Document) :
    itemTexts depth items = items.map (textAt depth) := by
  induction items with
  | nil => rw [itemTexts, List.map_nil]
  | cons item rest ih => rw [itemTexts, ih, List.map_cons]

theorem memberTexts_eq_map (depth : Nat) (members : List (String × Document)) :
    memberTexts depth members = members.map fun member =>
      stringText member.1 ++ ':' :: ' ' :: textAt depth member.2 := by
  induction members with
  | nil => rw [memberTexts, List.map_nil]
  | cons member rest ih => rw [memberTexts, ih, List.map_cons]

def AtItem (frames : List Frame) (done : List Json) (state : State) : Prop :=
  state.frames = .array done :: frames ∧ state.IsReady

def BehindItem (frames : List Frame) (done : List Json) (state : State) : Prop :=
  state.frames = .array done :: frames ∧ state.expect = .separator

def AtMember (frames : List Frame) (done : List (Option String × Json)) (state : State) : Prop :=
  (∃ name, state.frames = .object done name :: frames) ∧
    (state.expect = .firstName ∨ state.expect = .name)

def BehindMember (frames : List Frame) (done : List (Option String × Json)) (state : State) :
    Prop :=
  state.frames = .object done none :: frames ∧ state.expect = .separator

theorem carries_item {frames : List Frame} {item : Document} {value : Json}
    (reads : item.Reads value) (depth : Nat) :
    Carries (AtItem frames) (BehindItem frames) (textAt depth item) value := by
  rintro done state rest ends ⟨inArray, ready⟩
  refine ⟨_, reads depth state rest ends ready, ?_⟩
  simp only [BehindItem, State.finish, inArray, and_self]

theorem carries_member {frames : List Frame} {name : String} {member : Document} {value : Json}
    (reads : member.Reads value) (depth : Nat) :
    Carries (AtMember frames) (BehindMember frames)
      (stringText name ++ ':' :: ' ' :: textAt depth member) (some name, value) := by
  rintro done ⟨inner, expect, last⟩ rest ends ⟨⟨former, inObject⟩, ready⟩
  obtain rfl : inner = _ := inObject
  have named : State.step? ⟨.object done former :: frames, expect, last⟩ (.string (some name)) =
      some ⟨.object done (some name) :: frames, .colon, last⟩ := by
    rcases ready with rfl | rfl <;> rfl
  have value := reads depth ⟨.object done (some name) :: frames, .value, last⟩ rest ends (.inl rfl)
  rw [List.append_assoc]
  exact ⟨_, (Run.token (tokenAt_stringText name _) named).trans
    ((Run.token rfl rfl).trans ((Run.space rfl).trans value)), rfl, rfl⟩

theorem step?_comma_of_behindItem {frames : List Frame} (done : List Json) (state : State)
    (behind : BehindItem frames done state) :
    ∃ next, state.step? .comma = some next ∧ AtItem frames done next := by
  obtain ⟨inArray, separated⟩ := behind
  refine ⟨{ state with expect := .value }, ?_, inArray, .inl rfl⟩
  simp only [State.step?, separated, State.comma?, inArray]

theorem step?_comma_of_behindMember {frames : List Frame} (done : List (Option String × Json))
    (state : State) (behind : BehindMember frames done state) :
    ∃ next, state.step? .comma = some next ∧ AtMember frames done next := by
  obtain ⟨inObject, separated⟩ := behind
  refine ⟨{ state with expect := .name }, ?_, ⟨none, inObject⟩, .inr rfl⟩
  simp only [State.step?, separated, State.comma?, inObject]

theorem reads_array {items : List Document} {values : List Json}
    (each : List.Forall₂ Reads items values) : (Document.array items).Reads (.array values) := by
  intro depth state rest ends ready
  have carried : List.Forall₂ (Carries (AtItem state.frames) (BehindItem state.frames))
      (items.map (textAt (depth + 1))) values :=
    List.forall₂_map_left_iff.mpr (each.imp fun _ _ reads => carries_item reads (depth + 1))
  have opened : state.step? .openBracket =
      some { state with frames := .array [] :: state.frames, expect := .firstItem } := by
    rw [State.step?_of_isReady ready (by simp)]
    rfl
  rw [textAt, itemTexts_eq_map]
  refine run_bracketed step?_comma_of_behindItem (fun _ => rfl) (fun _ => rfl) carried opened
    ⟨rfl, .inr rfl⟩ ?_ ?_ depth rest
  · rintro rfl
    exact congrArg some (State.finish_congr rfl _)
  · rintro next ⟨inArray, separated⟩
    simp only [State.step?, separated, State.closeArray?, inArray, List.reverse_reverse]
    exact congrArg some (State.finish_congr rfl _)

theorem reads_object {members : List (String × Document)} {values : List (Option String × Json)}
    (each : List.Forall₂ (fun member value => value.1 = some member.1 ∧ member.2.Reads value.2)
      members values) : (Document.object members).Reads (.object values) := by
  intro depth state rest ends ready
  have carried : List.Forall₂ (Carries (AtMember state.frames) (BehindMember state.frames))
      (members.map fun member =>
        stringText member.1 ++ ':' :: ' ' :: textAt (depth + 1) member.2) values := by
    refine List.forall₂_map_left_iff.mpr (each.imp ?_)
    rintro member ⟨name, value⟩ ⟨rfl, reads⟩
    exact carries_member reads (depth + 1)
  have opened : state.step? .openBrace =
      some { state with frames := .object [] none :: state.frames, expect := .firstName } := by
    rw [State.step?_of_isReady ready (by simp)]
    rfl
  rw [textAt, memberTexts_eq_map]
  refine run_bracketed step?_comma_of_behindMember (fun _ => rfl) (fun _ => rfl) carried opened
    ⟨⟨none, rfl⟩, .inl rfl⟩ ?_ ?_ depth rest
  · rintro rfl
    exact congrArg some (State.finish_congr rfl _)
  · rintro next ⟨inObject, separated⟩
    simp only [State.step?, separated, State.closeObject?, inObject, List.reverse_reverse]
    exact congrArg some (State.finish_congr rfl _)

def ofWord : Option Bool → Json
  | some value => .bool value
  | none => .null

def literalValue? (text : List Char) : Option Json :=
  match words.find? (·.1 == text) with
  | some word => some (ofWord word.2)
  | none => if isNumber text && text.all isNumberChar then some (.number text) else none

mutual

def value? : Document → Option Json
  | .literal text => literalValue? text
  | .string text => some (.string (some text))
  | .array items => (itemValues? items).map .array
  | .object members => (memberValues? members).map .object

def itemValues? : List Document → Option (List Json)
  | [] => some []
  | item :: rest =>
      (value? item).bind fun value => (itemValues? rest).map (value :: ·)

def memberValues? : List (String × Document) → Option (List (Option String × Json))
  | [] => some []
  | (name, member) :: rest =>
      (value? member).bind fun value => (memberValues? rest).map ((some name, value) :: ·)

end

theorem reads_of_literalValue? {text : List Char} {json : Json}
    (told : literalValue? text = some json) : (Document.literal text).Reads json := by
  unfold literalValue? at told
  split at told
  · rename_i word found
    obtain rfl := Option.some.inj told
    obtain rfl : word.1 = text := by simpa using List.find?_some found
    refine reads_literal (fun rest _ => tokenAt_word (List.mem_of_find?_eq_some found) rest)
      (by simp) fun _ => ?_
    cases word.2 <;> rfl
  · split at told
    · rename_i sound
      obtain rfl := Option.some.inj told
      rw [Bool.and_eq_true, List.all_eq_true] at sound
      exact reads_literal (fun rest ends => tokenAt_number sound.1 sound.2 ends) (by simp)
        fun _ => rfl
    · cases told

mutual

theorem reads_of_value? : ∀ (document : Document) (json : Json),
    document.value? = some json → document.Reads json
  | .literal text, _, told => reads_of_literalValue? told
  | .string text, _, told => Option.some.inj told ▸ reads_string text
  | .array items, json, told => by
      obtain ⟨values, all, rfl⟩ := Option.map_eq_some_iff.mp told
      exact reads_array (reads_of_itemValues? items values all)
  | .object members, json, told => by
      obtain ⟨values, all, rfl⟩ := Option.map_eq_some_iff.mp told
      exact reads_object (reads_of_memberValues? members values all)

theorem reads_of_itemValues? : ∀ (items : List Document) (values : List Json),
    itemValues? items = some values → List.Forall₂ Reads items values
  | [], _, told => Option.some.inj told ▸ .nil
  | item :: rest, values, told => by
      obtain ⟨value, first, told⟩ := Option.bind_eq_some_iff.mp told
      obtain ⟨others, later, rfl⟩ := Option.map_eq_some_iff.mp told
      exact .cons (reads_of_value? item value first) (reads_of_itemValues? rest others later)

theorem reads_of_memberValues? : ∀ (members : List (String × Document))
    (values : List (Option String × Json)), memberValues? members = some values →
      List.Forall₂ (fun member value => value.1 = some member.1 ∧ member.2.Reads value.2)
        members values
  | [], _, told => Option.some.inj told ▸ .nil
  | (name, member) :: rest, values, told => by
      obtain ⟨value, first, told⟩ := Option.bind_eq_some_iff.mp told
      obtain ⟨others, later, rfl⟩ := Option.map_eq_some_iff.mp told
      exact .cons ⟨rfl, reads_of_value? member value first⟩
        (reads_of_memberValues? rest others later)

end

/-- The text of a document is read as what the document says, whatever its shape and its depth. -/
theorem read?_text {document : Document} {json : Json} (told : document.value? = some json) :
    Json.read? document.text.toList = some json := by
  have ends : Ends [] := by
    intro c first
    simp at first
  have run := reads_of_value? document json told 0 ⟨[], .value, .null⟩ [] ends (.inl rfl)
  rw [List.append_nil] at run
  rw [text, String.toList_ofList]
  exact read?_of_run run

@[simp] theorem value?_bool (value : Bool) : (bool value).value? = some (.bool value) := by
  cases value <;> rfl

@[simp] theorem value?_number (value : Int) :
    (number value).value? = some (.number (Text.signedDecimal value)) := by
  obtain ⟨isLiteral, all⟩ := isNumber_signedDecimal value
  have noWord : words.find? (·.1 == Text.signedDecimal value) = none := by
    rw [List.find?_eq_none]
    intro word listed same
    have digits : ∀ word ∈ words, isNumber word.1 = false := by decide
    rw [← beq_iff_eq.mp same, digits word listed] at isLiteral
    cases isLiteral
  simp only [number, value?, literalValue?, noWord, isLiteral, List.all_eq_true.mpr all,
    Bool.and_self, if_true]

end Document

end PhotoTags.Json

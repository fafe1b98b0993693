import Mathlib.Logic.Relation
import PhotoTags.Json.Value

/-!
Reading a JSON text as a run of single steps, each of which passes a space or takes a token and hands
it to the reader of values. A run that uses up the text and ends with a finished value is how the
text is read: every token takes some of the text, so that the reader's fuel lasts.
-/

namespace PhotoTags.Json

theorem of_after? {word text rest : List Char} (found : Text.after? word text = some rest) :
    text = word ++ rest := by
  induction word generalizing text with
  | nil => exact Option.some.inj found
  | cons c word ih =>
      cases text with
      | nil => simp [Text.after?] at found
      | cons d text =>
          simp only [Text.after?] at found
          split at found
          · rename_i same
            rw [same, ih found, List.cons_append]
          · simp at found

theorem length_of_unitsAt {units found : List Nat} {text rest : List Char}
    (read : unitsAt units text = some (found, rest)) : rest.length < text.length := by
  -- A string ends, or goes on behind an escape or a character of its own.
  fun_induction unitsAt units text with
  | case1 units a b c d text unit _ ih =>
      have shorter := ih read
      simp only [List.length_cons]
      omega
  | case3 units c text _ character _ ih =>
      have shorter := ih read
      simp only [List.length_cons]
      omega
  | case5 units text =>
      obtain rfl := (Prod.mk.inj (Option.some.inj read)).2
      exact Nat.lt_succ_self _
  | case7 units c text _ _ _ _ ih => exact Nat.lt_succ_of_lt (ih read)
  | case2 | case4 | case6 | case8 => cases read

theorem length_of_plainTokenAt {text rest : List Char} {token : Token}
    (read : plainTokenAt text = some (token, rest)) : rest.length < text.length := by
  unfold plainTokenAt at read
  split at read
  · rename_i result found
    obtain rfl := Option.some.inj read
    obtain ⟨word, member, taken⟩ := List.exists_of_findSome?_eq_some found
    obtain ⟨left, behind, same⟩ := Option.map_eq_some_iff.mp taken
    obtain rfl := (Prod.mk.inj same).2
    have long : 0 < word.1.length := by
      have all : ∀ word ∈ words, 0 < word.1.length := by decide
      exact all word member
    rw [of_after? behind, List.length_append]
    omega
  · dsimp only at read
    split at read
    · rename_i isLiteral
      obtain rfl := (Prod.mk.inj (Option.some.inj read)).2
      have whole := congrArg List.length
        (List.takeWhile_append_dropWhile (p := isNumberChar) (l := text))
      have nonempty : text.takeWhile isNumberChar ≠ [] := by
        intro empty
        rw [empty] at isLiteral
        exact absurd isLiteral (by decide)
      have long := List.length_pos_iff.mpr nonempty
      rw [List.length_append] at whole
      omega
    · simp at read

theorem length_of_tokenAt {text rest : List Char} {token : Token}
    (read : tokenAt text = some (token, rest)) : rest.length < text.length := by
  cases text with
  | nil => simp [tokenAt] at read
  | cons c text =>
      have one {mark : Token} (same : some (mark, text) = some (token, rest)) :
          rest.length < (c :: text).length := by
        rw [← (Prod.mk.inj (Option.some.inj same)).2]
        exact Nat.lt_succ_self _
      simp only [tokenAt] at read
      -- Six marks of one character each, then strings and all other tokens.
      repeat' split at read
      · exact one read
      · exact one read
      · exact one read
      · exact one read
      · exact one read
      · exact one read
      · obtain ⟨⟨units, left⟩, found, same⟩ := Option.map_eq_some_iff.mp read
        obtain rfl := (Prod.mk.inj same).2
        exact Nat.lt_succ_of_lt (length_of_unitsAt found)
      · exact length_of_plainTokenAt read

theorem isSpace_of_tokenAt {c : Char} {text rest : List Char} {token : Token}
    (read : tokenAt (c :: text) = some (token, rest)) : isSpace c = false := by
  cases space : isSpace c with
  | false => rfl
  | true =>
      simp only [isSpace, Bool.or_eq_true, beq_iff_eq] at space
      rcases space with ((rfl | rfl) | rfl) | rfl <;>
        simp [tokenAt, plainTokenAt, words, Text.after?, isNumberChar, isNumber] at read

inductive Step : List Char × State → List Char × State → Prop
  | space {c : Char} {rest : List Char} {state : State} : isSpace c = true →
      Step (c :: rest, state) (rest, state)
  | token {text rest : List Char} {token : Token} {state next : State} :
      tokenAt text = some (token, rest) → state.step? token = some next →
      Step (text, state) (rest, next)

def Run : List Char × State → List Char × State → Prop :=
  Relation.ReflTransGen Step

theorem Run.trans {first middle last : List Char × State} (start : Run first middle)
    (later : Run middle last) : Run first last :=
  Relation.ReflTransGen.trans start later

theorem Run.space {c : Char} {rest : List Char} {state : State} (space : isSpace c = true) :
    Run (c :: rest, state) (rest, state) :=
  .single (.space space)

theorem Run.token {text rest : List Char} {token : Token} {state next : State}
    (taken : tokenAt text = some (token, rest)) (passed : state.step? token = some next) :
    Run (text, state) (rest, next) :=
  .single (.token taken passed)

theorem tokensFrom_space (fuel : Nat) (read : List Token) {c : Char} {rest : List Char}
    (space : isSpace c = true) : tokensFrom fuel read (c :: rest) = tokensFrom fuel read rest := by
  cases fuel with
  | zero => rfl
  | succ fuel => simp only [tokensFrom, List.dropWhile_cons, space, if_true]

theorem tokensFrom_token (fuel : Nat) (read : List Token) {text rest : List Char} {token : Token}
    (taken : tokenAt text = some (token, rest)) :
    tokensFrom (fuel + 1) read text = tokensFrom fuel (token :: read) rest := by
  cases text with
  | nil => simp [tokenAt] at taken
  | cons c text =>
      have solid := isSpace_of_tokenAt taken
      simp only [tokensFrom, List.dropWhile_cons, solid, Bool.false_eq_true, if_false, taken]

theorem exists_tokens {start : List Char × State} {last : State} (run : Run start ([], last)) :
    ∃ tokens, (∀ fuel read, start.1.length < fuel →
        tokensFrom fuel read start.1 = some (read.reverse ++ tokens)) ∧
      tokens.foldlM State.step? start.2 = some last := by
  induction run using Relation.ReflTransGen.head_induction_on with
  | refl =>
      refine ⟨[], fun fuel read enough => ?_, rfl⟩
      cases fuel with
      | zero => exact absurd enough (Nat.not_lt_zero _)
      | succ fuel => simp [tokensFrom]
  | head step _ ih =>
      obtain ⟨tokens, scanned, folded⟩ := ih
      cases step with
      | space space =>
          refine ⟨tokens, fun fuel read enough => ?_, folded⟩
          rw [tokensFrom_space fuel read space]
          exact scanned fuel read (Nat.lt_of_succ_lt enough)
      | @token text rest token state next taken passed =>
          refine ⟨token :: tokens, fun fuel read enough => ?_, ?_⟩
          · have shorter := length_of_tokenAt taken
            cases fuel with
            | zero => exact absurd enough (Nat.not_lt_zero _)
            | succ fuel =>
                have left := Nat.lt_of_lt_of_le shorter (Nat.le_of_lt_succ enough)
                rw [tokensFrom_token fuel read taken, scanned fuel (token :: read) left,
                  List.reverse_cons, List.append_assoc, List.singleton_append]
          · rw [List.foldlM_cons, passed]
            exact folded

/-- A text is read as the value with which a run from its start to its end is finished. -/
theorem read?_of_run {text : List Char} {value : Json}
    (run : Run (text, ⟨[], .value, .null⟩) ([], ⟨[], .separator, value⟩)) :
    Json.read? text = some value := by
  obtain ⟨tokens, scanned, folded⟩ := exists_tokens run
  have all : tokens? text = some tokens := scanned (text.length + 1) [] (Nat.lt_succ_self _)
  rw [Json.read?, all, Option.bind_some, Json.ofTokens?, folded]

end PhotoTags.Json

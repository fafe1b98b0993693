import PhotoTags.Codec.Memory

/-!
What the calls of the codec in memory do, with failures armed or not. A call that an armed failure
strikes does nothing else; only a commit that succeeds changes what is kept.
-/

namespace PhotoTags

namespace MemoryCodec

def files (codec : MemoryCodec) : PathMap String × PathMap Bytes :=
  (codec.texts, codec.thumbnails)

theorem guarded_of_armed {α : Type} {call : CodecCall} {error : CodecError} {codec : MemoryCodec}
    (run : MemoryCodec → Reply MemoryCodec α)
    (armed : (trigger call codec.armed).1 = some error) :
    guarded call run codec =
      (.error (.error error), { codec with armed := (trigger call codec.armed).2 }) := by
  simp [guarded, armed]

theorem guarded_of_unarmed {α : Type} {call : CodecCall} {codec : MemoryCodec}
    (run : MemoryCodec → Reply MemoryCodec α) (unarmed : (trigger call codec.armed).1 = none) :
    guarded call run codec = run { codec with armed := (trigger call codec.armed).2 } := by
  simp [guarded, unarmed]

theorem guarded_returns {α : Type} {call : CodecCall} {run : MemoryCodec → Reply MemoryCodec α}
    (returns : ∀ codec, (run codec).1 ≠ .error .abort) (codec : MemoryCodec) :
    (guarded call run codec).1 ≠ .error .abort := by
  cases triggered : (trigger call codec.armed).1 with
  | some error => simp [guarded_of_armed run triggered]
  | none =>
      rw [guarded_of_unarmed run triggered]
      exact returns _

theorem files_guarded {α : Type} {call : CodecCall} {run : MemoryCodec → Reply MemoryCodec α}
    (kept : ∀ codec, (run codec).2.files = codec.files) (codec : MemoryCodec) :
    (guarded call run codec).2.files = codec.files := by
  cases triggered : (trigger call codec.armed).1 with
  | some error => rw [guarded_of_armed run triggered]; rfl
  | none =>
      rw [guarded_of_unarmed run triggered]
      exact kept _

theorem files_fetch (path : Path) (codec : MemoryCodec) :
    (fetch path codec).2.files = codec.files := by
  refine files_guarded (fun codec => ?_) codec
  split <;> rfl

theorem files_stage (path : Path) (text : String) (codec : MemoryCodec) :
    (stage path text codec).2.files = codec.files :=
  files_guarded (fun _ => rfl) codec

theorem files_thumbnail (path : Path) (codec : MemoryCodec) :
    (thumbnail path codec).2.files = codec.files :=
  files_guarded (fun _ => rfl) codec

theorem fetch_returns (path : Path) (codec : MemoryCodec) :
    (fetch path codec).1 ≠ .error .abort := by
  refine guarded_returns (fun codec => ?_) codec
  split <;> simp

theorem commit_returns (path : Path) (codec : MemoryCodec) :
    (commit path codec).1 ≠ .error .abort := by
  refine guarded_returns (fun codec => ?_) codec
  split <;> simp

theorem commit_refused {path : Path} {codec : MemoryCodec} {cause : CodecError}
    (refused : (commit path codec).1 = .error (.error cause)) :
    (commit path codec).2.files = codec.files := by
  unfold commit at refused ⊢
  cases triggered : (trigger .commit codec.armed).1 with
  | some error => rw [guarded_of_armed _ triggered]; rfl
  | none =>
      rw [guarded_of_unarmed _ triggered] at refused ⊢
      cases staged : codec.staged.get? path with
      | none => rfl
      | some text => simp [staged] at refused

theorem stage_of_unarmed {codec : MemoryCodec} (path : Path) (text : String)
    (unarmed : (trigger .stage codec.armed).1 = none) :
    stage path text codec = (.ok (), { codec with
      staged := codec.staged.insert path text
      armed := (trigger .stage codec.armed).2 }) := by
  rw [stage, guarded_of_unarmed _ unarmed]

theorem commit_of_unarmed {path : Path} {codec : MemoryCodec} {text : String}
    (staged : codec.staged.get? path = some text)
    (unarmed : (trigger .commit codec.armed).1 = none) :
    commit path codec = (.ok (), { codec with
      texts := codec.texts.insert path text
      staged := codec.staged.erase path
      armed := (trigger .commit codec.armed).2 }) := by
  rw [commit, guarded_of_unarmed _ unarmed]
  simp only [staged]

theorem store_of_unarmed {codec : MemoryCodec} (path : Path) (text : String)
    (unarmed : codec.armed = []) :
    Codec.store path text codec = (.ok (), { codec with
      texts := codec.texts.insert path text
      staged := (codec.staged.insert path text).erase path }) := by
  have held : (codec.staged.insert path text).get? path = some text := by
    rw [PathMap.get?_insert, if_pos rfl]
  have never (call : CodecCall) : trigger call codec.armed = (none, []) := by rw [unarmed]; rfl
  have committing : (trigger .commit (trigger .stage codec.armed).2).1 = none := by
    rw [never .stage]
    rfl
  simp only [Codec.store, Codec.stage, Codec.commit]
  rw [stage_of_unarmed _ _ (by rw [never])]
  dsimp only
  rw [commit_of_unarmed held committing, never .stage, unarmed]
  rfl

theorem store_cases (path : Path) (text : String) (codec : MemoryCodec) : ∃ armed,
    (∃ error, Codec.store path text codec = (.error (.error error), { codec with armed })) ∨
    (∃ error, Codec.store path text codec =
      (.error (.error error), { codec with staged := codec.staged.insert path text, armed })) ∨
    Codec.store path text codec = (.ok (), { codec with
      texts := codec.texts.insert path text
      staged := (codec.staged.insert path text).erase path
      armed }) := by
  have held : (codec.staged.insert path text).get? path = some text := by
    rw [PathMap.get?_insert, if_pos rfl]
  simp only [Codec.store, Codec.stage, Codec.commit]
  cases staging : (trigger .stage codec.armed).1 with
  | some error =>
      rw [stage, guarded_of_armed _ staging]
      exact ⟨_, .inl ⟨error, rfl⟩⟩
  | none =>
      rw [stage_of_unarmed path text staging]
      dsimp only
      cases committing : (trigger .commit (trigger .stage codec.armed).2).1 with
      | some error =>
          rw [commit, guarded_of_armed _ committing]
          exact ⟨_, .inr (.inl ⟨error, rfl⟩)⟩
      | none =>
          rw [commit_of_unarmed held committing]
          exact ⟨_, .inr (.inr rfl)⟩

end MemoryCodec

end PhotoTags

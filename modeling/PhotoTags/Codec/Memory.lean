import PhotoTags.Codec.Basic
import PhotoTags.Files.PathMap

/-!
A codec that keeps texts in memory, and that can be told to fail.
-/

namespace PhotoTags

inductive CodecCall
  | fetch
  | stage
  | commit
  | thumbnail
  deriving DecidableEq, Repr

/-- A failure that waits for a call, after a number of such calls have passed. -/
structure ArmedFailure where
  call : CodecCall
  passes : Nat
  error : CodecError
  deriving DecidableEq, Repr

structure MemoryCodec where
  texts : PathMap String
  staged : PathMap String
  thumbnails : PathMap Bytes
  armed : List ArmedFailure
  deriving DecidableEq, Repr

namespace MemoryCodec

def trigger (call : CodecCall) : List ArmedFailure → Option CodecError × List ArmedFailure
  | [] => (none, [])
  | failure :: rest =>
      if failure.call = call then
        match failure.passes with
        | 0 => (some failure.error, rest)
        | passes + 1 => (none, { failure with passes } :: rest)
      else
        let later := trigger call rest
        (later.1, failure :: later.2)

def guarded {α : Type} (call : CodecCall) (run : MemoryCodec → Reply MemoryCodec α)
    (codec : MemoryCodec) : Reply MemoryCodec α :=
  let triggered := trigger call codec.armed
  let codec := { codec with armed := triggered.2 }
  match triggered.1 with
  | some error => (.error (.error error), codec)
  | none => run codec

def fetch (path : Path) : MemoryCodec → Reply MemoryCodec String :=
  guarded .fetch fun codec =>
    match codec.texts.get? path with
    | some text => (.ok text, codec)
    | none => (.error (.error .notFound), codec)

def stage (path : Path) (text : String) : MemoryCodec → Reply MemoryCodec Unit :=
  guarded .stage fun codec => (.ok (), { codec with staged := codec.staged.insert path text })

def commit (path : Path) : MemoryCodec → Reply MemoryCodec Unit :=
  guarded .commit fun codec =>
    match codec.staged.get? path with
    | none => (.error (.error (.nothingStaged path.text)), codec)
    | some text =>
        (.ok (), { codec with
          texts := codec.texts.insert path text
          staged := codec.staged.erase path })

def thumbnail (path : Path) : MemoryCodec → Reply MemoryCodec (Option Bytes) :=
  guarded .thumbnail fun codec => (.ok (codec.thumbnails.get? path), codec)

instance : Codec MemoryCodec := ⟨fetch, stage, commit, thumbnail⟩

end MemoryCodec

end PhotoTags

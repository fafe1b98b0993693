import PhotoTags.Attributes
import PhotoTags.Image.Save

/-!
Codecs: whatever keeps the attributes of images by path. A codec hands attributes out as a text, and
takes them in two steps: a text is staged for a path, then what is staged is committed. Calls that
fail may still change the codec's state.
-/

namespace PhotoTags

inductive CodecError
  | notFound
  | denied
  | format (reason : String)
  | nothingStaged (path : String)
  | image (problem : Image.Problem)
  | backend (reason : String)
  deriving DecidableEq, Repr

def CodecError.message : CodecError → String
  | notFound => "I/O error: entity not found"
  | denied => "I/O error: permission denied"
  | format reason => "codec format error: " ++ reason
  | nothingStaged path => "no staged attributes for " ++ path
  | image problem => problem.message
  | backend reason => reason

abbrev Reply (σ α : Type) := Except (Failure CodecError) α × σ

class Codec (σ : Type) where
  /-- The text of the attributes at a path, with the thumbnail entry. -/
  fetch : Path → σ → Reply σ String
  /-- Takes the text of the attributes that the next commit for the path is to write. -/
  stage : Path → String → σ → Reply σ Unit
  /-- Writes what is staged for the path, which is staged no longer. -/
  commit : Path → σ → Reply σ Unit
  thumbnail : Path → σ → Reply σ (Option Bytes)

/-- Stages a text and commits it, unless staging fails. -/
def Codec.store {σ : Type} [Codec σ] (path : Path) (text : String) (codec : σ) : Reply σ Unit :=
  match Codec.stage path text codec with
  | (.ok _, codec) => Codec.commit path codec
  | (.error failure, codec) => (.error failure, codec)

end PhotoTags

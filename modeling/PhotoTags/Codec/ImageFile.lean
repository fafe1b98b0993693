import PhotoTags.Codec.Basic
import PhotoTags.Typed

/-!
The attributes of one image as they were read through a codec, to be changed and saved.
-/

namespace PhotoTags

inductive AccessError
  | malformed (cause : Exchange.Malformed)
  | codec (cause : CodecError)
  deriving DecidableEq, Repr

def AccessError.message : AccessError → String
  | malformed cause => cause.message
  | codec cause => cause.message

structure ImageFile where
  path : Path
  attributes : Attributes
  deriving DecidableEq, Repr

abbrev Access (σ α : Type) := Except (Failure AccessError) α × σ

namespace ImageFile

variable {σ : Type} [Codec σ]

def openAt (path : Path) (codec : σ) : Access σ ImageFile :=
  match Codec.fetch path codec with
  | (.error failure, codec) => (.error (failure.map .codec), codec)
  | (.ok text, codec) =>
      match Attributes.load text with
      | .error cause => (.error (.error (.malformed cause)), codec)
      | .ok attributes => (.ok ⟨path, attributes⟩, codec)

/-- Reads the attributes again; changes that were not saved are lost. -/
def reload (file : ImageFile) (codec : σ) : Access σ ImageFile :=
  openAt file.path codec

def save (file : ImageFile) (codec : σ) : Access σ Unit :=
  match Codec.store file.path file.attributes.save codec with
  | (.error failure, codec) => (.error (failure.map .codec), codec)
  | (.ok _, codec) => (.ok (), codec)

def thumbnail (file : ImageFile) (codec : σ) : Access σ (Option Bytes) :=
  match Codec.thumbnail file.path codec with
  | (.error failure, codec) => (.error (failure.map .codec), codec)
  | (.ok thumbnail, codec) => (.ok thumbnail, codec)

def get? (file : ImageFile) (name : String) : Option String :=
  file.attributes.get? name

def set (file : ImageFile) (name value : String) : ImageFile :=
  { file with attributes := file.attributes.set name value }

end ImageFile

end PhotoTags

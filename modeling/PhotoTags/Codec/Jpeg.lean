import PhotoTags.Codec.Basic
import PhotoTags.Files.PathMap

/-!
The codec of the JPEG images in a file tree.
-/

namespace PhotoTags

structure JpegCodec where
  tree : FileTree
  staged : PathMap (List Entry)
  backups : Bool
  deriving DecidableEq, Repr

namespace JpegCodec

def new (tree : FileTree) (backups : Bool) : JpegCodec :=
  ⟨tree, .empty, backups⟩

def failed (problem : Image.Problem) : Failure CodecError :=
  .error (.image problem)

def fetch (path : Path) (codec : JpegCodec) : Reply JpegCodec String :=
  match Image.findingsAt codec.tree path with
  | .error problem => (.error (failed problem), codec)
  | .ok found => (.ok (Exchange.encodeWithThumbnail found.entries found.hasThumbnail), codec)

def stage (path : Path) (text : String) (codec : JpegCodec) : Reply JpegCodec Unit :=
  match Exchange.decode text with
  | .error malformed => (.error (.error (.format malformed.message)), codec)
  | .ok entries => (.ok (), { codec with staged := codec.staged.insert path entries })

def commit (path : Path) (codec : JpegCodec) : Reply JpegCodec Unit :=
  match codec.staged.get? path with
  | none => (.error (.error (.nothingStaged path.text)), codec)
  | some entries =>
      let staged := codec.staged.erase path
      match Image.save codec.backups path entries codec.tree with
      | (.ok _, tree) => (.ok (), { codec with tree, staged })
      | (.error failure, tree) => (.error (failure.map .image), { codec with tree, staged })

def thumbnail (path : Path) (codec : JpegCodec) : Reply JpegCodec (Option Bytes) :=
  match Image.thumbnailAt codec.tree path with
  | .error problem => (.error (failed problem), codec)
  | .ok thumbnail => (.ok thumbnail, codec)

instance : Codec JpegCodec := ⟨fetch, stage, commit, thumbnail⟩

end JpegCodec

end PhotoTags

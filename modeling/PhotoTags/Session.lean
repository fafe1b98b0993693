import PhotoTags.Report

/-!
Sessions: one codec and any number of open images, each under a name, that share it. Times are those of
one zone.
-/

namespace PhotoTags

structure Session (σ : Type) where
  codec : σ
  files : List (String × ImageFile)
  zone : Zone

inductive Step
  | fetch (path : Path)
  | stage (path : Path) (text : String)
  | commit (path : Path)
  | thumbnail (path : Path)
  | openFile (name : String) (path : Path)
  | close (name : String)
  | reload (name : String)
  | save (name : String)
  | fileThumbnail (name : String)
  | get (name tag : String)
  | set (name tag value : String)
  | inspect (path : Path)
  | update (path : Path) (edits : List Edit) (dryRun : Bool)
  deriving DecidableEq, Repr

inductive Answer
  | done
  | text (value : Option String)
  | bytes (value : Option Bytes)
  | closed (wasOpen : Bool)
  | notOpen
  | report (report : Report)
  | failed (failure : Failure AccessError)

namespace Session

variable {σ : Type}

def new (zone : Zone) (codec : σ) : Session σ := ⟨codec, [], zone⟩

def file? (session : Session σ) (name : String) : Option ImageFile :=
  (session.files.find? (·.1 == name)).map (·.2)

def drop (session : Session σ) (name : String) : Session σ :=
  { session with files := session.files.filter (·.1 != name) }

def keep (session : Session σ) (name : String) (file : ImageFile) : Session σ :=
  { session with files := (name, file) :: (session.drop name).files }

def holders (session : Session σ) : Nat :=
  1 + session.files.length

def afterCall {α : Type} (session : Session σ) (encode : α → Answer) (reply : Reply σ α) :
    Answer × Session σ :=
  match reply with
  | (.ok value, codec) => (encode value, { session with codec })
  | (.error failure, codec) => (.failed (failure.map .codec), { session with codec })

def afterAccess {α : Type} (session : Session σ) (encode : α → Answer) (access : Access σ α) :
    Answer × Session σ :=
  match access with
  | (.ok value, codec) => (encode value, { session with codec })
  | (.error failure, codec) => (.failed failure, { session with codec })

def afterReading (session : Session σ) (name : String) (access : Access σ ImageFile) :
    Answer × Session σ :=
  match access with
  | (.ok file, codec) => (.done, { session with codec }.keep name file)
  | (.error failure, codec) => (.failed failure, { session with codec })

def afterReport (session : Session σ) (result : Option Report × σ) : Answer × Session σ :=
  match result with
  | (some report, codec) => (.report report, { session with codec })
  | (none, codec) => (.failed .abort, { session with codec })

def withFile (session : Session σ) (name : String)
    (work : ImageFile → Answer × Session σ) : Answer × Session σ :=
  match session.file? name with
  | some file => work file
  | none => (.notOpen, session)

variable [Codec σ]

def step (session : Session σ) : Step → Answer × Session σ
  | .fetch path => session.afterCall (fun text => .text (some text))
      (Codec.fetch path session.codec)
  | .stage path text => session.afterCall (fun _ => .done) (Codec.stage path text session.codec)
  | .commit path => session.afterCall (fun _ => .done) (Codec.commit path session.codec)
  | .thumbnail path => session.afterCall .bytes (Codec.thumbnail path session.codec)
  | .openFile name path => session.afterReading name (ImageFile.openAt path session.codec)
  | .close name => (.closed (session.file? name).isSome, session.drop name)
  | .reload name => session.withFile name fun file =>
      session.afterReading name (file.reload session.codec)
  | .save name => session.withFile name fun file =>
      session.afterAccess (fun _ => .done) (file.save session.codec)
  | .fileThumbnail name => session.withFile name fun file =>
      session.afterAccess .bytes (file.thumbnail session.codec)
  | .get name tag => session.withFile name fun file => (.text (file.get? tag), session)
  | .set name tag value => session.withFile name fun file =>
      (.done, session.keep name (file.set tag value))
  | .inspect path => session.afterReport (PhotoTags.inspect session.zone path session.codec)
  | .update path edits dryRun =>
      session.afterReport (PhotoTags.update session.zone dryRun path edits session.codec)

def run (session : Session σ) : List Step → List Answer × Session σ
  | [] => ([], session)
  | step :: rest =>
      let (answer, session) := session.step step
      let (answers, session) := session.run rest
      (answer :: answers, session)

end Session

end PhotoTags

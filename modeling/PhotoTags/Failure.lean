/-!
How a call can fail: with an error that it reports, or by an abort, after which there is no answer.
-/

namespace PhotoTags

inductive Failure (ε : Type)
  | error (cause : ε)
  | abort
  deriving DecidableEq, Repr

def Failure.map {ε δ : Type} (change : ε → δ) : Failure ε → Failure δ
  | error cause => error (change cause)
  | abort => abort

end PhotoTags

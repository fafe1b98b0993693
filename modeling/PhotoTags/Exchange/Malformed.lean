import PhotoTags.Text.Quoted

/-!
What can be wrong with an attribute text: the byte at which reading stopped and the reason.
-/

namespace PhotoTags.Exchange

inductive Reason
  | countUnended
  | badCount (text : String)
  | nameUnended (index count : Nat)
  | lengthUnended (name : String)
  | badLength (name text : String)
  | overrun (name : String) (length left : Nat)
  | splitCharacter (name : String)
  deriving DecidableEq, Repr

structure Malformed where
  offset : Nat
  reason : Reason
  deriving DecidableEq, Repr

def Reason.message : Reason → String
  | countUnended => "missing space after entry count"
  | badCount text => "bad entry count " ++ Text.quote text
  | nameUnended index count => s!"entry {index} of {count}: missing '='"
  | lengthUnended name => "entry " ++ Text.quote name ++ ": missing space after length"
  | badLength name text => "entry " ++ Text.quote name ++ ": bad value length " ++ Text.quote text
  | overrun name length left =>
      "entry " ++ Text.quote name ++
        s!": value length {length} overruns input ({left} bytes left)"
  | splitCharacter name => "entry " ++ Text.quote name ++ ": value splits a character"

def Malformed.message (fault : Malformed) : String :=
  s!"malformed attribute string at byte {fault.offset}: " ++ fault.reason.message

end PhotoTags.Exchange

import PhotoTags.Text.Utf8

/-!
What is shown of a text on a terminal that knows no styles: neither controls, other than those that
move to another place, nor escape sequences. A moving control inside a sequence interrupts it: the
text is shown from there to the next control that is not, and the sequence goes on behind it.
-/

namespace PhotoTags.Text

inductive Sequence
  | outside
  | start
  | choice
  | control
  | device
  | deviceNumbers
  | deviceChoice
  | data
  | title
  deriving DecidableEq, Repr

def isCodeIn (low high : Nat) (c : Char) : Bool :=
  low ≤ c.toNat && c.toNat ≤ high

/-- The part behind a character that is not shown. Data are ended by a byte 9C, be it one of a
longer character. -/
def Sequence.after (part : Sequence) (c : Char) : Sequence :=
  if c.toNat = 0x1B then start
  else if c.toNat = 0x18 ∨ c.toNat = 0x1A then outside
  else
    match part with
    | outside => outside
    | start =>
        if isCodeIn 0x20 0x2F c then choice
        else if c = '[' then control
        else if c = ']' then title
        else if c = 'P' then device
        else if c = 'X' ∨ c = '^' ∨ c = '_' then data
        else if isCodeIn 0x30 0x7E c then outside
        else start
    | choice => if isCodeIn 0x30 0x7E c then outside else choice
    | control => if isCodeIn 0x40 0x7E c then outside else control
    | device =>
        if isCodeIn 0x20 0x2F c then deviceChoice
        else if isCodeIn 0x30 0x3F c then deviceNumbers
        else if isCodeIn 0x40 0x7E c then data
        else device
    | deviceNumbers =>
        if isCodeIn 0x20 0x2F c then deviceChoice
        else if isCodeIn 0x3C 0x7E c then data
        else deviceNumbers
    | deviceChoice => if isCodeIn 0x30 0x7E c then data else deviceChoice
    | data => if (utf8 [c]).contains 0x9C then outside else data
    | title => if c.toNat = 7 then outside else title

def Sequence.isInterruptible : Sequence → Bool
  | start => true
  | choice => true
  | control => true
  | _ => false

def isMoving (c : Char) : Bool :=
  c == '\t' || c == '\n' || c == '\x0C' || c == '\r'

def isShown (c : Char) : Bool :=
  isMoving c || (0x20 ≤ c.toNat && c.toNat != 0x7F)

structure Progress where
  part : Sequence
  interrupted : Bool
  deriving DecidableEq, Repr

namespace Progress

def shows (progress : Progress) (c : Char) : Bool :=
  if progress.interrupted || progress.part == .outside then isShown c
  else progress.part.isInterruptible && isMoving c

/-- A shown character beyond ASCII ends an interrupted sequence. -/
def next (progress : Progress) (c : Char) : Progress :=
  if progress.shows c then
    if c.toNat < 0x80 then { progress with interrupted := true } else ⟨.outside, false⟩
  else ⟨progress.part.after c, false⟩

def shown (progress : Progress) : List Char → List Char
  | [] => []
  | c :: rest =>
      if progress.shows c then c :: (progress.next c).shown rest else (progress.next c).shown rest

end Progress

def onTerminal (text : String) : String :=
  String.ofList (Progress.shown ⟨.outside, false⟩ text.toList)

end PhotoTags.Text

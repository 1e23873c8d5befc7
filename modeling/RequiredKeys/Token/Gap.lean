import RequiredKeys.Input.Scanner
import RequiredKeys.Lexeme.Word
import RequiredKeys.Token.Nesting

/-!
# Gaps between tokens

Between two tokens stand white space and punctuation.  A gap ends where a token
begins, and the innermost open container decides which tokens may begin and
which punctuation may come first.

A scalar root value does not end by itself: `01` and `truefalse` are no two
values.  Behind one, the gap must begin with white space or with a bracket that
opens a container, unless the input is over.
-/

namespace RequiredKeys

/-- The token that begins at the end of a gap.  Of brackets and strings the first
byte is taken with the gap, of numbers and words it is not. -/
inductive TokenStart
  | enter (container : Container)
  | exit
  | key
  | string
  | number
  | literal (literal : Literal)
  deriving DecidableEq, Repr, Inhabited

/-- Where a scan stands between two tokens. -/
structure Gap where
  nesting : Nesting := []
  /-- Set directly behind a scalar root value. -/
  separatorDue : Bool := false
  deriving DecidableEq, Repr, Inhabited

namespace Gap

open Ascii

/-- Whether a byte may stand directly behind a scalar root value. -/
def separates (b : UInt8) : Bool :=
  isBlank b || b == openBrace || b == openBracket

def unexpected (gap : Gap) (b : UInt8) (wanted : Wanted) :
    Verdict Gap (Option TokenStart) :=
  .leave gap (.error (.malformed (.unexpected b wanted)))

/-- Begins a value.  The container around it is told before anything else, so it
goes on behind this value even if the value turns out to be none. -/
def beginValue (gap : Gap) (b : UInt8) : Verdict Gap (Option TokenStart) :=
  let filled : Gap := ⟨gap.nesting.expect .commaOrEnd, false⟩
  match b with
  | openBrace => .finish filled (.ok (some (.enter .object)))
  | openBracket => .finish filled (.ok (some (.enter .array)))
  | quote => .finish filled (.ok (some .string))
  | _ =>
    if b = minus || isDigit b then .leave filled (.ok (some .number))
    else
      match Literal.ofFirst? b with
      | some literal => .leave filled (.ok (some (.literal literal)))
      | none => filled.unexpected b .value

/-- What a byte other than white space means inside the container `frame`. -/
def onInnerByte (frame : Frame) (outer : Nesting) (b : UInt8) :
    Verdict Gap (Option TokenStart) :=
  let gap : Gap := ⟨frame :: outer, false⟩
  if frame.mayClose && b == frame.closer then .finish gap (.ok (some .exit))
  else if frame.wantsKey && b == quote then .finish gap (.ok (some .key))
  else
    match frame.afterPunctuation? b with
    | some expectation => .take ⟨⟨frame.container, expectation⟩ :: outer, false⟩
    | none =>
      if frame.wantsValue then gap.beginValue b
      else gap.unexpected b (.expected frame.expects)

def onByte (gap : Gap) (b : UInt8) : Verdict Gap (Option TokenStart) :=
  if gap.separatorDue && !separates b then gap.unexpected b .separator
  else if isBlank b then .take ⟨gap.nesting, false⟩
  else
    match gap.nesting with
    | [] => gap.beginValue b
    | frame :: outer => onInnerByte frame outer b

/-- The input may end where no container is open. -/
def onEnd (gap : Gap) : Except Refusal (Option TokenStart) :=
  match gap.nesting with
  | [] => .ok none
  | _ :: _ => .error .truncated

/-- Reads up to the next token; the result is `none` at the end of the input. -/
def scanner : Scanner Gap (Option TokenStart) where
  onByte := onByte
  onEnd := onEnd

end Gap
end RequiredKeys

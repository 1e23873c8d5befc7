import RequiredKeys.Input.Error
import RequiredKeys.Token.Basic

/-!
# Open containers

The containers around a place in a document, the innermost first, each with
what it allows next.  Opening, filling and closing a container are the only
changes.  A container that waits for a value counts it as done when the value
begins, so that the container is ready to go on whenever the value is over,
however the value ends.
-/

namespace RequiredKeys

structure Frame where
  container : Container
  expects : Expectation
  deriving DecidableEq, Repr, Inhabited

abbrev Nesting := List Frame

namespace Frame

/-- A container directly behind its opening bracket. -/
def opened : Container → Frame
  | .object => ⟨.object, .keyOrEnd⟩
  | .array => ⟨.array, .valueOrEnd⟩

/-- The byte that closes the container. -/
def closer (frame : Frame) : UInt8 :=
  match frame.container with
  | .object => Ascii.closeBrace
  | .array => Ascii.closeBracket

/-- Whether the container may be closed here. -/
def mayClose (frame : Frame) : Bool :=
  match frame.container, frame.expects with
  | .object, .keyOrEnd => true
  | .object, .commaOrEnd => true
  | .array, .valueOrEnd => true
  | .array, .commaOrEnd => true
  | _, _ => false

/-- Whether a string here is the key of a member. -/
def wantsKey (frame : Frame) : Bool :=
  match frame.container, frame.expects with
  | .object, .keyOrEnd => true
  | .object, .key => true
  | _, _ => false

/-- Whether a value may begin here. -/
def wantsValue (frame : Frame) : Bool :=
  frame.expects == .value || frame.expects == .valueOrEnd

/-- What a container that goes on behind a byte of punctuation expects then. -/
def afterPunctuation? (frame : Frame) (b : UInt8) : Option Expectation :=
  match frame.container, frame.expects with
  | .object, .colon => if b = Ascii.colon then some .value else none
  | .object, .commaOrEnd => if b = Ascii.comma then some .key else none
  | .array, .commaOrEnd => if b = Ascii.comma then some .value else none
  | _, _ => none

end Frame

namespace Nesting

/-- Sets what the innermost container expects. -/
def expect (expectation : Expectation) : Nesting → Nesting
  | [] => []
  | frame :: outer => ⟨frame.container, expectation⟩ :: outer

/-- Enters a container; the token has the depth around it. -/
def enter (nesting : Nesting) (container : Container) : Token × Nesting :=
  (⟨.startOf container, none, nesting.length⟩, Frame.opened container :: nesting)

/-- Leaves the innermost container; the token has the depth around it. -/
def exit : Nesting → Except Refusal (Token × Nesting)
  | [] => .error (.malformed .strayClose)
  | frame :: outer => .ok (⟨.endOf frame.container, none, outer.length⟩, outer)

@[simp] theorem length_expect (expectation : Expectation) (nesting : Nesting) :
    (expect expectation nesting).length = nesting.length := by
  cases nesting <;> rfl

end Nesting
end RequiredKeys

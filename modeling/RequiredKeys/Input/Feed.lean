/-!
# What a reader delivers

A reader hands out the bytes of a document one after the other, and between two
bytes it may fail.  A `Feed` lists both in the order in which they come: a
failure is delivered once, and asking again goes on behind it.  The end of the
list is the end of the input, which can be met any number of times.
-/

namespace RequiredKeys

/-- One answer of a reader that is asked for the next byte. -/
inductive Delivery
  | byte (value : UInt8)
  | failure (reason : String)
  deriving DecidableEq, Repr, Inhabited

abbrev Feed := List Delivery

/-- A reader's failure, raised when the byte at `offset` is first needed. -/
structure ReadFailure where
  offset : Nat
  reason : String
  deriving DecidableEq, Repr, Inhabited

/-- The reason of a failed read that the system asks to repeat. -/
def interrupted : String := "interrupted"

/-- An interrupted read is repeated at once, so nobody sees it. -/
def ReadFailure.isSilent (failure : ReadFailure) : Bool :=
  failure.reason == interrupted

namespace Feed

/-- A document whose reads never fail. -/
def ofBytes (bytes : List UInt8) : Feed :=
  bytes.map Delivery.byte

/-- The failures raised when the byte at `offset` is needed, in the order given. -/
def failuresAt (failures : List ReadFailure) (offset : Nat) : Feed :=
  (failures.filter (·.offset == offset)).map (fun failure => Delivery.failure failure.reason)

/-- The deliveries of `bytes`, the first of which has the given offset, with
each failure in front of its byte.  Failures at the offset behind the last byte
come before the end of input. -/
def weave (failures : List ReadFailure) : Nat → List UInt8 → Feed
  | offset, [] => failuresAt failures offset
  | offset, b :: bytes =>
    failuresAt failures offset ++ Delivery.byte b :: weave failures (offset + 1) bytes

/-- A document read by a reader with the given failures. -/
def ofDocument (bytes : List UInt8) (failures : List ReadFailure) : Feed :=
  weave (failures.filter (fun failure => !failure.isSilent)) 0 bytes

/-- The bytes that a feed still holds. -/
def bytes (feed : Feed) : List UInt8 :=
  feed.filterMap fun
    | .byte b => some b
    | .failure _ => none

/-- The failures that a feed still holds. -/
def failures (feed : Feed) : List String :=
  feed.filterMap fun
    | .byte _ => none
    | .failure reason => some reason

@[simp] theorem bytes_nil : bytes [] = [] := rfl

@[simp] theorem bytes_byte (b : UInt8) (feed : Feed) :
    bytes (.byte b :: feed) = b :: bytes feed := rfl

@[simp] theorem bytes_failure (reason : String) (feed : Feed) :
    bytes (.failure reason :: feed) = bytes feed := rfl

@[simp] theorem bytes_append (left right : Feed) :
    bytes (left ++ right) = bytes left ++ bytes right := by
  simp [bytes]

@[simp] theorem bytes_ofBytes (document : List UInt8) : bytes (ofBytes document) = document := by
  induction document with
  | nil => rfl
  | cons b document ih => exact congrArg (b :: ·) ih

@[simp] theorem failures_ofBytes (document : List UInt8) : failures (ofBytes document) = [] := by
  induction document with
  | nil => rfl
  | cons b document ih => exact ih

theorem bytes_failuresAt (list : List ReadFailure) (offset : Nat) :
    bytes (failuresAt list offset) = [] := by
  simp [bytes, failuresAt]

theorem bytes_weave (list : List ReadFailure) (offset : Nat) (document : List UInt8) :
    bytes (weave list offset document) = document := by
  induction document generalizing offset with
  | nil => exact bytes_failuresAt list offset
  | cons b document ih => simp [weave, bytes_failuresAt, ih]

/-- Failures change when bytes arrive, never which bytes. -/
@[simp] theorem bytes_ofDocument (document : List UInt8) (list : List ReadFailure) :
    bytes (ofDocument document list) = document :=
  bytes_weave _ _ _

end Feed
end RequiredKeys

import RequiredKeys.Input.Feed
import RequiredKeys.Input.Error

/-!
# Scanning one piece of a document

A scanner reads one piece of text, such as a number or the gap between two
tokens.  It is a transition table: for each state and byte it either takes the
byte and goes on, takes it as the last one of the piece, or leaves it because
the piece ended before it.  `Scanner.run` is the only loop that moves through a
feed, so what it never does, no reader of this library does: it looks at one
delivery at a time, and only a byte that is taken moves the position.

A failed read ends a run.  It uses up the failure and nothing else; the state
reached so far is returned, for the caller to keep or to drop.
-/

namespace RequiredKeys

/-- What a scanner does about the next byte. -/
inductive Verdict (σ α : Type)
  /-- The byte belongs to the piece, which goes on. -/
  | take (next : σ)
  /-- The byte is the last one of the piece. -/
  | finish (last : σ) (result : Except Refusal α)
  /-- The piece ended before this byte. -/
  | leave (last : σ) (result : Except Refusal α)

/-- A reader for one kind of piece. -/
structure Scanner (σ α : Type) where
  onByte : σ → UInt8 → Verdict σ α
  /-- What the end of the input means in a state. -/
  onEnd : σ → Except Refusal α

/-- How far a document has been read: what is still to come, and where it stands. -/
structure Cursor where
  feed : Feed
  position : Position := Position.start
  deriving DecidableEq, Repr, Inhabited

/-- How a scan ended, in which state, and where. -/
structure Scan (σ α : Type) where
  result : Except StreamError α
  state : σ
  cursor : Cursor

namespace Scanner

variable {σ α : Type}

/-- Puts the position to the result of a piece. -/
def located (p : Position) (result : Except Refusal α) : Except StreamError α :=
  result.mapError (·.seenAt p)

/-- Scans one piece from the given state. -/
def runFrom (scanner : Scanner σ α) (state : σ) : Feed → Position → Scan σ α
  | [], p => ⟨located p (scanner.onEnd state), state, ⟨[], p⟩⟩
  | .failure reason :: rest, p => ⟨.error (.unreadable reason), state, ⟨rest, p⟩⟩
  | .byte b :: rest, p =>
    match scanner.onByte state b with
    | .take next => runFrom scanner next rest (p.after b)
    | .finish last result => ⟨located (p.after b) result, last, ⟨rest, p.after b⟩⟩
    | .leave last result => ⟨located p result, last, ⟨.byte b :: rest, p⟩⟩

/-- Scans one piece where the cursor stands. -/
def run (scanner : Scanner σ α) (state : σ) (cursor : Cursor) : Scan σ α :=
  scanner.runFrom state cursor.feed cursor.position

@[simp] theorem located_ok (p : Position) (a : α) :
    located p (.ok a : Except Refusal α) = .ok a := rfl

@[simp] theorem located_error (p : Position) (refusal : Refusal) :
    located p (.error refusal : Except Refusal α) = .error (refusal.seenAt p) := rfl

theorem runFrom_nil (scanner : Scanner σ α) (state : σ) (p : Position) :
    scanner.runFrom state [] p = ⟨located p (scanner.onEnd state), state, ⟨[], p⟩⟩ := rfl

theorem runFrom_failure (scanner : Scanner σ α) (state : σ) (reason : String) (rest : Feed)
    (p : Position) :
    scanner.runFrom state (.failure reason :: rest) p =
      ⟨.error (.unreadable reason), state, ⟨rest, p⟩⟩ := rfl

theorem runFrom_take {scanner : Scanner σ α} {state next : σ} {b : UInt8}
    (h : scanner.onByte state b = .take next) (rest : Feed) (p : Position) :
    scanner.runFrom state (.byte b :: rest) p = scanner.runFrom next rest (p.after b) := by
  simp [runFrom, h]

theorem runFrom_finish {scanner : Scanner σ α} {state last : σ} {b : UInt8}
    {result : Except Refusal α} (h : scanner.onByte state b = .finish last result)
    (rest : Feed) (p : Position) :
    scanner.runFrom state (.byte b :: rest) p =
      ⟨located (p.after b) result, last, ⟨rest, p.after b⟩⟩ := by
  simp [runFrom, h]

theorem runFrom_leave {scanner : Scanner σ α} {state last : σ} {b : UInt8}
    {result : Except Refusal α} (h : scanner.onByte state b = .leave last result)
    (rest : Feed) (p : Position) :
    scanner.runFrom state (.byte b :: rest) p =
      ⟨located p result, last, ⟨.byte b :: rest, p⟩⟩ := by
  simp [runFrom, h]

/-- A scan never gives back what it has read. -/
theorem length_feed_runFrom_le (scanner : Scanner σ α) (state : σ) (feed : Feed) (p : Position) :
    (scanner.runFrom state feed p).cursor.feed.length ≤ feed.length := by
  induction feed generalizing state p with
  | nil => simp [runFrom]
  | cons delivery rest ih =>
    cases delivery with
    | failure reason => simp [runFrom]
    | byte b =>
      cases h : scanner.onByte state b with
      | take next =>
        rw [runFrom_take h]
        exact Nat.le_trans (ih next (p.after b)) (Nat.le_succ _)
      | finish last result => simp [runFrom_finish h]
      | leave last result => simp [runFrom_leave h]

theorem length_feed_run_le (scanner : Scanner σ α) (state : σ) (cursor : Cursor) :
    (scanner.run state cursor).cursor.feed.length ≤ cursor.feed.length :=
  scanner.length_feed_runFrom_le state cursor.feed cursor.position

/-- A scan that succeeds has taken a byte, or it ended in front of one, or at the
end of the input. -/
theorem result_runFrom_ok {scanner : Scanner σ α} {state : σ} {feed : Feed} {p : Position} {a : α}
    (h : (scanner.runFrom state feed p).result = .ok a) :
    (scanner.runFrom state feed p).cursor.feed.length < feed.length ∨
      (∃ state b last, scanner.onByte state b = .leave last (.ok a)) ∨
        ∃ state, scanner.onEnd state = .ok a := by
  induction feed generalizing state p with
  | nil =>
    rw [runFrom_nil] at h
    cases hend : scanner.onEnd state with
    | error refusal => simp [hend] at h
    | ok value =>
      simp only [hend, located_ok, Except.ok.injEq] at h
      exact Or.inr (Or.inr ⟨state, h ▸ hend⟩)
  | cons delivery rest ih =>
    cases delivery with
    | failure reason => simp [runFrom] at h
    | byte b =>
      cases hbyte : scanner.onByte state b with
      | take next =>
        rw [runFrom_take hbyte] at h ⊢
        exact (ih h).imp_left (fun hlt => Nat.lt_succ_of_lt hlt)
      | finish last result => exact Or.inl (by simp [runFrom_finish hbyte])
      | leave last result =>
        rw [runFrom_leave hbyte] at h
        cases result with
        | error refusal => simp at h
        | ok value =>
          simp only [located_ok, Except.ok.injEq] at h
          exact Or.inr (Or.inl ⟨state, b, last, h ▸ hbyte⟩)

/-- A scanner that cannot succeed without a byte takes one when it succeeds. -/
theorem length_feed_runFrom_lt {scanner : Scanner σ α} {state : σ} {feed : Feed} {p : Position}
    {a : α} (hbyte : ∀ b last result, scanner.onByte state b = .leave last result →
      result ≠ .ok a) (hend : scanner.onEnd state ≠ .ok a)
    (h : (scanner.runFrom state feed p).result = .ok a) :
    (scanner.runFrom state feed p).cursor.feed.length < feed.length := by
  cases feed with
  | nil =>
    rw [runFrom_nil] at h
    cases hvalue : scanner.onEnd state with
    | error refusal => simp [hvalue] at h
    | ok value =>
      simp only [hvalue, located_ok, Except.ok.injEq] at h
      exact absurd (h ▸ hvalue) hend
  | cons delivery rest =>
    cases delivery with
    | failure reason => simp [runFrom]
    | byte b =>
      cases hverdict : scanner.onByte state b with
      | take next =>
        rw [runFrom_take hverdict]
        exact Nat.lt_succ_of_le (scanner.length_feed_runFrom_le next rest (p.after b))
      | finish last result => simp [runFrom_finish hverdict]
      | leave last result =>
        rw [runFrom_leave hverdict] at h
        cases result with
        | error refusal => simp at h
        | ok value =>
          simp only [located_ok, Except.ok.injEq] at h
          exact absurd (congrArg Except.ok h) (hbyte b last _ hverdict)

end Scanner
end RequiredKeys

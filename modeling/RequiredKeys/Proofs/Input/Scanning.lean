import RequiredKeys.Input.Scanner

/-!
# What a scan has taken

`Scanner.runFrom` moves through a feed one delivery at a time.  This module says
what it did, once and for every scanner:

* `afterAll?` is the transition table read as an automaton: the state behind a
  run of bytes, provided that every one of them is taken.
* `Completes` says that a piece ends by itself: at the end of the input, with its
  last byte, or in front of a byte that it leaves.
* `completes_or_interrupted` splits every feed into the bytes that a scan takes and
  what it meets behind them, which is the end of the piece or a failed read.
* `runFrom_eq_ok_iff` is the outcome of a successful scan, read off that split.

A statement about one kind of piece is then a statement about its table, and no
proof about a piece looks at `runFrom` again.
-/

namespace RequiredKeys

namespace Feed

@[simp] theorem ofBytes_nil : ofBytes [] = [] := rfl

@[simp] theorem ofBytes_cons (b : UInt8) (bytes : List UInt8) :
    ofBytes (b :: bytes) = .byte b :: ofBytes bytes := rfl

@[simp] theorem ofBytes_append (left right : List UInt8) :
    ofBytes (left ++ right) = ofBytes left ++ ofBytes right := by
  simp [ofBytes]

theorem ofBytes_injective {left right : List UInt8} (h : ofBytes left = ofBytes right) :
    left = right := by
  have hbytes := congrArg bytes h
  simpa using hbytes

/-- What lies behind the bytes of a document whose reads never fail are bytes again. -/
theorem eq_ofBytes_of_append {document taken : List UInt8} {rest : Feed}
    (h : ofBytes document = ofBytes taken ++ rest) :
    rest = ofBytes rest.bytes ∧ document = taken ++ rest.bytes := by
  induction taken generalizing document with
  | nil =>
      have hrest : rest = ofBytes document := by simpa using h.symm
      subst hrest
      simp
  | cons b taken ih =>
      cases document with
      | nil => simp at h
      | cons c document =>
          simp only [ofBytes_cons, List.cons_append, List.cons.injEq, Delivery.byte.injEq] at h
          obtain ⟨rfl, htail⟩ := h
          obtain ⟨hrest, hdocument⟩ := ih htail
          exact ⟨hrest, by rw [hdocument]; rfl⟩

end Feed

/-- The state that a verdict leads to. -/
def Verdict.state {σ α : Type} : Verdict σ α → σ
  | take next => next
  | finish last _ => last
  | leave last _ => last

namespace Scanner

variable {σ α : Type} {scanner : Scanner σ α}

/-- What every verdict keeps of a state, a scan keeps of it, however the scan ends. -/
theorem state_runFrom (keeps : σ → Prop)
    (hstep : ∀ state b, keeps state → keeps (scanner.onByte state b).state) {state : σ}
    (h : keeps state) (feed : Feed) (p : Position) :
    keeps (scanner.runFrom state feed p).state := by
  induction feed generalizing state p with
  | nil => exact h
  | cons delivery feed ih =>
      cases delivery with
      | failure reason => exact h
      | byte b =>
          have hnext := hstep state b h
          cases hbyte : scanner.onByte state b with
          | take next =>
              rw [hbyte] at hnext
              rw [runFrom_take hbyte]
              exact ih hnext (p.after b)
          | finish last result =>
              rw [hbyte] at hnext
              rw [runFrom_finish hbyte]
              exact hnext
          | leave last result =>
              rw [hbyte] at hnext
              rw [runFrom_leave hbyte]
              exact hnext

/-- The state behind a run of bytes, if the scanner takes every one of them. -/
def afterAll? (scanner : Scanner σ α) (state : σ) : List UInt8 → Option σ
  | [] => some state
  | b :: bytes =>
    match scanner.onByte state b with
    | .take next => scanner.afterAll? next bytes
    | .finish _ _ => none
    | .leave _ _ => none

@[simp] theorem afterAll?_nil (state : σ) : scanner.afterAll? state [] = some state := rfl

theorem afterAll?_cons_eq_some {state last : σ} {b : UInt8} {bytes : List UInt8} :
    scanner.afterAll? state (b :: bytes) = some last ↔
      ∃ next, scanner.onByte state b = .take next ∧ scanner.afterAll? next bytes = some last := by
  cases h : scanner.onByte state b with
  | take next => simp [afterAll?, h]
  | finish other result => simp [afterAll?, h]
  | leave other result => simp [afterAll?, h]

/-- Bytes are taken if those in front are, and those behind from there on. -/
theorem afterAll?_append_eq_some {state last : σ} {left right : List UInt8} :
    scanner.afterAll? state (left ++ right) = some last ↔
      ∃ mid, scanner.afterAll? state left = some mid ∧
        scanner.afterAll? mid right = some last := by
  induction left generalizing state with
  | nil => simp
  | cons b left ih =>
      rw [List.cons_append, afterAll?_cons_eq_some]
      simp only [afterAll?_cons_eq_some, ih]
      constructor
      · rintro ⟨next, hbyte, mid, hleft, hright⟩
        exact ⟨mid, ⟨next, hbyte, hleft⟩, hright⟩
      · rintro ⟨mid, ⟨next, hbyte, hleft⟩, hright⟩
        exact ⟨next, hbyte, mid, hleft, hright⟩

/-- `Completes scanner state taken rest last result`: from `state` the piece takes
`taken`, and in front of `rest` it is over, in state `last` and with `result`. -/
inductive Completes (scanner : Scanner σ α) (state : σ) :
    List UInt8 → Feed → σ → Except Refusal α → Prop
  | atEnd {taken : List UInt8} {last : σ} (htaken : scanner.afterAll? state taken = some last) :
      Completes scanner state taken [] last (scanner.onEnd last)
  | finish {taken : List UInt8} {b : UInt8} {rest : Feed} {mid last : σ}
      {result : Except Refusal α} (htaken : scanner.afterAll? state taken = some mid)
      (hbyte : scanner.onByte mid b = .finish last result) :
      Completes scanner state (taken ++ [b]) rest last result
  | leave {taken : List UInt8} {b : UInt8} {rest : Feed} {mid last : σ}
      {result : Except Refusal α} (htaken : scanner.afterAll? state taken = some mid)
      (hbyte : scanner.onByte mid b = .leave last result) :
      Completes scanner state taken (.byte b :: rest) last result

/-- The three ways in which a piece ends, by what they say about its indices. -/
theorem completes_iff {state last : σ} {taken : List UInt8} {rest : Feed}
    {result : Except Refusal α} :
    scanner.Completes state taken rest last result ↔
      (scanner.afterAll? state taken = some last ∧ rest = [] ∧ scanner.onEnd last = result) ∨
        (∃ before b mid, taken = before ++ [b] ∧ scanner.afterAll? state before = some mid ∧
          scanner.onByte mid b = .finish last result) ∨
        ∃ mid b more, scanner.afterAll? state taken = some mid ∧ rest = .byte b :: more ∧
          scanner.onByte mid b = .leave last result := by
  constructor
  · intro h
    cases h with
    | atEnd htaken => exact .inl ⟨htaken, rfl, rfl⟩
    | finish htaken hbyte => exact .inr (.inl ⟨_, _, _, rfl, htaken, hbyte⟩)
    | leave htaken hbyte => exact .inr (.inr ⟨_, _, _, htaken, rfl, hbyte⟩)
  · rintro (⟨htaken, rfl, rfl⟩ | ⟨before, b, mid, rfl, htaken, hbyte⟩ |
      ⟨mid, b, more, htaken, rfl, hbyte⟩)
    · exact .atEnd htaken
    · exact .finish htaken hbyte
    · exact .leave htaken hbyte

/-- Taking one more byte in front keeps a piece complete. -/
theorem Completes.cons {state next last : σ} {b : UInt8} {taken : List UInt8} {rest : Feed}
    {result : Except Refusal α} (hbyte : scanner.onByte state b = .take next)
    (h : scanner.Completes next taken rest last result) :
    scanner.Completes state (b :: taken) rest last result := by
  cases h with
  | atEnd htaken => exact .atEnd (afterAll?_cons_eq_some.mpr ⟨next, hbyte, htaken⟩)
  | finish htaken hlast => exact .finish (afterAll?_cons_eq_some.mpr ⟨next, hbyte, htaken⟩) hlast
  | leave htaken hlast => exact .leave (afterAll?_cons_eq_some.mpr ⟨next, hbyte, htaken⟩) hlast

/-- Bytes that are taken in the middle of a feed only move the scan. -/
theorem runFrom_append {state last : σ} {taken : List UInt8}
    (h : scanner.afterAll? state taken = some last) (rest : Feed) (p : Position) :
    scanner.runFrom state (Feed.ofBytes taken ++ rest) p =
      scanner.runFrom last rest (p.afterAll taken) := by
  induction taken generalizing state p with
  | nil =>
      obtain rfl : state = last := by simpa using h
      rfl
  | cons b taken ih =>
      obtain ⟨next, hbyte, htail⟩ := afterAll?_cons_eq_some.mp h
      rw [Feed.ofBytes_cons, List.cons_append, runFrom_take hbyte, ih htail,
        Position.afterAll_cons]

/-- A failed read ends a scan behind the bytes taken so far. -/
theorem runFrom_of_interrupted {state last : σ} {taken : List UInt8}
    (h : scanner.afterAll? state taken = some last) (reason : String) (rest : Feed)
    (p : Position) :
    scanner.runFrom state (Feed.ofBytes taken ++ .failure reason :: rest) p =
      ⟨.error (.unreadable reason), last, ⟨rest, p.afterAll taken⟩⟩ := by
  rw [runFrom_append h, runFrom_failure]

/-- A complete piece gives its result, located behind what it has taken. -/
theorem runFrom_of_completes {state last : σ} {taken : List UInt8} {rest : Feed}
    {result : Except Refusal α} (h : scanner.Completes state taken rest last result)
    (p : Position) :
    scanner.runFrom state (Feed.ofBytes taken ++ rest) p =
      ⟨located (p.afterAll taken) result, last, ⟨rest, p.afterAll taken⟩⟩ := by
  cases h with
  | atEnd htaken => rw [runFrom_append htaken, runFrom_nil]
  | finish htaken hbyte =>
      rw [Feed.ofBytes_append, List.append_assoc, runFrom_append htaken, Feed.ofBytes_cons,
        List.cons_append, runFrom_finish hbyte, Position.afterAll_append]
      rfl
  | leave htaken hbyte => rw [runFrom_append htaken, runFrom_leave hbyte]

/-- A part of a piece is taken byte by byte, if it is not all of the piece. -/
theorem Completes.exists_afterAll? {state last : σ} {part more : List UInt8} {rest : Feed}
    {result : Except Refusal α} (h : scanner.Completes state (part ++ more) rest last result)
    (hmore : more ≠ []) : ∃ mid, scanner.afterAll? state part = some mid := by
  have hpart {behind : List UInt8} {final : σ}
      (htaken : scanner.afterAll? state (part ++ behind) = some final) :
      ∃ mid, scanner.afterAll? state part = some mid := by
    obtain ⟨mid, hmid, -⟩ := afterAll?_append_eq_some.mp htaken
    exact ⟨mid, hmid⟩
  rcases completes_iff.mp h with ⟨htaken, -, -⟩ | ⟨before, b, mid, hbytes, htaken, -⟩ |
    ⟨mid, b, more, htaken, -, -⟩
  · exact hpart htaken
  · -- The last byte of the piece finishes it, and that byte is not in the part.
    rw [← List.dropLast_concat_getLast hmore, ← List.append_assoc] at hbytes
    obtain ⟨rfl, -⟩ := List.append_singleton_inj.mp hbytes
    exact hpart htaken
  · exact hpart htaken

/-- Where the input ends inside a piece, the scan fails there with what the end means to it. -/
theorem Completes.result_run_part {state last : σ} {part more : List UInt8} {rest : Feed}
    {result : Except Refusal α} (h : scanner.Completes state (part ++ more) rest last result)
    (hmore : more ≠ []) (refusal : Refusal)
    (hend : ∀ mid, scanner.afterAll? state part = some mid →
      scanner.onEnd mid = .error refusal) (p : Position) :
    (scanner.run state ⟨Feed.ofBytes part, p⟩).result =
      .error (refusal.seenAt (p.afterAll part)) := by
  obtain ⟨mid, hmid⟩ := h.exists_afterAll? hmore
  have hrun := runFrom_append hmid [] p
  rw [List.append_nil, runFrom_nil, hend mid hmid, located_error] at hrun
  exact congrArg Scan.result hrun

/-- Where a read fails inside a piece, the scan fails with it. -/
theorem Completes.result_run_failure {state last : σ} {part more : List UInt8} {rest : Feed}
    {result : Except Refusal α} (h : scanner.Completes state (part ++ more) rest last result)
    (hmore : more ≠ []) (reason : String) (feed : Feed) (p : Position) :
    (scanner.run state ⟨Feed.ofBytes part ++ .failure reason :: feed, p⟩).result =
      .error (.unreadable reason) := by
  obtain ⟨mid, hmid⟩ := h.exists_afterAll? hmore
  exact congrArg Scan.result (runFrom_of_interrupted hmid reason feed p)

/-- Every scan takes some bytes, and then the piece is over or a read fails. -/
theorem completes_or_interrupted (scanner : Scanner σ α) (state : σ) (feed : Feed) :
    (∃ taken rest last result, feed = Feed.ofBytes taken ++ rest ∧
        scanner.Completes state taken rest last result) ∨
      ∃ taken reason rest last, feed = Feed.ofBytes taken ++ .failure reason :: rest ∧
        scanner.afterAll? state taken = some last := by
  induction feed generalizing state with
  | nil => exact .inl ⟨[], [], state, scanner.onEnd state, rfl, .atEnd rfl⟩
  | cons delivery feed ih =>
      cases delivery with
      | failure reason => exact .inr ⟨[], reason, feed, state, rfl, rfl⟩
      | byte b =>
          -- Only a byte that is taken leaves the question to the bytes behind it.
          cases hbyte : scanner.onByte state b with
          | finish last result =>
              have hcompletes : scanner.Completes state ([] ++ [b]) feed last result :=
                .finish rfl hbyte
              exact .inl ⟨[b], feed, last, result, rfl, hcompletes⟩
          | leave last result => exact .inl ⟨[], _, last, result, rfl, .leave rfl hbyte⟩
          | take next =>
              obtain ⟨taken, rest, last, result, hfeed, hcompletes⟩ |
                ⟨taken, reason, rest, last, hfeed, htaken⟩ := ih next
              · exact .inl ⟨b :: taken, rest, last, result, by rw [hfeed]; rfl,
                  hcompletes.cons hbyte⟩
              · exact .inr ⟨b :: taken, reason, rest, last, by rw [hfeed]; rfl,
                  afterAll?_cons_eq_some.mpr ⟨next, hbyte, htaken⟩⟩

/-- Where no read fails, every scan comes to the end of its piece. -/
theorem exists_completes_ofBytes (scanner : Scanner σ α) (state : σ) (document : List UInt8)
    (p : Position) :
    ∃ taken rest last result, document = taken ++ rest ∧
      scanner.Completes state taken (Feed.ofBytes rest) last result ∧
      scanner.run state ⟨Feed.ofBytes document, p⟩ =
        ⟨located (p.afterAll taken) result, last, ⟨Feed.ofBytes rest, p.afterAll taken⟩⟩ := by
  obtain ⟨taken, feed, last, result, hfeed, hcompletes⟩ |
    ⟨taken, reason, feed, last, hfeed, -⟩ :=
    scanner.completes_or_interrupted state (Feed.ofBytes document)
  · obtain ⟨hrest, hdocument⟩ := Feed.eq_ofBytes_of_append hfeed
    rw [hrest] at hcompletes hfeed
    refine ⟨taken, feed.bytes, last, result, hdocument, hcompletes, ?_⟩
    rw [run, hfeed]
    exact runFrom_of_completes hcompletes p
  · -- The bytes of a document are no failures.
    obtain ⟨hrest, -⟩ := Feed.eq_ofBytes_of_append hfeed
    have hfailures := congrArg Feed.failures hrest
    rw [Feed.failures_ofBytes] at hfailures
    simp [Feed.failures] at hfailures

/-- A scan succeeds exactly where its piece completes with a value; it leaves what
lies behind the piece. -/
theorem runFrom_eq_ok_iff {state last : σ} {feed rest : Feed} {p q : Position} {a : α} :
    scanner.runFrom state feed p = ⟨.ok a, last, ⟨rest, q⟩⟩ ↔
      ∃ taken, feed = Feed.ofBytes taken ++ rest ∧ q = p.afterAll taken ∧
        scanner.Completes state taken rest last (.ok a) := by
  constructor
  · intro hrun
    obtain ⟨taken, behind, final, result, rfl, hcompletes⟩ |
      ⟨taken, reason, behind, final, rfl, htaken⟩ := scanner.completes_or_interrupted state feed
    · -- The run is the piece that completes, so its result is the one asked for.
      rw [runFrom_of_completes hcompletes] at hrun
      cases result with
      | error refusal => simp at hrun
      | ok value =>
          simp only [located_ok, Scan.mk.injEq, Except.ok.injEq, Cursor.mk.injEq] at hrun
          obtain ⟨rfl, rfl, rfl, rfl⟩ := hrun
          exact ⟨taken, rfl, rfl, hcompletes⟩
    · rw [runFrom_of_interrupted htaken] at hrun
      simp at hrun
  · rintro ⟨taken, rfl, rfl, hcompletes⟩
    rw [runFrom_of_completes hcompletes, located_ok]

end Scanner
end RequiredKeys

import RequiredKeys.Token.Consumption

/-!
# Transcripts of a tokenizer

A transcript records what successive pulls of one tokenizer answer.  It ends
with the end of the input, or with the first failure that is not retried.
-/

namespace RequiredKeys
namespace Tokenizer

/-- The answer of one pull. -/
abbrev Answer := Except StreamError (Option Token)

/-- The tokenizer after a number of pulls, whatever they answered. -/
def afterPulls (tokenizer : Tokenizer) : Nat → Tokenizer
  | 0 => tokenizer
  | n + 1 => tokenizer.pull.2.afterPulls n

/-- The answers of a number of pulls, in order. -/
def answers (tokenizer : Tokenizer) : Nat → List Answer
  | 0 => []
  | n + 1 => tokenizer.pull.1 :: tokenizer.pull.2.answers n

/-- Pulls until the input is over, going on after each of the first `retries`
failures.  Gives the answers and the tokenizer that is left. -/
def transcript (tokenizer : Tokenizer) (retries : Nat) : List Answer × Tokenizer :=
  match hpull : tokenizer.pull with
  | (.ok none, next) => ([.ok none], next)
  | (.ok (some token), next) =>
    have := length_feed_lt_of_pull hpull
    let (answers, last) := next.transcript retries
    (.ok (some token) :: answers, last)
  | (.error error, next) =>
    have := length_feed_le_of_pull hpull
    match retries with
    | 0 => ([.error error], next)
    | more + 1 =>
      let (answers, last) := next.transcript more
      (.error error :: answers, last)
termination_by tokenizer.cursor.feed.length + retries

end Tokenizer
end RequiredKeys

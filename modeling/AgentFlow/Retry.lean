import AgentFlow.Config.Basic

/-!
# Waiting between attempts

The wait doubles with every attempt up to a maximum. The actual wait lies within a fifth of that
on either side, so that clients that failed together do not return together.
-/

namespace AgentFlow.RetryConfig

/-- The greatest number of 64 bits, at which products stop. -/
def ceiling : Nat := twoPow 64 - 1

/-- The wait before another attempt, in milliseconds, for attempts counted from zero. -/
def backoff (retry : RetryConfig) (attempt : Nat) : Nat :=
  let doubled := if attempt < 64 then twoPow attempt else ceiling
  min (min (retry.initialBackoffMs * doubled) ceiling) retry.maxBackoffMs

/-- The actual wait that lies at a share `part / parts` of the way from the least to the greatest
one, that is from four fifths to six fifths of the wait. -/
def jittered (retry : RetryConfig) (attempt part parts : Nat) : Nat :=
  min (retry.backoff attempt * (4 * parts + 2 * part) / (5 * parts)) ceiling

/-- Whether actual waits lie between two bounds: one from the middle of each of `count` equal
parts of their range. -/
def staysWithin (retry : RetryConfig) (attempt low high count : Nat) : Bool :=
  (List.range count).all fun k =>
    let wait := retry.jittered attempt (2 * k + 1) (2 * count)
    low ≤ wait && wait ≤ high

/-- No wait is longer than the greatest one. -/
theorem backoff_le_max (retry : RetryConfig) (attempt : Nat) :
    retry.backoff attempt ≤ retry.maxBackoffMs := Nat.min_le_right _ _

/-- No actual wait is longer than six fifths of the wait. -/
theorem jittered_le (retry : RetryConfig) (attempt : Nat) {part parts : Nat}
    (inside : part ≤ parts) (some_parts : 0 < parts) :
    5 * retry.jittered attempt part parts ≤ 6 * retry.backoff attempt := by
  let wait := retry.backoff attempt
  have capped : retry.jittered attempt part parts ≤ wait * (4 * parts + 2 * part) / (5 * parts) :=
    Nat.min_le_left _ _
  have cut : wait * (4 * parts + 2 * part) / (5 * parts) * (5 * parts) ≤
      wait * (4 * parts + 2 * part) := Nat.div_mul_le_self _ _
  have share : wait * (4 * parts + 2 * part) ≤ wait * (6 * parts) :=
    Nat.mul_le_mul_left wait (by omega)
  refine Nat.le_of_mul_le_mul_right ?_ some_parts
  calc 5 * retry.jittered attempt part parts * parts
      = retry.jittered attempt part parts * (5 * parts) := by
        rw [Nat.mul_comm 5, Nat.mul_assoc]
    _ ≤ wait * (6 * parts) :=
        Nat.le_trans (Nat.mul_le_mul_right _ capped) (Nat.le_trans cut share)
    _ = 6 * wait * parts := by rw [← Nat.mul_assoc, Nat.mul_comm wait 6]

end AgentFlow.RetryConfig

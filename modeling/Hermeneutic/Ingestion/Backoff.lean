import Mathlib.Algebra.BigOperators.Ring.List
import Mathlib.Tactic.Ring
import Hermeneutic.ForMathlib.Machine

/-!
# How often a session connects

`VenueSession::run()` (`ingestion/venue_session.hpp`) waits before it connects again, twice as
long after every connection that did not last, and from the beginning after one that was up for
`kMinHealthyUptime`. `backoffMachine` runs the loop as far as time goes: its events are the
connections, its outputs the times from one attempt to the next. All times are in milliseconds;
what the clocks of the process add to a wait is left out.

A connection that stays up just long enough resets the counter, so a venue can do better than
being refused again and again. `reconnects_amortized` is what it cannot do better than, three
attempts in 17 seconds, in any part of a run and up to a constant; `reconnects_sharp` that it can
do that.
-/

namespace Hermeneutic

def kMinHealthyUptime : ℕ := 10000

/-- One turn of the loop up to the backoff. -/
structure Connection where
  /-- From the attempt to its end. -/
  lasted : ℕ
  /-- How long it was connected and subscribed, if it was. -/
  connectedFor : Option ℕ
  connectedFor_le : ∀ uptime, connectedFor = some uptime → uptime ≤ lasted
  /-- What is drawn for the backoff that follows. -/
  jitter : ℕ

/-- `base_ms` of `backoff(attempt)`. -/
def baseMs (attempt : ℕ) : ℕ := min 30000 (500 * 2 ^ min attempt 6)

/-- The counter that a connection leaves to the backoff. -/
def nextAttempt (attempt : ℕ) (c : Connection) : ℕ :=
  (match c.connectedFor with
    | some uptime => if kMinHealthyUptime ≤ uptime then 0 else attempt
    | none => attempt) + 1

/-- The loop of `run()`: its state is the counter, its output the time to the next attempt. -/
def backoffMachine : Machine ℕ Connection ℤ where
  step attempt c :=
    (nextAttempt attempt c, [(c.lasted + baseMs (nextAttempt attempt c) + c.jitter : ℕ)])

/-! ### The waits -/

private theorem le_baseMs_succ (attempt : ℕ) : 1000 ≤ baseMs (attempt + 1) := by
  have hpow : 2 ^ 1 ≤ 2 ^ min (attempt + 1) 6 := Nat.pow_le_pow_right (by decide) (by omega)
  rw [baseMs]
  omega

/-- From the fourth attempt on a wait is eight seconds at least. -/
private theorem le_baseMs_of_le {attempt : ℕ} (h : 4 ≤ attempt) : 8000 ≤ baseMs attempt := by
  have hpow : 2 ^ 4 ≤ 2 ^ min attempt 6 := Nat.pow_le_pow_right (by decide) (by omega)
  rw [baseMs]
  omega

/-- A connection counts one up, or it was up for long and starts over. -/
private theorem nextAttempt_cases (attempt : ℕ) (c : Connection) :
    nextAttempt attempt c = attempt + 1 ∨
      nextAttempt attempt c = 1 ∧ kMinHealthyUptime ≤ c.lasted := by
  rw [nextAttempt]
  cases huptime : c.connectedFor with
  | none => exact .inl rfl
  | some uptime =>
    by_cases hhealthy : kMinHealthyUptime ≤ uptime
    · exact .inr ⟨by simp [hhealthy], hhealthy.trans (c.connectedFor_le uptime huptime)⟩
    · exact .inl (by simp [hhealthy])

/-! ### Three attempts in seventeen seconds -/

/-- What a run may still save on three times its length, by the counter it starts with. -/
def credit : ℕ → ℤ
  | 0 => -30000
  | 1 => -16000
  | 2 => -5000
  | _ => 0

private theorem credit_mem (attempt : ℕ) : -30000 ≤ credit attempt ∧ credit attempt ≤ 0 := by
  match attempt with
  | 0 | 1 | 2 => decide
  | _ + 3 => exact ⟨show (-30000 : ℤ) ≤ 0 by decide, le_rfl⟩

/-- One connection saves no more than the credit it uses up. -/
private theorem credit_step (attempt : ℕ) (c : Connection) :
    17000 + credit attempt ≤
      3 * ((c.lasted + baseMs (nextAttempt attempt c) + c.jitter : ℕ) : ℤ) +
        credit (nextAttempt attempt c) := by
  rcases nextAttempt_cases attempt c with hnext | ⟨hnext, hhealthy⟩
  · rw [hnext]
    match attempt with
    | 0 | 1 | 2 =>
      simp only [credit, baseMs]
      push_cast
      norm_num
      omega
    | attempt + 3 =>
      have hwait := le_baseMs_of_le (show 4 ≤ attempt + 3 + 1 by omega)
      simp only [credit]
      omega
  · have hcredit := (credit_mem attempt).2
    have hbase : baseMs 1 = 1000 := by decide
    have huptime : 10000 ≤ c.lasted := hhealthy
    have hone : credit 1 = -16000 := rfl
    rw [hnext, hbase, hone]
    omega

/-- **How often a session connects.** Any number of attempts in a row, wherever in a run, take
17 seconds for every three of them, less half a minute; and no two of them are less than a
second apart. -/
theorem reconnects_amortized (attempt : ℕ) (connections : List Connection) :
    17000 * connections.length ≤
        3 * (backoffMachine.output attempt connections).sum + 30000 ∧
      ∀ gap ∈ backoffMachine.output attempt connections, 1000 ≤ gap := by
  constructor
  · have hrun := @Machine.amortize _ _ _ backoffMachine (3 * ·) credit 17000
      (fun attempt c => by simpa [backoffMachine] using credit_step attempt c) attempt connections
    have hstart := (credit_mem attempt).1
    have hend := (credit_mem (backoffMachine.state attempt connections)).2
    rw [List.sum_map_mul_left, List.map_id'] at hrun
    omega
  · induction connections generalizing attempt with
    | nil => simp
    | cons c connections ih =>
      rw [Machine.output_cons]
      intro gap hgap
      rcases List.mem_append.mp hgap with hfirst | hrest
      · rw [backoffMachine, List.mem_singleton] at hfirst
        have hwait : 1000 ≤ baseMs (nextAttempt attempt c) := le_baseMs_succ _
        rw [hfirst]
        omega
      · exact ih _ gap hrest

/-! ### No better bound -/

/-- A connection that is refused. -/
def refused : Connection := ⟨0, none, by simp, 0⟩

/-- One that is dropped as soon as it counts as healthy. -/
def barelyHealthy : Connection := ⟨10000, some 10000, by simp, 0⟩

/-- Three refusals, and then again and again a connection that is barely healthy and two
refusals. -/
def fastest (rounds : ℕ) : List Connection :=
  [refused, refused, refused] ++
    (List.replicate rounds [barelyHealthy, refused, refused]).flatten

/-- The rate is attained, however long the run. -/
theorem reconnects_sharp (rounds : ℕ) :
    17000 * (fastest rounds).length =
      3 * (backoffMachine.output 0 (fastest rounds)).sum + 30000 := by
  have hround : ∀ rest, (backoffMachine.output 3 ([barelyHealthy, refused, refused] ++ rest)).sum =
      17000 + (backoffMachine.output 3 rest).sum := by
    intro rest
    rw [Machine.output_append, List.sum_append]
    rfl
  have hrounds : ∀ n : ℕ, (backoffMachine.output 3
      (List.replicate n [barelyHealthy, refused, refused]).flatten).sum = 17000 * n := by
    intro n
    induction n with
    | zero => rfl
    | succ n ih =>
      rw [List.replicate_succ, List.flatten_cons, hround, ih]
      push_cast
      ring
  have hlength : (fastest rounds).length = 3 + rounds * 3 := by
    simp [fastest]
    omega
  have hsum : (backoffMachine.output 0 (fastest rounds)).sum = 7000 + 17000 * rounds := by
    rw [fastest, Machine.output_append, List.sum_append, ← hrounds rounds]
    rfl
  rw [hlength, hsum]
  push_cast
  ring

end Hermeneutic

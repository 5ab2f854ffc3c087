import LabelGrammar.Tokenizer.Client
import Mathlib.Algebra.Group.Nat.Defs

/-! # Retries

A request goes to a tokenizer again while its replies are transient and calls are left. The first
other reply decides; if there is none, the reason of the last reply is reported.
-/

namespace LabelGrammar

/-- What a tokenizer says to one call. -/
abbrev Reply := Except TransportError (List WireResult)

def Reply.Transient (reply : Reply) : Prop := ∃ reason, reply = .error (.transient reason)

namespace Transport

section Step

variable {σ : Type} {t : Transport σ} {policy : RetryPolicy} {request : EvaluationRequest}
  {left made : Nat} {lastError reason : String} {results : List WireResult} {s s' : σ}

theorem retry_ok (h : t request s = (.ok results, s')) :
    t.retry request (left + 1) made lastError s = (align request results, s') := by
  simp only [retry, h]

theorem retry_rejected (h : t request s = (.error (.rejected reason), s')) :
    t.retry request (left + 1) made lastError s = (.error (.rejected reason), s') := by
  simp only [retry, h]

theorem retry_transient (h : t request s = (.error (.transient reason), s')) :
    t.retry request (left + 1) made lastError s = t.retry request left (made + 1) reason s' := by
  simp only [retry, h]

end Step

theorem attempts_pos (policy : RetryPolicy) : 0 < policy.attempts := by
  have hmax : 0 < Limits.maxNatural32 := by decide
  rw [RetryPolicy.attempts]
  omega

theorem send_ok {σ : Type} {t : Transport σ} {request : EvaluationRequest}
    {results : List WireResult} {s s' : σ} (policy : RetryPolicy)
    (h : t request s = (.ok results, s')) :
    t.send policy request s = (align request results, s') := by
  obtain ⟨n, hn⟩ : ∃ n, policy.attempts = n + 1 :=
    Nat.exists_eq_add_one.2 (attempts_pos policy)
  rw [send, hn]
  exact retry_ok h

/-- A tokenizer that gives the replies of a sequence, whatever it is asked. It keeps the requests
that reached it. -/
def replaying (replies : Nat → Reply) : Transport (List EvaluationRequest) :=
  fun request log => (replies log.length, log ++ [request])

/-- What the result of a request owes to the replies, if a number of calls is allowed. A result
is an outcome with the requests of all calls. -/
structure Settles (request : EvaluationRequest) (allowed : Nat) (replies : Nat → Reply)
    (result : Outcome × List EvaluationRequest) : Prop where
  counter {k : Nat} : k ≤ allowed → (∀ i < k, (replies i).Transient) → ∃ lastError, result =
    (replaying replies).retry request (allowed - k) k lastError (List.replicate k request)
  rejected {k : Nat} {reason : String} : k < allowed → (∀ i < k, (replies i).Transient) →
    replies k = .error (.rejected reason) →
    result = (.error (.rejected reason), List.replicate (k + 1) request)
  answered {k : Nat} {results : List WireResult} : k < allowed →
    (∀ i < k, (replies i).Transient) → replies k = .ok results →
    results.length = request.labels.length →
    result = (.ok (results.map WireResult.toTokenization), List.replicate (k + 1) request)
  misaligned {k : Nat} {results : List WireResult} : k < allowed →
    (∀ i < k, (replies i).Transient) → replies k = .ok results →
    results.length ≠ request.labels.length →
    result = (.error (.misaligned request.labels.length results.length),
      List.replicate (k + 1) request)
  exhausted : (∀ i < allowed, (replies i).Transient) → ∃ reason,
    replies (allowed - 1) = .error (.transient reason) ∧
    result = (.error (.failed allowed reason), List.replicate allowed request)

section Replaying

variable {replies : Nat → Reply} {request : EvaluationRequest} {allowed k : Nat}

theorem replaying_replicate {reply : Reply} (h : replies k = reply) :
    replaying replies request (List.replicate k request) =
      (reply, List.replicate (k + 1) request) := by
  rw [replaying, List.length_replicate, h, List.replicate_succ']

/-- The loop after calls that all failed: it knows their number and the reason of the last. -/
theorem retry_after (request : EvaluationRequest) (hk : k ≤ allowed)
    (h : ∀ i < k, (replies i).Transient) :
    ∃ lastError, (0 < k → replies (k - 1) = .error (.transient lastError)) ∧
      (replaying replies).retry request allowed 0 "" [] =
        (replaying replies).retry request (allowed - k) k lastError
          (List.replicate k request) := by
  induction k with
  | zero => exact ⟨"", fun h => (Nat.lt_irrefl 0 h).elim, rfl⟩
  | succ k ih =>
    obtain ⟨_, -, hr⟩ := ih (by omega) fun i hi => h i (by omega)
    obtain ⟨reason, hreason⟩ := h k (Nat.lt_succ_self k)
    refine ⟨reason, fun _ => hreason, ?_⟩
    rw [hr, show allowed - k = allowed - (k + 1) + 1 by omega]
    exact retry_transient (replaying_replicate hreason)

theorem settles_retry (hp : 0 < allowed) (replies : Nat → Reply) (request : EvaluationRequest) :
    Settles request allowed replies ((replaying replies).retry request allowed 0 "" []) := by
  -- The call that decides comes after `k` calls that failed, with at least one call left.
  have next {k : Nat} (hk : k < allowed) (h : ∀ i < k, (replies i).Transient) :
      ∃ lastError, (replaying replies).retry request allowed 0 "" [] =
        (replaying replies).retry request (allowed - (k + 1) + 1) k lastError
          (List.replicate k request) := by
    obtain ⟨lastError, -, hr⟩ := retry_after request (Nat.le_of_lt hk) h
    refine ⟨lastError, ?_⟩
    rwa [show allowed - (k + 1) + 1 = allowed - k by omega]
  constructor
  case counter =>
    intro k hk h
    obtain ⟨lastError, -, hr⟩ := retry_after request hk h
    exact ⟨lastError, hr⟩
  case rejected =>
    intro k reason hk h hreply
    obtain ⟨_, hr⟩ := next hk h
    rw [hr]
    exact retry_rejected (replaying_replicate hreply)
  case answered =>
    intro k results hk h hreply hlength
    obtain ⟨_, hr⟩ := next hk h
    rw [hr, retry_ok (replaying_replicate hreply), align, if_pos hlength]
  case misaligned =>
    intro k results hk h hreply hlength
    obtain ⟨_, hr⟩ := next hk h
    rw [hr, retry_ok (replaying_replicate hreply), align, if_neg hlength]
  case exhausted =>
    intro h
    obtain ⟨reason, hreason, hr⟩ := retry_after request (Nat.le_refl allowed) h
    refine ⟨reason, hreason hp, ?_⟩
    rw [hr, Nat.sub_self, retry]

end Replaying

/-- The outcome and the calls of a request are those that the replies call for, with one call more
than the policy has retries, unless 32 bits are too few for their number. A grammar whose root is
not a sequence reaches no tokenizer. -/
theorem settles_send (policy : RetryPolicy) (replies : Nat → Reply) :
    (∀ request, Settles request (min (policy.maxRetries + 1) (2 ^ 32 - 1)) replies
      ((replaying replies).send policy request [])) ∧
    ∀ grammar labels, if grammar.kind = .sequence then
        Settles (.make grammar labels) (min (policy.maxRetries + 1) (2 ^ 32 - 1)) replies
          ((replaying replies).evaluate policy grammar labels [])
      else (replaying replies).evaluate policy grammar labels [] =
        (.error (.grammar (.invalidRoot (some grammar.kind))), []) := by
  have hsend : ∀ request, Settles request (min (policy.maxRetries + 1) (2 ^ 32 - 1)) replies
      ((replaying replies).send policy request []) :=
    settles_retry (attempts_pos policy) replies
  refine ⟨hsend, fun grammar labels => ?_⟩
  split
  · next hk => rw [evaluate, if_pos hk]; exact hsend _
  · next hk => rw [evaluate, if_neg hk]

example : (replaying fun n => if n < 3 then .error (.transient s!"timeout {n}") else .ok []).send
    ⟨2, 0⟩ ⟨[], .leaf "a" none (.rest "room")⟩ [] =
      (.error (.failed 3 "timeout 2"), List.replicate 3 ⟨[], .leaf "a" none (.rest "room")⟩) := rfl

end Transport

end LabelGrammar

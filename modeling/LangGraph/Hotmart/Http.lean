import LangGraph.Collections.Attempts
import LangGraph.Hotmart.CircuitBreaker
import LangGraph.Hotmart.Models

namespace LangGraph

open Collections Store

namespace Hotmart

namespace Http

section Errors

structure IntegrationError (F : Type) where
  service : String
  message : String
  status : Option Int
  retryable : Bool
  retryAfter : Option F

def authError {F : Type} (service message : String) : IntegrationError F :=
  ⟨service, message, some 401, false, none⟩

def rateLimitError {F : Type} (service message : String) (retryAfter : F) : IntegrationError F :=
  ⟨service, message, some 429, true, some retryAfter⟩

inductive Raised (F : Type) where
  | integration (e : IntegrationError F)
  | circuitOpen (message : String)
  | assertion
  | escaped (error : String)

-- What `urlopen` and the reading of the answer come to.
inductive Wire (F : Type) where
  | answered (parsed : Json F)
  | status (code : Int) (body : String) (retryAfter : Option String)
  | unreachable (reason : String)
  | notJson
  | broken (error : String)

-- One attempt, with what the server made of it: what it answers it has applied, what it refuses
-- it has not, and nobody knows about the rest.
structure Exchange (F : Type) where
  wire : Wire F
  applied : Bool
  jitter : F
  answered_applied : ∀ parsed, wire = .answered parsed → applied = true
  refused_not_applied : ∀ code body retryAfter, wire = .status code body retryAfter →
    code < 500 → applied = false

end Errors

section Request

variable {F T : Type} [Amounts F]

def rawRequest (service : String) : Wire F → Except (Raised F) (List (String × Json F))
  | .answered (.dict items) => .ok items
  | .answered parsed => .ok [("data", parsed)]
  | .status code body retryAfter =>
      let body := String.ofList (body.toList.take 800)
      if code = 401 ∨ code = 403 then
        .error (.integration (authError service (toString code ++ ": " ++ body)))
      else if code = 429 then
        let header := retryAfter.getD "2"
        match if header = "" then some (Amounts.count 2) else Floats.ofStr header with
        | some seconds =>
            .error (.integration (rateLimitError service ("429: " ++ body) seconds))
        | none => .error (.escaped "ValueError")
      else .error (.integration ⟨service, "HTTP " ++ toString code ++ ": " ++ body, some code,
        decide (500 ≤ code), none⟩)
  | .unreachable reason =>
      .error (.integration ⟨service, "falha de rede: " ++ reason, none, true, none⟩)
  | .notJson => .error (.integration ⟨service, "resposta não-JSON", none, false, none⟩)
  | .broken error => .error (.escaped error)

def delay (e : IntegrationError F) (attempt : Nat) (jitter : F) : F :=
  e.retryAfter.getD (Amounts.min 8.0 (0.5 * Amounts.count (2 ^ attempt))) + jitter

-- `time.sleep` takes neither a negative time nor NaN, nor more than the clock can count.
def sleepable (delay : F) : Bool :=
  Floats.le 0.0 delay && Floats.lt delay 9223372036.0

-- Why the retry loop ends with an attempt that is not the last one.
def stopped (exchange : Nat → Exchange F) (attempt : Nat) : Raised F → Option (Raised F)
  | .integration e =>
      if e.retryable then
        if sleepable (delay e attempt (exchange attempt).jitter) then none
        else some (.escaped "sleep")
      else some (.integration e)
  | e => some e

def call (service : String) (exchange : Nat → Exchange F) (attempt : Nat) :
    Except (Raised F) (List (String × Json F)) :=
  rawRequest service (exchange attempt).wire

def retry (maxRetries : Int) (service : String) (exchange : Nat → Exchange F) :
    Nat × Except (Raised F) (List (String × Json F)) :=
  Attempts.attempts (call service exchange) (stopped exchange) .assertion maxRetries.toNat 0

structure Sent (F T : Type) where
  breaker : CircuitBreaker T
  made : Nat
  result : Except (Raised F) (List (String × Json F))

variable [AddCommGroup T] [LinearOrder T]

def request (maxRetries : Int) (breaker : CircuitBreaker T) (start finish : T)
    (exchange : Nat → Exchange F) : Sent F T :=
  match breaker.guard start with
  | (breaker, .error message) => ⟨breaker, 0, .error (.circuitOpen message)⟩
  | (breaker, .ok _) =>
      match retry maxRetries breaker.name exchange with
      | (made, .ok answer) => ⟨breaker.recordSuccess, made, .ok answer⟩
      | (made, .error (.integration e)) =>
          ⟨breaker.recordFailure finish, made, .error (.integration e)⟩
      | (made, .error e) => ⟨breaker, made, .error e⟩

end Request

section Spec

variable {F T : Type} [Amounts F] {service : String} {exchange : Nat → Exchange F}

def Made (maxRetries : Int) (service : String) (exchange : Nat → Exchange F) (k : Nat) : Prop :=
  Attempts.Made (call service exchange) (stopped exchange) maxRetries.toNat k

theorem applied_of_answered {k : Nat} {answer : List (String × Json F)}
    (h : call service exchange k = .ok answer) : (exchange k).applied = true := by
  rw [call] at h
  cases hwire : (exchange k).wire with
  | answered parsed => exact (exchange k).answered_applied parsed hwire
  | status code body retryAfter =>
    rw [hwire, rawRequest] at h
    simp only at h
    split_ifs at h
    split at h <;> cases h
  | unreachable reason =>
    rw [hwire] at h
    cases h
  | notJson =>
    rw [hwire] at h
    cases h
  | broken error =>
    rw [hwire] at h
    cases h

variable [AddCommGroup T] [LinearOrder T] {breaker : CircuitBreaker T} {start finish : T}

theorem guard_name (breaker : CircuitBreaker T) (now : T) :
    (breaker.guard now).1.name = breaker.name := by
  have hopen : (breaker.isOpen now).1.name = breaker.name := by
    rw [CircuitBreaker.isOpen]
    cases breaker.openedAt with
    | none => rfl
    | some openedAt =>
      simp only
      split_ifs <;> rfl
  rw [CircuitBreaker.guard]
  rcases hcases : breaker.isOpen now with ⟨b, _ | _⟩
  · rw [hcases] at hopen
    exact hopen
  · rw [hcases] at hopen
    exact hopen

theorem request_refused (maxRetries : Int) (finish : T) (exchange : Nat → Exchange F)
    (h : (breaker.guard start).2 ≠ .ok ()) :
    ∃ message, (request maxRetries breaker start finish exchange).result =
        .error (.circuitOpen message) ∧
      (request maxRetries breaker start finish exchange).made = 0 := by
  rw [request]
  rcases hguard : breaker.guard start with ⟨b, _ | message⟩
  · exact ⟨_, rfl, rfl⟩
  · rw [hguard] at h
    exact absurd rfl h

-- What a request that is let in comes to.
structure Spec (maxRetries : Int) (service : String) (exchange : Nat → Exchange F)
    (sent : Sent F T) : Prop where
  made_iff : ∀ k, k < sent.made ↔ Made maxRetries service exchange k
  answered_iff : ∀ answer, sent.result = .ok answer ↔
    ∃ k, Made maxRetries service exchange k ∧ call service exchange k = .ok answer

omit [AddCommGroup T] [LinearOrder T] in
theorem Spec.last {maxRetries : Int} {sent : Sent F T}
    (h : Spec maxRetries service exchange sent) {answer : List (String × Json F)}
    (hanswered : sent.result = .ok answer) :
    sent.made - 1 < sent.made ∧ call service exchange (sent.made - 1) = .ok answer ∧
      ∀ k < sent.made, ∀ other, call service exchange k = .ok other → k = sent.made - 1 := by
  obtain ⟨k, hmade, hcall⟩ := (h.answered_iff answer).mp hanswered
  have hlt := (h.made_iff k).mpr hmade
  have honly : ∀ k < sent.made, ∀ other, call service exchange k = .ok other →
      k = sent.made - 1 := by
    intro k hk other hother
    have hle := ((h.made_iff (sent.made - 1)).mp (by omega)).le_of_answered hother
    omega
  exact ⟨by omega, honly k hlt answer hcall ▸ hcall, honly⟩

theorem request_admitted (maxRetries : Int) (finish : T) (exchange : Nat → Exchange F)
    (h : (breaker.guard start).2 = .ok ()) :
    Spec maxRetries breaker.name exchange (request maxRetries breaker start finish exchange) := by
  have hname := guard_name breaker start
  have hended : Attempts.Ended (call breaker.name exchange) (stopped exchange) maxRetries.toNat 0
      (retry maxRetries breaker.name exchange) := Attempts.ended_attempts _ _
  have hsame : (request maxRetries breaker start finish exchange).made =
        (retry maxRetries breaker.name exchange).1 ∧
      (request maxRetries breaker start finish exchange).result =
        (retry maxRetries breaker.name exchange).2 := by
    rw [request]
    rcases hguard : breaker.guard start with ⟨b, message | _⟩
    · rw [hguard] at h
      cases h
    · rw [hguard] at hname
      have hservice : b.name = breaker.name := hname
      simp only [hservice]
      rcases retry maxRetries breaker.name exchange with ⟨made, e | answer⟩
      · cases e <;> exact ⟨rfl, rfl⟩
      · exact ⟨rfl, rfl⟩
  refine ⟨fun k => ?_, fun answer => ?_⟩
  · rw [hsame.1]
    exact hended.made_iff k
  · rw [hsame.2]
    exact hended.answered_iff answer

-- After a request that succeeded the breaker is closed.
theorem request_closed (maxRetries : Int) {answer : List (String × Json F)}
    (h : (request maxRetries breaker start finish exchange).result = .ok answer) (now : T) :
    let after := (request maxRetries breaker start finish exchange).breaker
    after.name = breaker.name ∧ (after.guard now).2 = .ok () := by
  have hname := guard_name breaker start
  rw [request] at h ⊢
  rcases hguard : breaker.guard start with ⟨b, message | _⟩
  · rw [hguard] at h
    cases h
  · rw [hguard] at h hname
    simp only at h ⊢
    rcases hretry : retry maxRetries b.name exchange with ⟨made, e | answer'⟩
    · rw [hretry] at h
      cases e <;> cases h
    · exact ⟨hname, rfl⟩

end Spec

end Http

end Hotmart

end LangGraph

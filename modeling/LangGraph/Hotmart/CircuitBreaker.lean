import LangGraph.Transition.Run
import Mathlib.Algebra.Order.Group.Defs
import Mathlib.Algebra.Order.Group.Int
import Mathlib.Tactic.Abel
import Mathlib.Tactic.SplitIfs

namespace LangGraph

open Transition

namespace Hotmart

structure CircuitBreaker (T : Type) where
  name : String
  failureThreshold : Int
  resetAfter : T
  failures : Int
  openedAt : Option T

namespace CircuitBreaker

variable {T : Type} [AddCommGroup T] [LinearOrder T]

def new (name : String) (failureThreshold : Int) (resetAfter : T) : CircuitBreaker T :=
  ⟨name, failureThreshold, resetAfter, 0, none⟩

-- The property changes the breaker when the quarantine is over.
def isOpen (now : T) (b : CircuitBreaker T) : CircuitBreaker T × Bool :=
  match b.openedAt with
  | none => (b, false)
  | some openedAt =>
      if b.resetAfter ≤ now - openedAt then
        ({ b with openedAt := none, failures := b.failureThreshold - 1 }, false)
      else (b, true)

def recordSuccess (b : CircuitBreaker T) : CircuitBreaker T :=
  { b with failures := 0, openedAt := none }

def recordFailure (now : T) (b : CircuitBreaker T) : CircuitBreaker T :=
  let b := { b with failures := b.failures + 1 }
  if b.failureThreshold ≤ b.failures then { b with openedAt := some now } else b

abbrev CircuitOpen := String

def guard (now : T) (b : CircuitBreaker T) : CircuitBreaker T × Except CircuitOpen Unit :=
  match b.isOpen now with
  | (b, true) =>
      (b, .error ("integração '" ++ b.name ++ "' indisponível; tente novamente em instantes"))
  | (b, false) => (b, .ok ())

end CircuitBreaker

structure RecordedOutcome (T : Type) where
  failed : Bool
  recordedAt : T

-- The requests that share a client. They are numbered as they are admitted, the outcomes stand
-- newest first, and a trial that is out has the number of requests admitted after it.
structure SharedClient (T : Type) where
  breaker : CircuitBreaker T
  now : T
  admitted : Nat
  pending : List Nat
  outcomes : List (RecordedOutcome T)
  trials : List (Nat × Nat)

-- A request whose exception escapes has no outcome.
inductive ClientEvent (T : Type) [Zero T] [LE T] where
  | wait (d : { d : T // 0 ≤ d })
  | arrive
  | succeed (request : Nat)
  | fail (request : Nat)

namespace SharedClient

variable {T : Type} [AddCommGroup T] [LinearOrder T]

def new (name : String) (failureThreshold : Int) (resetAfter now : T) : SharedClient T :=
  ⟨.new name failureThreshold resetAfter, now, 0, [], [], []⟩

def record (request : Nat) (failed : Bool) (s : SharedClient T) : SharedClient T :=
  if request ∈ s.pending then
    { s with
      breaker := if failed then s.breaker.recordFailure s.now else s.breaker.recordSuccess
      pending := s.pending.erase request
      outcomes := ⟨failed, s.now⟩ :: s.outcomes
      trials := s.trials.filter (fun t => t.1 ≠ request) }
  else s

def letIn (b : CircuitBreaker T) (s : SharedClient T) : SharedClient T :=
  let older := s.trials.map (fun t => (t.1, t.2 + 1))
  { s with
    breaker := b
    admitted := s.admitted + 1
    pending := s.admitted :: s.pending
    trials := if s.breaker.openedAt.isSome then (s.admitted, 0) :: older else older }

def step (s : SharedClient T) : ClientEvent T → SharedClient T
  | .wait d => { s with now := s.now + d.1 }
  | .arrive =>
      match s.breaker.guard s.now with
      | (b, .ok _) => s.letIn b
      | (b, .error _) => { s with breaker := b }
  | .succeed request => s.record request false
  | .fail request => s.record request true

def streak (outcomes : List (RecordedOutcome T)) : Nat :=
  (outcomes.takeWhile RecordedOutcome.failed).length

-- The last outcomes, as many as the threshold says, are failures and the newest of them is recent.
def Failing (s : SharedClient T) : Prop :=
  ∃ t older, s.outcomes = ⟨true, t⟩ :: older ∧ s.now - t < s.breaker.resetAfter ∧
    s.breaker.failureThreshold ≤ streak s.outcomes

def Refuses (s : SharedClient T) : Prop := ∃ e, (s.breaker.guard s.now).2 = .error e

structure Lawful (s : SharedClient T) : Prop where
  quarantine : s.Failing → s.Refuses
  trial : ∀ t ∈ s.trials, t.2 = 0

-- Nobody comes while a trial is out, unless the integration is in quarantine again.
def Ok (s : SharedClient T) : ClientEvent T → Prop
  | .arrive => s.trials ≠ [] → s.Failing
  | _ => True

-- The counter is the number of failures in a row, or was set back when a quarantine ended.
structure Inv (s : SharedClient T) : Prop where
  opened : ∀ t, s.breaker.openedAt = some t →
    (∃ older, s.outcomes = ⟨true, t⟩ :: older) ∧
      s.breaker.failureThreshold ≤ streak s.outcomes
  closed : s.breaker.openedAt = none → ∀ t older, s.outcomes = ⟨true, t⟩ :: older →
    s.breaker.failureThreshold ≤ streak s.outcomes → s.breaker.resetAfter ≤ s.now - t
  counted : s.breaker.failures = streak s.outcomes ∨
    s.breaker.failureThreshold ≤ streak s.outcomes ∧
      s.breaker.failureThreshold - 1 ≤ s.breaker.failures ∧
      s.breaker.failures ≤ streak s.outcomes

variable {s : SharedClient T}

omit [AddCommGroup T] [LinearOrder T] in
theorem streak_failed (t : T) (outcomes : List (RecordedOutcome T)) :
    streak (⟨true, t⟩ :: outcomes) = streak outcomes + 1 := by
  simp [streak]

omit [AddCommGroup T] [LinearOrder T] in
theorem streak_succeeded (t : T) (outcomes : List (RecordedOutcome T)) :
    streak (⟨false, t⟩ :: outcomes) = 0 := by
  simp [streak]

theorem inv_new (name : String) (failureThreshold : Int) (resetAfter now : T) :
    (new name failureThreshold resetAfter now).Inv where
  opened := fun t h => by cases h
  closed := fun _ t older h => by cases h
  counted := .inl rfl

-- What `guard` does, by the outcomes recorded so far.
theorem guard_spec (h : s.Inv) :
    (s.Failing ∧ s.breaker.guard s.now = (s.breaker, .error
        ("integração '" ++ s.breaker.name ++ "' indisponível; tente novamente em instantes"))) ∨
      (¬ s.Failing ∧ ((s.breaker.openedAt = none ∧ s.breaker.guard s.now = (s.breaker, .ok ())) ∨
        ∃ t, s.breaker.openedAt = some t ∧ s.breaker.resetAfter ≤ s.now - t ∧
          s.breaker.guard s.now = ({ s.breaker with
            openedAt := none, failures := s.breaker.failureThreshold - 1 }, .ok ()))) := by
  rw [CircuitBreaker.guard, CircuitBreaker.isOpen]
  cases hopen : s.breaker.openedAt with
  | none =>
    refine .inr ⟨?_, .inl ⟨rfl, rfl⟩⟩
    rintro ⟨t, older, hout, hrecent, hstreak⟩
    exact absurd hrecent (not_lt.mpr (h.closed hopen t older hout hstreak))
  | some t =>
    obtain ⟨⟨older, hout⟩, hstreak⟩ := h.opened t hopen
    by_cases hover : s.breaker.resetAfter ≤ s.now - t
    · refine .inr ⟨?_, .inr ⟨t, rfl, hover, by simp only [if_pos hover]⟩⟩
      rintro ⟨t', older', hout', hrecent, -⟩
      rw [hout] at hout'
      obtain ⟨heq, -⟩ := List.cons.inj hout'
      cases heq
      exact absurd hrecent (not_lt.mpr hover)
    · exact .inl ⟨⟨t, older, hout, not_le.mp hover, hstreak⟩, by simp only [if_neg hover]⟩

theorem refuses_iff (h : s.Inv) : s.Refuses ↔ s.Failing := by
  rcases guard_spec h with ⟨hfailing, hguard⟩ | ⟨hno, ⟨-, hguard⟩ | ⟨t, -, -, hguard⟩⟩
  · exact iff_of_true ⟨_, by rw [hguard]⟩ hfailing
  · refine iff_of_false ?_ hno
    rintro ⟨e, he⟩
    rw [hguard] at he
    cases he
  · refine iff_of_false ?_ hno
    rintro ⟨e, he⟩
    rw [hguard] at he
    cases he

theorem inv_record (h : s.Inv) (request : Nat) (failed : Bool) : (s.record request failed).Inv := by
  rw [record]
  by_cases hpending : request ∈ s.pending
  · rw [if_pos hpending]
    cases failed with
    | false =>
      refine ⟨fun t ht => (by cases ht), fun _ t older hout => (by cases hout), .inl ?_⟩
      simp [CircuitBreaker.recordSuccess, streak_succeeded]
    | true =>
      have hopens : s.breaker.failureThreshold ≤ s.breaker.failures + 1 ↔
          s.breaker.failureThreshold ≤ (streak s.outcomes : Int) + 1 := by
        rcases h.counted with heq | ⟨hle, hlow, hhigh⟩ <;> omega
      have hcounted : s.breaker.failures + 1 = (streak s.outcomes : Int) + 1 ∨
          s.breaker.failureThreshold ≤ (streak s.outcomes : Int) + 1 ∧
            s.breaker.failureThreshold - 1 ≤ s.breaker.failures + 1 ∧
            s.breaker.failures + 1 ≤ (streak s.outcomes : Int) + 1 := by
        rcases h.counted with heq | ⟨hle, hlow, hhigh⟩ <;> omega
      have hstreak (t : T) : (streak (⟨true, t⟩ :: s.outcomes) : Int) = streak s.outcomes + 1 := by
        rw [streak_failed]
        rfl
      simp only [if_true, CircuitBreaker.recordFailure]
      by_cases hreached : s.breaker.failureThreshold ≤ s.breaker.failures + 1
      · simp only [if_pos hreached]
        refine ⟨fun t ht => ?_, fun hnone => (by cases hnone), ?_⟩
        · obtain rfl := Option.some.inj ht
          exact ⟨⟨s.outcomes, rfl⟩, by rw [hstreak]; exact hopens.mp hreached⟩
        · simp only [hstreak]
          exact hcounted
      · simp only [if_neg hreached]
        refine ⟨fun t ht => ?_, fun _ t older hout hle => ?_, ?_⟩
        · have hold := (h.opened t ht).2
          rw [hopens] at hreached
          omega
        · rw [hstreak, ← hopens] at hle
          exact absurd hle hreached
        · simp only [hstreak]
          exact hcounted
  · rw [if_neg hpending]
    exact h

variable [IsOrderedAddMonoid T]

theorem Inv.step (h : s.Inv) (e : ClientEvent T) : (s.step e).Inv := by
  cases e with
  | wait d =>
    refine ⟨h.opened, fun hnone t older hout hle => ?_, h.counted⟩
    have hlater : s.now - t ≤ s.now + d.1 - t :=
      sub_le_sub_right (le_add_of_nonneg_right d.2) t
    exact (h.closed hnone t older hout hle).trans hlater
  | arrive =>
    rw [SharedClient.step]
    rcases guard_spec h with ⟨-, hguard⟩ | ⟨-, ⟨-, hguard⟩ | ⟨t, hopen, hover, hguard⟩⟩
    · rw [hguard]
      exact h
    · rw [hguard]
      exact ⟨h.opened, h.closed, h.counted⟩
    · obtain ⟨⟨older, hout⟩, hstreak⟩ := h.opened t hopen
      rw [hguard]
      refine ⟨fun t' ht' => (by cases ht'), fun _ t' older' hout' _ => ?_,
        .inr ⟨hstreak, le_refl _, ?_⟩⟩
      · have heads := hout.symm.trans hout'
        obtain ⟨heq, -⟩ := List.cons.inj heads
        cases heq
        exact hover
      · have hle : s.breaker.failureThreshold - 1 ≤ (streak s.outcomes : Int) := by omega
        exact hle
  | succeed request => exact inv_record h request false
  | fail request => exact inv_record h request true

theorem lawful_step_iff (h : s.Inv) (hl : s.Lawful) (e : ClientEvent T) :
    (s.step e).Lawful ↔ s.Ok e := by
  have hquarantine := (refuses_iff (h.step e)).mpr
  have hkept (request : Nat) (failed : Bool) :
      ∀ t ∈ (s.record request failed).trials, t.2 = 0 := by
    intro t ht
    rw [record] at ht
    by_cases hpending : request ∈ s.pending
    · rw [if_pos hpending] at ht
      exact hl.trial t (List.mem_filter.mp ht).1
    · rw [if_neg hpending] at ht
      exact hl.trial t ht
  cases e with
  | wait d => exact iff_of_true ⟨hquarantine, hl.trial⟩ trivial
  | succeed request => exact iff_of_true ⟨hquarantine, hkept request false⟩ trivial
  | fail request => exact iff_of_true ⟨hquarantine, hkept request true⟩ trivial
  | arrive =>
    have hadmitted (b : CircuitBreaker T) (hguard : s.breaker.guard s.now = (b, .ok ())) :
        (∀ t ∈ (s.step .arrive).trials, t.2 = 0) ↔ s.trials = [] := by
      rw [SharedClient.step, hguard]
      simp only [letIn]
      constructor
      · intro hall
        refine List.eq_nil_iff_forall_not_mem.mpr (fun t ht => ?_)
        have hmem : (t.1, t.2 + 1) ∈ s.trials.map (fun t => (t.1, t.2 + 1)) :=
          List.mem_map_of_mem ht
        have hzero : t.2 + 1 = 0 := by
          split_ifs at hall
          · exact hall (t.1, t.2 + 1) (List.mem_cons_of_mem _ hmem)
          · exact hall (t.1, t.2 + 1) hmem
        omega
      · intro hnil t ht
        rw [hnil] at ht
        split_ifs at ht
        · rw [List.mem_singleton.mp ht]
        · cases ht
    have hiff (b : CircuitBreaker T) (hguard : s.breaker.guard s.now = (b, .ok ()))
        (hno : ¬ s.Failing) : (s.step .arrive).Lawful ↔ s.Ok .arrive := by
      constructor
      · intro hlaw hsome
        exact absurd ((hadmitted b hguard).mp hlaw.trial) hsome
      · intro hok
        refine ⟨hquarantine, (hadmitted b hguard).mpr ?_⟩
        by_contra hsome
        exact hno (hok hsome)
    rcases guard_spec h with ⟨hfailing, hguard⟩ | ⟨hno, ⟨-, hguard⟩ | ⟨t, -, -, hguard⟩⟩
    · have hstep : s.step .arrive = s := by
        rw [SharedClient.step, hguard]
      rw [hstep]
      exact iff_of_true hl (fun _ => hfailing)
    · exact hiff _ hguard hno
    · exact hiff _ hguard hno

theorem circuit_breaker_law_iff (name : String) (failureThreshold : Int) (resetAfter now : T)
    (events : List (ClientEvent T)) :
    Always step Lawful (new name failureThreshold resetAfter now) events ↔
      EachStep step Ok (new name failureThreshold resetAfter now) events := by
  refine always_iff_eachStep (fun s e hi hl => lawful_step_iff hi hl e)
    (fun s e hi _ _ => hi.step e) events (inv_new name failureThreshold resetAfter now) ?_
  exact ⟨(refuses_iff (inv_new name failureThreshold resetAfter now)).mpr,
    fun t ht => absurd ht List.not_mem_nil⟩

theorem four_failures_refused : Always step Lawful (new "meta-ads" 4 (60 : Int) 0)
    ((List.range 4).flatMap (fun i => [.arrive, .fail i]) ++ [.wait ⟨30, by decide⟩, .arrive]) := by
  refine (circuit_breaker_law_iff "meta-ads" 4 (60 : Int) 0 _).mpr ?_
  simp only [List.range, List.range.loop, List.flatMap_cons, List.flatMap_nil, List.cons_append,
    List.nil_append, eachStep_cons]
  refine ⟨fun h => absurd rfl h, trivial, fun h => absurd rfl h, trivial, fun h => absurd rfl h,
    trivial, fun h => absurd rfl h, trivial, trivial, fun h => absurd rfl h, eachStep_nil⟩

end SharedClient

open SharedClient in
theorem two_admitted_after_quarantine :
    let failed : List (ClientEvent Int) := (List.range 4).flatMap (fun i => [.arrive, .fail i])
    let s := run step (new "meta-ads" 4 60 0) (failed ++ [.wait ⟨60, by decide⟩, .arrive, .arrive])
    s.trials = [(4, 1)] ∧ ¬ s.Lawful := by
  have htrials : (run step (new "meta-ads" 4 (60 : Int) 0)
      ((List.range 4).flatMap (fun i => [.arrive, .fail i]) ++
        [.wait ⟨60, by decide⟩, .arrive, .arrive])).trials = [(4, 1)] := by
    decide
  refine ⟨htrials, fun hl => ?_⟩
  have hzero := hl.trial (4, 1) (htrials ▸ List.mem_singleton.mpr rfl)
  cases hzero

end Hotmart

end LangGraph

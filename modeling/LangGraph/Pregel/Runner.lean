import LangGraph.Pregel.Loop

namespace LangGraph

open Collections

inductive Raised where
  | error (exc : Value)
  | cancelled (exc : Value)
  | interrupt (interrupts : List Value)
  | bubbleUp

structure Attempt where
  writes : List Write
  raised : Option Raised

structure RetryPolicy where
  maxAttempts : Nat
  retryOn : Value → Bool

def nextAttempt (policies : List RetryPolicy) (n : Nat) (a retried : Attempt) : Attempt :=
  match a.raised with
  | some (.error exc) =>
      match policies.find? (fun p => p.retryOn exc) with
      | none => a
      | some p => if p.maxAttempts ≤ n + 1 then a else retried
  | _ => a

-- `node n` is what the n-th attempt does: `task.writes` is cleared before each.
def retryFrom (policies : List RetryPolicy) (node : Nat → Attempt) : Nat → Nat → Attempt
  | 0, n => node n
  | fuel + 1, n => nextAttempt policies n (node n) (retryFrom policies node fuel (n + 1))

def attemptsBound (policies : List RetryPolicy) : Nat :=
  (policies.map RetryPolicy.maxAttempts).foldr max 0

def runWithRetry (policies : List RetryPolicy) (node : Nat → Attempt) : Attempt :=
  retryFrom policies node (attemptsBound policies) 0

theorem maxAttempts_le_bound {policies : List RetryPolicy} {p : RetryPolicy} (h : p ∈ policies) :
    p.maxAttempts ≤ attemptsBound policies := by
  induction policies with
  | nil => cases h
  | cons q policies ih =>
    have hcons : attemptsBound (q :: policies) = max q.maxAttempts (attemptsBound policies) := rfl
    rw [hcons]
    rcases List.mem_cons.mp h with rfl | h
    · exact Nat.le_max_left _ _
    · exact (ih h).trans (Nat.le_max_right _ _)

def Retried (policies : List RetryPolicy) (n : Nat) (a : Attempt) : Prop :=
  ∃ exc p, a.raised = some (.error exc) ∧ policies.find? (fun p => p.retryOn exc) = some p ∧
    n + 1 < p.maxAttempts

theorem Retried.lt_bound {policies : List RetryPolicy} {n : Nat} {a : Attempt}
    (h : Retried policies n a) : n + 1 < attemptsBound policies := by
  obtain ⟨exc, p, -, hp, hlt⟩ := h
  exact lt_of_lt_of_le hlt (maxAttempts_le_bound (List.mem_of_find?_eq_some hp))

theorem nextAttempt_cases (policies : List RetryPolicy) (n : Nat) (a retried : Attempt) :
    Retried policies n a ∧ nextAttempt policies n a retried = retried ∨
      ¬ Retried policies n a ∧ nextAttempt policies n a retried = a := by
  unfold nextAttempt
  split
  · rename_i exc herror
    split
    · rename_i hnone
      refine Or.inr ⟨?_, rfl⟩
      rintro ⟨exc', p, herror', hp, -⟩
      cases herror.symm.trans herror'
      rw [hnone] at hp
      cases hp
    · rename_i p hp
      split
      · rename_i hle
        refine Or.inr ⟨?_, rfl⟩
        rintro ⟨exc', p', herror', hp', hlt⟩
        cases herror.symm.trans herror'
        cases hp.symm.trans hp'
        omega
      · exact Or.inl ⟨⟨exc, p, herror, hp, by omega⟩, rfl⟩
  · rename_i hother
    refine Or.inr ⟨?_, rfl⟩
    rintro ⟨exc, p, herror, -⟩
    exact hother exc herror

theorem retryFrom_settles (policies : List RetryPolicy) (node : Nat → Attempt) {fuel n : Nat}
    (h : attemptsBound policies ≤ fuel + n) :
    ∃ m, n ≤ m ∧ retryFrom policies node fuel n = node m ∧
      (∀ k, n ≤ k → k < m → Retried policies k (node k)) ∧ ¬ Retried policies m (node m) := by
  induction fuel generalizing n with
  | zero =>
    refine ⟨n, Nat.le_refl n, rfl, fun k hk hlt => absurd hk (Nat.not_le.mpr hlt), fun hn => ?_⟩
    have hlt := hn.lt_bound
    omega
  | succ fuel ih =>
    rcases nextAttempt_cases policies n (node n) (retryFrom policies node fuel (n + 1)) with
      ⟨hretried, heq⟩ | ⟨hsettled, heq⟩
    · obtain ⟨m, hle, hm, hbefore, hlast⟩ := ih (by omega : attemptsBound policies ≤ fuel + (n + 1))
      refine ⟨m, Nat.le_of_succ_le hle, heq.trans hm, fun k hk hlt => ?_, hlast⟩
      rcases Nat.lt_or_eq_of_le hk with hgt | rfl
      · exact hbefore k hgt hlt
      · exact hretried
    · exact ⟨n, Nat.le_refl n, heq, fun k hk hlt => absurd hk (Nat.not_le.mpr hlt), hsettled⟩

-- What a task ends with is its first attempt that is not retried.
theorem runWithRetry_first_settled (policies : List RetryPolicy) (node : Nat → Attempt) :
    ∃ m, runWithRetry policies node = node m ∧ m < max 1 (attemptsBound policies) ∧
      (∀ k < m, Retried policies k (node k)) ∧ ¬ Retried policies m (node m) := by
  obtain ⟨m, -, heq, hbefore, hlast⟩ := retryFrom_settles policies node
    (Nat.le_refl (attemptsBound policies + 0))
  refine ⟨m, heq, ?_, fun k hk => hbefore k (Nat.zero_le k) hk, hlast⟩
  cases m with
  | zero => omega
  | succ m =>
    have hlt := (hbefore m (Nat.zero_le m) (Nat.lt_succ_self m)).lt_bound
    omega

variable {C Ver : Type} [BaseChannel C]

namespace Graph

def errorHandlers (g : Graph C) : List String :=
  g.nodes.values.filterMap PregelNode.errorHandlerNode

def shouldRouteToErrorHandler (g : Graph C) (name : String) : Bool :=
  name ∉ g.errorHandlers && ((g.nodes.get? name).bind PregelNode.errorHandlerNode).isSome

end Graph

-- What `commit` leaves in `task.writes` and what it passes to `put_writes`.
def Attempt.taskWrites (g : Graph C) (name : String) (a : Attempt) : List Write :=
  match a.raised with
  | none => if a.writes = [] then [(Key.noWrites, Value.none)] else a.writes
  | some (.cancelled exc) => a.writes ++ [(Key.error, exc)]
  | some (.error exc) =>
      a.writes ++ [(Key.error, exc)] ++
        (if g.shouldRouteToErrorHandler name then [(Key.errorSourceNode, .str name)] else [])
  | some (.interrupt _) | some .bubbleUp => a.writes

def Attempt.savedWrites (g : Graph C) (name : String) (a : Attempt) : List Write :=
  match a.raised with
  | some (.interrupt interrupts) =>
      if interrupts = [] then []
      else (Key.interrupt, .list interrupts) :: a.writes.filter (fun w => w.1 = Key.resume)
  | some .bubbleUp => []
  | _ => a.taskWrites g name

namespace PregelLoop

def setTaskWrites (taskId : String) (writes : List Write) (l : PregelLoop C Ver) :
    PregelLoop C Ver :=
  { l with tasks := l.tasks.map (fun ts =>
      match ts.get? taskId with
      | some t => ts.set taskId { t with writes := writes }
      | none => ts) }

def commit (g : Graph C) (taskId : String) (a : Attempt) (l : PregelLoop C Ver) :
    PregelLoop C Ver :=
  match l.task? taskId with
  | none => l
  | some t => (l.setTaskWrites taskId (a.taskWrites g t.name)).putWrites g taskId
      (a.savedWrites g t.name)

end PregelLoop

end LangGraph

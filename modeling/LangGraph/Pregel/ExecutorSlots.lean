import Mathlib.Data.Finset.Card
import LangGraph.Transition.Run

namespace LangGraph

open Transition

-- The jobs of an executor, a task with the job that called it; the tick and a task on the fast
-- path are no jobs.
inductive Work where
  | task (caller : Option Nat)
  | put (prev : Option Nat)
  | write
  deriving DecidableEq

-- How far the save of a checkpoint is; every other job stays at the beginning.
inductive SavePoint where
  | beginning
  | drained
  | last
  deriving DecidableEq

inductive JobPhase where
  | running (point : SavePoint)
  | waiting (futs : List Nat) (point : SavePoint)
  deriving DecidableEq

structure MaxConcurrency where
  slots : Nat
  pos : 0 < slots

-- Jobs are numbered as they are submitted and start in that order. The event loop's executor
-- differs in that its slots are those of a semaphore.
structure BackgroundExecutor where
  submitted : List Work
  started : Nat
  slots : Finset Nat
  phase : Nat → JobPhase
  finished : Finset Nat
  deltaWriteFuts : List Nat
  putCheckpointFut : Option Nat

inductive ExecutorEvent where
  | tick
  | call (caller : Option Nat)
  | put
  | write (delta : Bool)
  | start
  | wait (job : Nat) (futs : List Nat)
  | drain (job : Nat)
  | previous (job : Nat)
  | resume (job : Nat)
  | finish (job : Nat) (commit : List Bool)

namespace BackgroundExecutor

def empty : BackgroundExecutor := ⟨[], 0, ∅, fun _ => .running .beginning, ∅, [], none⟩

variable (limit : MaxConcurrency) (s : BackgroundExecutor)

def submit (work : Work) : BackgroundExecutor := { s with submitted := s.submitted ++ [work] }

def putWrites (delta : Bool) : BackgroundExecutor :=
  { s.submit .write with
    deltaWriteFuts :=
      if delta then s.deltaWriteFuts ++ [s.submitted.length] else s.deltaWriteFuts }

def putCheckpoint : BackgroundExecutor :=
  { s.submit (.put s.putCheckpointFut) with putCheckpointFut := some s.submitted.length }

def Runs (job : Nat) (point : SavePoint) : Prop := job ∈ s.slots ∧ s.phase job = .running point

instance (job : Nat) (point : SavePoint) : Decidable (s.Runs job point) :=
  inferInstanceAs (Decidable (_ ∧ _))

def isTask (job : Nat) : Bool :=
  match s.submitted[job]? with
  | some (.task _) => true
  | _ => false

def isPut (job : Nat) : Bool :=
  match s.submitted[job]? with
  | some (.put _) => true
  | _ => false

def enter (job : Nat) (phase : JobPhase) : BackgroundExecutor :=
  { s with phase := Function.update s.phase job phase }

-- A task waits for futures of its own children, in one go or one after the other.
def mayWait (job : Nat) (futs : List Nat) : Bool :=
  s.Runs job .beginning ∧ s.isTask job ∧ futs ≠ [] ∧
    ∀ fut ∈ futs, s.submitted[fut]? = some (.task (some job))

def mayResume (job : Nat) (futs : List Nat) : Bool :=
  if s.isTask job then futs.any (· ∈ s.finished) else futs.all (· ∈ s.finished)

def drain (job : Nat) : BackgroundExecutor :=
  if s.deltaWriteFuts = [] then s.enter job (.running .drained)
  else { s.enter job (.waiting s.deltaWriteFuts .drained) with deltaWriteFuts := [] }

def afterPrevious (job : Nat) : BackgroundExecutor :=
  match s.submitted[job]? with
  | some (.put (some prev)) => s.enter job (.waiting [prev] .last)
  | _ => s.enter job (.running .last)

def resume (job : Nat) : BackgroundExecutor :=
  match s.phase job with
  | .waiting futs point =>
      if s.mayResume job futs then s.enter job (.running point) else s
  | .running _ => s

def release (job : Nat) : BackgroundExecutor :=
  { s with slots := s.slots.erase job, finished := insert job s.finished }

-- The done callback of a task commits its writes.
def finish (job : Nat) (commit : List Bool) : BackgroundExecutor :=
  if s.isTask job then (commit.foldl putWrites s).release job else s.release job

def mayFinish (job : Nat) : Bool :=
  if s.isPut job then s.Runs job .last else s.Runs job .beginning

def step : ExecutorEvent → BackgroundExecutor
  | .tick => s.submit (.task none)
  | .call none => s.submit (.task none)
  | .call (some job) =>
      if s.Runs job .beginning ∧ s.isTask job then s.submit (.task (some job)) else s
  | .put => s.putCheckpoint
  | .write delta => s.putWrites delta
  | .start =>
      if s.started < s.submitted.length ∧ s.slots.card < limit.slots then
        { s.enter s.started (.running .beginning) with
          started := s.started + 1
          slots := insert s.started s.slots }
      else s
  | .wait job futs => if s.mayWait job futs then s.enter job (.waiting futs .beginning) else s
  | .drain job => if s.Runs job .beginning ∧ s.isPut job then s.drain job else s
  | .previous job => if s.Runs job .drained ∧ s.isPut job then s.afterPrevious job else s
  | .resume job => if job ∈ s.slots then s.resume job else s
  | .finish job commit => if s.mayFinish job then s.finish job commit else s

def awaited (job : Nat) : List Nat :=
  match s.phase job with
  | .waiting futs _ => futs
  | .running _ => []

def Starved (job : Nat) : Prop := ∃ fut ∈ s.awaited job, s.started ≤ fut

instance (job : Nat) : Decidable (s.Starved job) := inferInstanceAs (Decidable (∃ _ ∈ _, _))

-- Every slot is held by a job that waits for one that has not started.
def Exhausted : Prop := s.slots.card = limit.slots ∧ ∀ job ∈ s.slots, s.Starved job

instance : Decidable (s.Exhausted limit) := inferInstanceAs (Decidable (_ ∧ _))

-- The job that an event makes wait, and what for.
def begins : ExecutorEvent → Option (Nat × List Nat)
  | .wait job futs => if s.mayWait job futs then some (job, futs) else none
  | .drain job =>
      if s.Runs job .beginning ∧ s.isPut job then some (job, s.deltaWriteFuts) else none
  | .previous job =>
      if s.Runs job .drained ∧ s.isPut job then
        match s.submitted[job]? with
        | some (.put (some prev)) => some (job, [prev])
        | _ => some (job, [])
      else none
  | _ => none

def Spare (job : Nat) : Prop :=
  s.slots.card < limit.slots ∨ ∃ other ∈ s.slots, other ≠ job ∧ ¬ s.Starved other

-- No job starts to wait for one that has not started while all other slots are so held.
def Patient (e : ExecutorEvent) : Prop :=
  ∀ job futs, s.begins e = some (job, futs) →
    (∀ fut ∈ futs, fut < s.started) ∨ s.Spare limit job

variable {limit s} {s' : BackgroundExecutor} {e : ExecutorEvent} {job : Nat} {futs : List Nat}

theorem awaited_enter_self (phase : JobPhase) :
    (s.enter job phase).awaited job =
      match phase with
      | .waiting futs _ => futs
      | .running _ => [] := by
  rw [awaited, enter]
  simp only [Function.update_self]

theorem awaited_enter_ne {other : Nat} (h : other ≠ job) (phase : JobPhase) :
    (s.enter job phase).awaited other = s.awaited other := by
  rw [awaited, awaited, enter]
  simp only [Function.update_of_ne h]

structure Begun (s : BackgroundExecutor) (job : Nat) (futs : List Nat) (s' : BackgroundExecutor) :
    Prop where
  held : job ∈ s.slots
  slots : s'.slots = s.slots
  started : s'.started = s.started
  own : s'.awaited job = futs
  others : ∀ other ≠ job, s'.awaited other = s.awaited other

theorem begun_enter {phase : JobPhase} (held : job ∈ s.slots)
    (own : (s.enter job phase).awaited job = futs) : Begun s job futs (s.enter job phase) :=
  ⟨held, rfl, rfl, own, fun _ h => awaited_enter_ne h phase⟩

theorem begun_drain (held : job ∈ s.slots) : Begun s job s.deltaWriteFuts (s.drain job) := by
  unfold drain
  split
  · rename_i hnil
    rw [hnil]
    exact begun_enter held (awaited_enter_self _)
  · exact ⟨held, rfl, rfl, awaited_enter_self _, fun _ h => awaited_enter_ne h _⟩

theorem begun_step (limit : MaxConcurrency) (h : s.begins e = some (job, futs)) :
    Begun s job futs (s.step limit e) := by
  cases e with
  | wait job' futs' =>
    rw [begins] at h
    split at h
    · rename_i hmay
      obtain ⟨rfl, rfl⟩ := Prod.mk.inj (Option.some.inj h)
      rw [step, if_pos hmay]
      exact begun_enter (of_decide_eq_true hmay).1.1 (awaited_enter_self _)
    · cases h
  | drain job' =>
    rw [begins] at h
    split at h
    · rename_i hmay
      obtain ⟨rfl, rfl⟩ := Prod.mk.inj (Option.some.inj h)
      rw [step, if_pos hmay]
      exact begun_drain hmay.1.1
    · cases h
  | previous job' =>
    rw [begins] at h
    split at h
    · rename_i hmay
      rw [step, if_pos hmay, afterPrevious]
      split at h
      · rename_i prev hput
        obtain ⟨rfl, rfl⟩ := Prod.mk.inj (Option.some.inj h)
        exact begun_enter hmay.1.1 (awaited_enter_self _)
      · obtain ⟨rfl, rfl⟩ := Prod.mk.inj (Option.some.inj h)
        exact begun_enter hmay.1.1 (awaited_enter_self _)
    · cases h
  | tick => cases h
  | call caller => cases h
  | put => cases h
  | write delta => cases h
  | start => cases h
  | resume job' => cases h
  | finish job' commit => cases h

theorem Begun.starved_iff (h : Begun s job futs s') :
    s'.Starved job ↔ ∃ fut ∈ futs, s.started ≤ fut := by
  rw [Starved, h.own, h.started]

theorem Begun.starved_ne (h : Begun s job futs s') {other : Nat} (hne : other ≠ job) :
    s'.Starved other ↔ s.Starved other := by
  rw [Starved, Starved, h.others other hne, h.started]

theorem Begun.exhausted_iff (h : Begun s job futs s') :
    s'.Exhausted limit ↔ s.slots.card = limit.slots ∧ (∃ fut ∈ futs, s.started ≤ fut) ∧
      ∀ other ∈ s.slots, other ≠ job → s.Starved other := by
  rw [Exhausted, h.slots]
  refine and_congr_right (fun _ => ?_)
  constructor
  · intro hall
    exact ⟨h.starved_iff.mp (hall job h.held),
      fun other hother hne => (h.starved_ne hne).mp (hall other hother)⟩
  · rintro ⟨hown, hothers⟩ other hother
    by_cases hne : other = job
    · rw [hne]
      exact h.starved_iff.mpr hown
    · exact (h.starved_ne hne).mpr (hothers other hother hne)

theorem Begun.patient_iff (h : Begun s job futs s') (hcard : s.slots.card ≤ limit.slots) :
    ¬ s'.Exhausted limit ↔ (∀ fut ∈ futs, fut < s.started) ∨ s.Spare limit job := by
  rw [h.exhausted_iff, Spare]
  constructor
  · intro hnot
    by_cases hall : ∀ fut ∈ futs, fut < s.started
    · exact Or.inl hall
    · push Not at hall
      rcases Nat.lt_or_eq_of_le hcard with hlt | heq
      · exact Or.inr (Or.inl hlt)
      · refine Or.inr (Or.inr ?_)
        by_contra hothers
        push Not at hothers
        exact hnot ⟨heq, hall, hothers⟩
  · rintro (hall | hlt | ⟨other, hother, hne, hstarved⟩) ⟨heq, ⟨fut, hfut, hle⟩, hothers⟩
    · exact absurd (hall fut hfut) (Nat.not_lt.mpr hle)
    · omega
    · exact hstarved (hothers other hother hne)

structure SameSlots (s s' : BackgroundExecutor) : Prop where
  slots : s'.slots = s.slots
  started : s'.started = s.started
  phase : s'.phase = s.phase

theorem SameSlots.trans {s'' : BackgroundExecutor} (h : SameSlots s s') (h' : SameSlots s' s'') :
    SameSlots s s'' :=
  ⟨h'.slots.trans h.slots, h'.started.trans h.started, h'.phase.trans h.phase⟩

theorem SameSlots.exhausted_iff (h : SameSlots s s') :
    s'.Exhausted limit ↔ s.Exhausted limit := by
  simp only [Exhausted, Starved, awaited, h.slots, h.started, h.phase]

theorem sameSlots_submit (work : Work) : SameSlots s (s.submit work) := ⟨rfl, rfl, rfl⟩

theorem sameSlots_putWrites (delta : Bool) : SameSlots s (s.putWrites delta) := ⟨rfl, rfl, rfl⟩

theorem sameSlots_commit (commit : List Bool) (s : BackgroundExecutor) :
    SameSlots s (commit.foldl putWrites s) := by
  induction commit generalizing s with
  | nil => exact ⟨rfl, rfl, rfl⟩
  | cons delta commit ih => exact (sameSlots_putWrites delta).trans (ih (s.putWrites delta))

theorem exists_finish (s : BackgroundExecutor) (job : Nat) (commit : List Bool) :
    ∃ r, SameSlots s r ∧ s.finish job commit = r.release job := by
  unfold finish
  split
  · exact ⟨_, sameSlots_commit commit s, rfl⟩
  · exact ⟨s, ⟨rfl, rfl, rfl⟩, rfl⟩

theorem held_of_mayFinish (h : s.mayFinish job = true) : job ∈ s.slots := by
  unfold mayFinish at h
  split at h
  · exact (of_decide_eq_true h).1
  · exact (of_decide_eq_true h).1

-- What an event that makes no job wait does to the slots.
inductive Moved (limit : MaxConcurrency) (s s' : BackgroundExecutor) : Prop where
  | same (h : SameSlots s s')
  | started (free : s.slots.card < limit.slots) (slots : s'.slots = insert s.started s.slots)
      (own : s'.awaited s.started = [])
      (others : ∀ other ≠ s.started, s'.awaited other = s.awaited other)
  | resumed (job : Nat) (held : job ∈ s.slots) (slots : s'.slots = s.slots)
      (own : s'.awaited job = []) (others : ∀ other ≠ job, s'.awaited other = s.awaited other)
  | released (job : Nat) (held : job ∈ s.slots) (slots : s'.slots = s.slots.erase job)
      (awaited : s'.awaited = s.awaited)

theorem SameSlots.refl (s : BackgroundExecutor) : SameSlots s s := ⟨rfl, rfl, rfl⟩

theorem SameSlots.awaited (h : SameSlots s s') : s'.awaited = s.awaited := by
  funext job
  rw [BackgroundExecutor.awaited, BackgroundExecutor.awaited, h.phase]

theorem moved_resume (held : job ∈ s.slots) : Moved limit s (s.resume job) := by
  unfold resume
  split
  · rename_i futs point hphase
    split
    · exact .resumed job held rfl (awaited_enter_self (.running point))
        (fun _ hne => awaited_enter_ne hne _)
    · exact .same (.refl s)
  · exact .same (.refl s)

theorem moved_finish (held : job ∈ s.slots) (commit : List Bool) :
    Moved limit s (s.finish job commit) := by
  obtain ⟨r, hsame, heq⟩ := exists_finish s job commit
  rw [heq]
  refine .released job held ?_ ?_
  · rw [release, hsame.slots]
  · exact hsame.awaited

theorem moved_step (hb : s.begins e = none) : Moved limit s (s.step limit e) := by
  cases e with
  | tick => exact .same (sameSlots_submit _)
  | put => exact .same ⟨rfl, rfl, rfl⟩
  | write delta => exact .same (sameSlots_putWrites delta)
  | call caller =>
    cases caller with
    | none => exact .same (sameSlots_submit _)
    | some job =>
      rw [step]
      split
      · exact .same (sameSlots_submit _)
      · exact .same (.refl s)
  | start =>
    rw [step]
    split
    · rename_i hfree
      exact .started hfree.2 rfl (awaited_enter_self (.running .beginning))
        (fun _ hne => awaited_enter_ne hne _)
    · exact .same (.refl s)
  | wait job futs =>
    rw [begins] at hb
    split at hb
    · cases hb
    · rename_i hmay
      rw [step, if_neg hmay]
      exact .same (.refl s)
  | drain job =>
    rw [begins] at hb
    split at hb
    · cases hb
    · rename_i hmay
      rw [step, if_neg hmay]
      exact .same (.refl s)
  | previous job =>
    rw [begins] at hb
    split at hb
    · split at hb
      · cases hb
      · cases hb
    · rename_i hmay
      rw [step, if_neg hmay]
      exact .same (.refl s)
  | resume job =>
    rw [step]
    split
    · rename_i hheld
      exact moved_resume hheld
    · exact .same (.refl s)
  | finish job commit =>
    rw [step]
    split
    · rename_i hmay
      exact moved_finish (held_of_mayFinish hmay) commit
    · exact .same (.refl s)

theorem not_exhausted_of_awaited (hheld : job ∈ s.slots) (h : s.awaited job = []) :
    ¬ s.Exhausted limit := by
  intro hex
  obtain ⟨fut, hfut, -⟩ := hex.2 job hheld
  rw [h] at hfut
  cases hfut

theorem Moved.not_exhausted (hm : Moved limit s s') (hcard : s.slots.card ≤ limit.slots)
    (h : ¬ s.Exhausted limit) : ¬ s'.Exhausted limit := by
  cases hm with
  | same hsame => exact fun hex => h (hsame.exhausted_iff.mp hex)
  | started _ slots own _ =>
    exact not_exhausted_of_awaited (slots ▸ Finset.mem_insert_self _ _) own
  | resumed job held slots own _ => exact not_exhausted_of_awaited (slots.symm ▸ held) own
  | released job held slots _ =>
    intro hex
    have herase := Finset.card_erase_lt_of_mem held
    rw [← slots, hex.1] at herase
    exact absurd herase (Nat.not_lt.mpr hcard)

theorem Moved.card_le (hm : Moved limit s s') (hcard : s.slots.card ≤ limit.slots) :
    s'.slots.card ≤ limit.slots := by
  cases hm with
  | same hsame => exact hsame.slots ▸ hcard
  | started free slots _ _ =>
    rw [slots]
    exact Nat.le_trans (Finset.card_insert_le _ _) free
  | resumed job _ slots _ _ => exact slots ▸ hcard
  | released job _ slots _ =>
    rw [slots]
    exact Nat.le_trans Finset.card_erase_le hcard

theorem card_step (hcard : s.slots.card ≤ limit.slots) (e : ExecutorEvent) :
    (s.step limit e).slots.card ≤ limit.slots := by
  cases hb : s.begins e with
  | some wait =>
    rw [(begun_step limit hb).slots]
    exact hcard
  | none => exact (moved_step hb).card_le hcard

theorem patient_step_iff (hcard : s.slots.card ≤ limit.slots) (h : ¬ s.Exhausted limit) :
    ¬ (s.step limit e).Exhausted limit ↔ s.Patient limit e := by
  cases hb : s.begins e with
  | none =>
    refine iff_of_true ((moved_step hb).not_exhausted hcard h) (fun job futs hsome => ?_)
    rw [hb] at hsome
    cases hsome
  | some wait =>
    obtain ⟨job, futs⟩ := wait
    rw [(begun_step limit hb).patient_iff hcard, Patient, hb]
    constructor
    · intro hok job' futs' heq
      obtain ⟨rfl, rfl⟩ := Prod.mk.inj (Option.some.inj heq)
      exact hok
    · exact fun hall => hall job futs rfl

theorem not_exhausted_empty : ¬ empty.Exhausted limit :=
  fun h => absurd h.1 (Nat.ne_of_lt limit.pos)

theorem never_exhausted_iff (limit : MaxConcurrency) (events : List ExecutorEvent) :
    Always (step limit) (fun s => ¬ s.Exhausted limit) empty events ↔
      EachStep (step limit) (fun s e => s.Patient limit e) empty events := by
  have hstep (s : BackgroundExecutor) (e : ExecutorEvent) (hcard : s.slots.card ≤ limit.slots)
      (h : ¬ s.Exhausted limit) : ¬ (step limit s e).Exhausted limit ↔ s.Patient limit e :=
    patient_step_iff hcard h
  have hinv (s : BackgroundExecutor) (e : ExecutorEvent) (hcard : s.slots.card ≤ limit.slots)
      (_ : ¬ s.Exhausted limit) (_ : ¬ (step limit s e).Exhausted limit) :
      (step limit s e).slots.card ≤ limit.slots :=
    card_step hcard e
  exact always_iff_eachStep hstep hinv events (Nat.zero_le limit.slots) not_exhausted_empty

section FewWaits

-- The jobs that an event, or a run, makes wait.
def begun (s : BackgroundExecutor) (e : ExecutorEvent) : Finset Nat :=
  match s.begins e with
  | some (job, _) => {job}
  | none => ∅

def waited (limit : MaxConcurrency) : BackgroundExecutor → List ExecutorEvent → Finset Nat
  | _, [] => ∅
  | s, e :: events => begun s e ∪ waited limit (s.step limit e) events

def WaitsIn (s : BackgroundExecutor) (jobs : Finset Nat) : Prop :=
  ∀ job ∈ s.slots, s.awaited job ≠ [] → job ∈ jobs

theorem Moved.waitsIn (hm : Moved limit s s') {jobs : Finset Nat} (h : WaitsIn s jobs) :
    WaitsIn s' jobs := by
  intro job hjob hne
  cases hm with
  | same hsame =>
    rw [hsame.awaited] at hne
    exact h job (hsame.slots ▸ hjob) hne
  | started _ slots own others =>
    have hold : job ≠ s.started := by
      rintro rfl
      exact hne own
    rw [others job hold] at hne
    exact h job ((Finset.mem_insert.mp (slots ▸ hjob)).resolve_left hold) hne
  | resumed job' _ slots own others =>
    have hother : job ≠ job' := by
      rintro rfl
      exact hne own
    rw [others job hother] at hne
    exact h job (slots ▸ hjob) hne
  | released job' _ slots awaited =>
    rw [awaited] at hne
    exact h job (Finset.mem_of_mem_erase (slots ▸ hjob)) hne

theorem waitsIn_step {jobs : Finset Nat} (h : WaitsIn s jobs) (e : ExecutorEvent) :
    WaitsIn (s.step limit e) (jobs ∪ begun s e) := by
  cases hb : s.begins e with
  | none =>
    have hjobs : jobs ∪ begun s e = jobs := by
      rw [begun, hb]
      exact Finset.union_empty jobs
    rw [hjobs]
    exact (moved_step hb).waitsIn h
  | some wait =>
    obtain ⟨job, futs⟩ := wait
    have hstep := begun_step limit hb
    have hbegun : begun s e = {job} := by
      rw [begun, hb]
    rw [hbegun]
    intro other hother hne
    by_cases heq : other = job
    · exact Finset.mem_union_right _ (Finset.mem_singleton.mpr heq)
    · rw [hstep.others other heq] at hne
      exact Finset.mem_union_left _ (h other (hstep.slots ▸ hother) hne)

theorem waitsIn_run (limit : MaxConcurrency) {jobs : Finset Nat} (h : WaitsIn s jobs)
    {p events : List ExecutorEvent} (hp : p <+: events) :
    WaitsIn (run (step limit) s p) (jobs ∪ waited limit s events) := by
  induction events generalizing s p jobs with
  | nil =>
    rw [List.prefix_nil.mp hp]
    exact fun job hjob hne => Finset.mem_union_left _ (h job hjob hne)
  | cons e events ih =>
    rcases prefix_cons_iff.mp hp with rfl | ⟨q, rfl, hq⟩
    · exact fun job hjob hne => Finset.mem_union_left _ (h job hjob hne)
    · rw [waited, ← Finset.union_assoc]
      exact ih (waitsIn_step h e) hq

-- No pool runs dry in a run where fewer jobs than it has slots ever wait.
theorem never_exhausted_of_few_waits {events : List ExecutorEvent}
    (h : (waited limit empty events).card < limit.slots) :
    Always (step limit) (fun s => ¬ s.Exhausted limit) empty events := by
  intro p hp hex
  have hempty : WaitsIn empty ∅ := fun job hjob => absurd hjob (Finset.notMem_empty job)
  have hin := waitsIn_run limit hempty hp
  rw [Finset.empty_union] at hin
  have hsub : (run (step limit) empty p).slots ⊆ waited limit empty events := by
    intro job hjob
    obtain ⟨fut, hfut, -⟩ := hex.2 job hjob
    exact hin job hjob (List.ne_nil_of_mem hfut)
  have hle := Finset.card_le_card hsub
  rw [hex.1] at hle
  omega

theorem never_exhausted_one_caller :
    Always (step ⟨2, by decide⟩) (fun s => ¬ s.Exhausted ⟨2, by decide⟩) empty
      [.call none, .start, .call (some 0), .wait 0 [1], .start, .finish 1 [], .resume 0,
        .finish 0 []] :=
  never_exhausted_of_few_waits (by decide)

end FewWaits

section Nested

-- A fast-path task calls as many tasks as there are slots, each of which calls one more.
def nestedCalls (n : Nat) : List ExecutorEvent :=
  List.replicate n (.call none) ++ List.replicate n .start ++
    (List.range n).map (fun job => .call (some job)) ++
      (List.range n).map (fun job => .wait job [n + job])

def calledBy (n : Nat) : List Work :=
  List.replicate n (.task none) ++ (List.range n).map (fun job => .task (some job))

def waitingUpTo (n k : Nat) (job : Nat) : JobPhase :=
  if job < k then .waiting [n + job] .beginning else .running .beginning

def nestedState (submitted : List Work) (started : Nat) (phase : Nat → JobPhase) :
    BackgroundExecutor :=
  ⟨submitted, started, Finset.range started, phase, ∅, [], none⟩

theorem run_calls (n : Nat) : run (step limit) empty (List.replicate n (.call none)) =
    nestedState (List.replicate n (.task none)) 0 (fun _ => .running .beginning) := by
  induction n with
  | zero => rfl
  | succ n ih =>
    rw [List.replicate_succ', run_append, ih, List.replicate_succ']
    rfl

theorem run_starts (limit : MaxConcurrency) (works : List Work) {k : Nat}
    (hk : k ≤ works.length) (hl : k ≤ limit.slots) :
    run (step limit) (nestedState works 0 (fun _ => .running .beginning))
        (List.replicate k .start) =
      nestedState works k (fun _ => .running .beginning) := by
  induction k with
  | zero => rfl
  | succ k ih =>
    rw [List.replicate_succ', run_append, ih (by omega) (by omega)]
    have hfree : k < works.length ∧ (Finset.range k).card < limit.slots := by
      rw [Finset.card_range]
      omega
    have hphase : Function.update (fun _ => JobPhase.running .beginning) k (.running .beginning) =
        fun _ => .running .beginning := Function.update_eq_self k _
    refine (if_pos hfree).trans ?_
    simp only [nestedState, enter, hphase, Finset.range_add_one]

theorem run_nested (n : Nat) {k : Nat} (hk : k ≤ n) :
    run (step limit)
        (nestedState (List.replicate n (.task none)) n (fun _ => .running .beginning))
        ((List.range k).map (fun job => .call (some job))) =
      nestedState (List.replicate n (.task none) ++
        (List.range k).map (fun job => .task (some job))) n (fun _ => .running .beginning) := by
  induction k with
  | zero => simp [run]
  | succ k ih =>
    rw [List.range_succ, List.map_append, List.map_append, run_append, ih (by omega),
      ← List.append_assoc]
    have hget : (List.replicate n (Work.task none) ++
        (List.range k).map (fun job => .task (some job)))[k]? = some (.task none) := by
      rw [List.getElem?_append_left (by rw [List.length_replicate]; omega),
        List.getElem?_replicate, if_pos (by omega)]
    refine (if_pos ⟨⟨?_, rfl⟩, ?_⟩).trans rfl
    · exact Finset.mem_range.mpr (by omega)
    · simp only [isTask, nestedState, hget]

theorem run_waits (n : Nat) {k : Nat} (hk : k ≤ n) :
    run (step limit) (nestedState (calledBy n) n (waitingUpTo n 0))
        ((List.range k).map (fun job => .wait job [n + job])) =
      nestedState (calledBy n) n (waitingUpTo n k) := by
  induction k with
  | zero => rfl
  | succ k ih =>
    rw [List.range_succ, List.map_append, run_append, ih (by omega)]
    have hchild : (calledBy n)[n + k]? = some (.task (some k)) := by
      rw [calledBy, List.getElem?_append_right (by simp), List.length_replicate,
        Nat.add_sub_cancel_left, List.getElem?_map, List.getElem?_range (by omega)]
      rfl
    have hget : (calledBy n)[k]? = some (.task none) := by
      rw [calledBy, List.getElem?_append_left (by rw [List.length_replicate]; omega),
        List.getElem?_replicate, if_pos (by omega)]
    have hmay : (nestedState (calledBy n) n (waitingUpTo n k)).mayWait k [n + k] = true := by
      refine decide_eq_true ⟨⟨Finset.mem_range.mpr (by omega), ?_⟩, ?_, List.cons_ne_nil _ _, ?_⟩
      · exact if_neg (Nat.lt_irrefl k)
      · simp only [isTask, nestedState, hget]
      · exact List.forall_mem_singleton.mpr hchild
    have hphase : Function.update (waitingUpTo n k) k (.waiting [n + k] .beginning) =
        waitingUpTo n (k + 1) := by
      funext job
      rcases Nat.lt_trichotomy job k with hlt | rfl | hgt
      · rw [Function.update_of_ne (by omega), waitingUpTo, waitingUpTo, if_pos hlt,
          if_pos (by omega)]
      · rw [Function.update_self, waitingUpTo, if_pos (by omega)]
      · rw [Function.update_of_ne (by omega), waitingUpTo, waitingUpTo, if_neg (by omega),
          if_neg (by omega)]
    refine (if_pos hmay).trans ?_
    simp only [nestedState, enter, hphase]

theorem run_nestedCalls (limit : MaxConcurrency) :
    run (step limit) empty (nestedCalls limit.slots) =
      nestedState (calledBy limit.slots) limit.slots (waitingUpTo limit.slots limit.slots) := by
  have hstarts := run_starts limit (List.replicate limit.slots (.task none))
    (Nat.le_of_eq List.length_replicate.symm) (Nat.le_refl limit.slots)
  have hwaiting : (fun _ => JobPhase.running .beginning) = waitingUpTo limit.slots 0 := rfl
  rw [nestedCalls, run_append, run_append, run_append, run_calls, hstarts,
    run_nested _ (Nat.le_refl _), hwaiting, ← calledBy, run_waits _ (Nat.le_refl _)]

theorem nestedCalls_exhausted (limit : MaxConcurrency) :
    (run (step limit) empty (nestedCalls limit.slots)).Exhausted limit := by
  rw [run_nestedCalls]
  refine ⟨Finset.card_range _, fun job hjob => ?_⟩
  have hlt := Finset.mem_range.mp hjob
  refine ⟨limit.slots + job, ?_, Nat.le_add_right _ _⟩
  rw [awaited]
  simp only [nestedState, waitingUpTo, if_pos hlt, List.mem_singleton]

theorem every_limit_exhausted : ¬ ∃ limit : MaxConcurrency, ∀ events : List ExecutorEvent,
    Always (step limit) (fun s => ¬ s.Exhausted limit) empty events := by
  rintro ⟨limit, h⟩
  exact h (nestedCalls limit.slots) _ (List.prefix_refl _) (nestedCalls_exhausted limit)

end Nested

end BackgroundExecutor

end LangGraph

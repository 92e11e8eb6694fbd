import LangGraph.Pregel.PendingWrites
import LangGraph.Pregel.Superstep
import LangGraph.Transition.Run

namespace LangGraph

open Collections Transition

def nullResume (w : PendingWrite) : Bool := w.taskId = nullTaskId && w.channel = Key.resume

-- The pending writes once `_first` has saved those of a Command.
structure ResumedWrites where
  writes : List PendingWrite
  single : (writes.filter nullResume).length ≤ 1
  given : ∀ w ∈ writes, nullResume w = true → w.value ≠ .none

-- What `get_null_resume` of a scratchpad closes over: a list object and the row found in it.
structure NullResume where
  pendingWrites : Nat
  nullResumeWrite : Option PendingWrite

-- The closures are the scratchpad's own and, behind it, those of its parents.
structure PregelScratchpad where
  interruptCounter : Nat
  resume : List Value
  nullResumes : List NullResume

inductive Interrupted where
  | resumed (v : Value)
  | graphInterrupt
  | assertionError

-- The list objects that `checkpoint_pending_writes` has been bound to in this superstep.
structure Resuming where
  lists : List (List PendingWrite)
  checkpointPendingWrites : Nat
  scratchpads : List PregelScratchpad
  returned : List (Nat × Value)

inductive ResumingEvent where
  | prepare (taskId : String) (caller : Option Nat)
  | putWrites (taskId : {id : String // id ≠ nullTaskId}) (writes : List Write)
  | interrupt (task : Nat)

def taskResume (taskId : String) (pendingWrites : List PendingWrite) : List Value :=
  match pendingWrites.find? (fun w => w.taskId = taskId && w.channel = Key.resume) with
  | some w =>
      match w.value with
      | .list vs => vs
      | v => [v]
  | none => []

def getNullResume (lists : List (List PendingWrite)) :
    List NullResume → List (List PendingWrite) × Option Value
  | [] => (lists, none)
  | c :: parents =>
      match c.nullResumeWrite with
      | none => getNullResume lists parents
      | some w =>
          let pendingWrites := lists.getD c.pendingWrites []
          if w ∈ pendingWrites then (lists.set c.pendingWrites (pendingWrites.erase w), some w.value)
          else (lists, none)

def scratchpad (parent : Option PregelScratchpad) (object : Nat)
    (pendingWrites : List PendingWrite) (taskId : String) : PregelScratchpad where
  interruptCounter := 0
  resume := taskResume taskId pendingWrites
  nullResumes :=
    ⟨object, pendingWrites.find? nullResume⟩ :: (parent.map PregelScratchpad.nullResumes).getD []

namespace Resuming

def start (pending : ResumedWrites) : Resuming := ⟨[pending.writes], 0, [], []⟩

def pendingWrites (s : Resuming) (object : Nat) : List PendingWrite := s.lists.getD object []

def prepare (taskId : String) (caller : Option Nat) (s : Resuming) : Resuming :=
  { s with scratchpads := s.scratchpads ++
      [scratchpad (caller.bind (fun i => s.scratchpads[i]?)) s.checkpointPendingWrites
        (s.pendingWrites s.checkpointPendingWrites) taskId] }

def putWrites (taskId : String) (writes : List Write) (s : Resuming) : Resuming :=
  match writes with
  | [] => s
  | _ =>
      { s with
        lists := s.lists ++
          [PregelLoop.keptWrites taskId (s.pendingWrites s.checkpointPendingWrites) ++
            (dedupWrites writes).map (fun w : Write => PendingWrite.mk taskId w.1 w.2)]
        checkpointPendingWrites := s.lists.length }

def interrupt (task : Nat) (s : Resuming) : Resuming × Interrupted :=
  match s.scratchpads[task]? with
  | none => (s, .graphInterrupt)
  | some p =>
      let counted := { p with interruptCounter := p.interruptCounter + 1 }
      match p.resume[p.interruptCounter]? with
      | some v => ({ s with scratchpads := s.scratchpads.set task counted }, .resumed v)
      | none =>
          match getNullResume s.lists p.nullResumes with
          | (lists, some v) =>
              if v = .none then
                ({ s with lists := lists, scratchpads := s.scratchpads.set task counted },
                  .graphInterrupt)
              else if p.resume.length = p.interruptCounter then
                ({ s with
                    lists := lists
                    scratchpads :=
                      s.scratchpads.set task { counted with resume := p.resume ++ [v] }
                    returned := s.returned ++ [(task, v)] }, .resumed v)
              else
                ({ s with lists := lists, scratchpads := s.scratchpads.set task counted },
                  .assertionError)
          | (lists, none) =>
              ({ s with lists := lists, scratchpads := s.scratchpads.set task counted },
                .graphInterrupt)

def step (s : Resuming) : ResumingEvent → Resuming
  | .prepare taskId caller => s.prepare taskId caller
  | .putWrites taskId writes => s.putWrites taskId.1 writes
  | .interrupt task => (s.interrupt task).1

def ConsumedOnce (s : Resuming) : Prop := s.returned.length ≤ 1

-- The row is still in every list object that a scratchpad found it in.
def Untouched (s : Resuming) : Prop :=
  ∀ p ∈ s.scratchpads, ∀ c ∈ p.nullResumes, ∀ w, c.nullResumeWrite = some w →
    w ∈ s.pendingWrites c.pendingWrites

-- The next `interrupt` of the task reaches a null resume row that is still there.
def Reaches (task : Nat) (s : Resuming) : Prop :=
  ∃ p, s.scratchpads[task]? = some p ∧ p.resume[p.interruptCounter]? = none ∧
    (getNullResume s.lists p.nullResumes).2.isSome = true

def Unshared (s : Resuming) : ResumingEvent → Prop
  | .interrupt task => s.Reaches task → s.Untouched
  | _ => True

section Closures

variable {lists : List (List PendingWrite)} {closures : List NullResume}

theorem getNullResume_cases (lists : List (List PendingWrite)) (closures : List NullResume) :
    getNullResume lists closures = (lists, none) ∨
      ∃ c ∈ closures, ∃ w, c.nullResumeWrite = some w ∧ w ∈ lists.getD c.pendingWrites [] ∧
        getNullResume lists closures =
          (lists.set c.pendingWrites ((lists.getD c.pendingWrites []).erase w), some w.value) := by
  induction closures with
  | nil => exact Or.inl rfl
  | cons c parents ih =>
    cases hw : c.nullResumeWrite with
    | none =>
      simp only [getNullResume, hw]
      rcases ih with hnone | ⟨d, hd, w, hdw, hmem, heq⟩
      · exact Or.inl hnone
      · exact Or.inr ⟨d, List.mem_cons_of_mem c hd, w, hdw, hmem, heq⟩
    | some w =>
      simp only [getNullResume, hw]
      split
      · rename_i hmem
        exact Or.inr ⟨c, List.mem_cons_self, w, hw, hmem, rfl⟩
      · exact Or.inl rfl

-- Rows only leave the lists that scratchpads close over, so what is gone stays gone.
theorem getNullResume_none {lists' : List (List PendingWrite)}
    (hsub : ∀ c ∈ closures, ∀ w, w ∈ lists'.getD c.pendingWrites [] →
      w ∈ lists.getD c.pendingWrites [])
    (h : (getNullResume lists closures).2 = none) : (getNullResume lists' closures).2 = none := by
  induction closures with
  | nil => rfl
  | cons c parents ih =>
    cases hw : c.nullResumeWrite with
    | none =>
      simp only [getNullResume, hw] at h ⊢
      exact ih (fun d hd => hsub d (List.mem_cons_of_mem c hd)) h
    | some w =>
      simp only [getNullResume, hw] at h ⊢
      split at h
      · cases h
      · rename_i hmem
        rw [if_neg (fun hmem' => hmem (hsub c List.mem_cons_self w hmem'))]

end Closures

theorem getD_set_erase {lists : List (List PendingWrite)} {i j : Nat} {w v : PendingWrite}
    (h : v ∈ (lists.set i ((lists.getD i []).erase w)).getD j []) : v ∈ lists.getD j [] := by
  rw [List.getD_eq_getElem?_getD, List.getElem?_set] at h
  split at h
  · rename_i hij
    rw [← hij]
    split at h
    · exact List.mem_of_mem_erase (by simpa using h)
    · simp at h
  · rwa [List.getD_eq_getElem?_getD]

theorem single_erase {l : List PendingWrite} (h : (l.filter nullResume).length ≤ 1)
    {w : PendingWrite} (hw : nullResume w = true) : w ∉ l.erase w := by
  intro hagain
  have hcount : 2 ≤ l.count w := by
    have herase := List.count_erase_self (a := w) (l := l)
    have hpos := List.count_pos_iff.mpr hagain
    omega
  have hfilter : (l.filter nullResume).count w = l.count w := List.count_filter hw
  have hle := List.count_le_length (a := w) (l := l.filter nullResume)
  omega

structure Invariant (s : Resuming) : Prop where
  bound : s.checkpointPendingWrites < s.lists.length
  single : ∀ l ∈ s.lists, (l.filter nullResume).length ≤ 1
  given : ∀ l ∈ s.lists, ∀ w ∈ l, nullResume w = true → w.value ≠ .none
  found : ∀ p ∈ s.scratchpads, ∀ c ∈ p.nullResumes, c.pendingWrites < s.lists.length ∧
    ∀ w, c.nullResumeWrite = some w → nullResume w = true
  counted : ∀ p ∈ s.scratchpads, p.interruptCounter ≤ p.resume.length ∨
    (getNullResume s.lists p.nullResumes).2 = none
  log : s.returned = [] ↔ s.Untouched

theorem invariant_start (pending : ResumedWrites) : (start pending).Invariant where
  bound := Nat.zero_lt_one
  single l hl := by
    rw [List.mem_singleton.mp hl]
    exact pending.single
  given l hl := by
    rw [List.mem_singleton.mp hl]
    exact pending.given
  found p hp := by cases hp
  counted p hp := by cases hp
  log := by
    refine ⟨fun _ p hp => ?_, fun _ => rfl⟩
    cases hp

theorem mem_pendingWrites {s : Resuming} {object : Nat} (h : object < s.lists.length) :
    s.pendingWrites object ∈ s.lists := by
  rw [pendingWrites, List.getD_eq_getElem?_getD, List.getElem?_eq_getElem h]
  exact List.getElem_mem h

theorem Invariant.prepare {s : Resuming} (h : s.Invariant) (taskId : String)
    (caller : Option Nat) : (s.prepare taskId caller).Invariant := by
  obtain ⟨parent, hparent⟩ : ∃ parent, parent = caller.bind (fun i => s.scratchpads[i]?) :=
    ⟨_, rfl⟩
  obtain ⟨p, hp⟩ : ∃ p, p = scratchpad parent s.checkpointPendingWrites
    (s.pendingWrites s.checkpointPendingWrites) taskId := ⟨_, rfl⟩
  have hpads : (s.prepare taskId caller).scratchpads = s.scratchpads ++ [p] := by
    rw [Resuming.prepare, ← hparent, ← hp]
  have hnew (q : PregelScratchpad) (hq : q ∈ (s.prepare taskId caller).scratchpads) :
      q ∈ s.scratchpads ∨ q = p := by
    rw [hpads, List.mem_append, List.mem_singleton] at hq
    exact hq
  -- A closure of the new scratchpad is its own or one of a scratchpad that was there.
  have hclosure (c : NullResume) (hc : c ∈ p.nullResumes) :
      c = ⟨s.checkpointPendingWrites,
        (s.pendingWrites s.checkpointPendingWrites).find? nullResume⟩ ∨
      ∃ q ∈ s.scratchpads, c ∈ q.nullResumes := by
    rw [hp] at hc
    rcases List.mem_cons.mp hc with hc | hc
    · exact Or.inl hc
    · cases hcaller : parent with
      | none =>
        rw [hcaller] at hc
        cases hc
      | some q =>
        rw [hcaller] at hc
        rw [hcaller] at hparent
        obtain ⟨i, -, hi⟩ := Option.bind_eq_some_iff.mp hparent.symm
        exact Or.inr ⟨q, List.mem_of_getElem? hi, hc⟩
  constructor
  · exact h.bound
  · exact h.single
  · exact h.given
  · intro q hq c hc
    rcases hnew q hq with hq | rfl
    · exact h.found q hq c hc
    · rcases hclosure c hc with rfl | ⟨r, hr, hc⟩
      · exact ⟨h.bound, fun w hw => List.find?_some hw⟩
      · exact h.found r hr c hc
  · intro q hq
    rcases hnew q hq with hq | rfl
    · exact h.counted q hq
    · left
      rw [hp]
      exact Nat.zero_le _
  · refine h.log.trans ⟨fun hun q hq c hc w hw => ?_, fun hun q hq => ?_⟩
    · rcases hnew q hq with hq | rfl
      · exact hun q hq c hc w hw
      · rcases hclosure c hc with rfl | ⟨r, hr, hc⟩
        · exact List.mem_of_find?_eq_some hw
        · exact hun r hr c hc w hw
    · exact hun q (by rw [hpads]; exact List.mem_append_left _ hq)

theorem filter_keptWrites {taskId : String} (ht : taskId ≠ nullTaskId)
    (pending : List PendingWrite) (writes : List Write) :
    (PregelLoop.keptWrites taskId pending ++
      writes.map (fun w : Write => PendingWrite.mk taskId w.1 w.2)).filter nullResume =
        pending.filter nullResume := by
  have hwrites : (writes.map (fun w : Write => PendingWrite.mk taskId w.1 w.2)).filter nullResume =
      [] := by
    rw [List.filter_eq_nil_iff]
    intro w hw
    obtain ⟨v, -, rfl⟩ := List.mem_map.mp hw
    simp [nullResume, ht]
  rw [List.filter_append, hwrites, List.append_nil, PregelLoop.keptWrites, if_neg ht,
    List.filter_filter]
  refine List.filter_congr (fun w _ => ?_)
  by_cases hw : w.taskId = nullTaskId
  · simp [nullResume, hw, Ne.symm ht]
  · simp [nullResume, hw]

theorem Invariant.putWrites {s : Resuming} (h : s.Invariant) {taskId : String}
    (ht : taskId ≠ nullTaskId) (writes : List Write) : (s.putWrites taskId writes).Invariant := by
  cases writes with
  | nil => exact h
  | cons w ws =>
    obtain ⟨l, hl⟩ : ∃ l, l = PregelLoop.keptWrites taskId
      (s.pendingWrites s.checkpointPendingWrites) ++
        (dedupWrites (w :: ws)).map (fun w : Write => PendingWrite.mk taskId w.1 w.2) := ⟨_, rfl⟩
    have hlists : (s.putWrites taskId (w :: ws)).lists = s.lists ++ [l] := by
      rw [hl]
      rfl
    have hcurrent : s.pendingWrites s.checkpointPendingWrites ∈ s.lists :=
      mem_pendingWrites h.bound
    have hfilter : l.filter nullResume =
        (s.pendingWrites s.checkpointPendingWrites).filter nullResume := by
      rw [hl]
      exact filter_keptWrites ht _ _
    have hsame (i : Nat) (hi : i < s.lists.length) :
        (s.putWrites taskId (w :: ws)).lists.getD i [] = s.lists.getD i [] := by
      rw [hlists, List.getD_eq_getElem?_getD, List.getElem?_append_left hi,
        List.getD_eq_getElem?_getD]
    have hmem (k : List PendingWrite) (hk : k ∈ (s.putWrites taskId (w :: ws)).lists) :
        k ∈ s.lists ∨ k = l := by
      rw [hlists, List.mem_append, List.mem_singleton] at hk
      exact hk
    constructor
    · rw [hlists, List.length_append]
      exact Nat.lt_succ_self _
    · intro k hk
      rcases hmem k hk with hk | rfl
      · exact h.single k hk
      · rw [hfilter]
        exact h.single _ hcurrent
    · intro k hk v hv hnull
      rcases hmem k hk with hk | rfl
      · exact h.given k hk v hv hnull
      · have hvf : v ∈ k.filter nullResume := List.mem_filter.mpr ⟨hv, hnull⟩
        rw [hfilter] at hvf
        exact h.given _ hcurrent v (List.mem_filter.mp hvf).1 hnull
    · intro p hp c hc
      obtain ⟨hlt, hw⟩ := h.found p hp c hc
      refine ⟨?_, hw⟩
      rw [hlists, List.length_append]
      omega
    · intro p hp
      rcases h.counted p hp with hle | hnone
      · exact Or.inl hle
      · refine Or.inr (getNullResume_none (fun c hc w hw => ?_) hnone)
        rwa [hsame _ (h.found p hp c hc).1] at hw
    · refine h.log.trans (forall₂_congr (fun p hp => forall₂_congr (fun c hc => ?_)))
      rw [pendingWrites, pendingWrites, hsame _ (h.found p hp c hc).1]

theorem nullResumes_set {ps : List PregelScratchpad} {i : Nat} {p q : PregelScratchpad}
    (hp : ps[i]? = some p) (hq : q.nullResumes = p.nullResumes) :
    (ps.set i q).map PregelScratchpad.nullResumes = ps.map PregelScratchpad.nullResumes := by
  induction ps generalizing i with
  | nil => rfl
  | cons r ps ih =>
    cases i with
    | zero =>
      cases hp
      exact congrArg (· :: ps.map PregelScratchpad.nullResumes) hq
    | succ i => exact congrArg (r.nullResumes :: ·) (ih hp)

theorem untouched_iff {s : Resuming} : s.Untouched ↔
    ∀ cs ∈ s.scratchpads.map PregelScratchpad.nullResumes, ∀ c ∈ cs, ∀ w,
      c.nullResumeWrite = some w → w ∈ s.pendingWrites c.pendingWrites := by
  simp [Untouched]

def counting (task : Nat) (p : PregelScratchpad) (s : Resuming) : Resuming :=
  ⟨s.lists, s.checkpointPendingWrites,
    s.scratchpads.set task { p with interruptCounter := p.interruptCounter + 1 }, s.returned⟩

def taking (task : Nat) (p : PregelScratchpad) (object : Nat) (w : PendingWrite)
    (s : Resuming) : Resuming :=
  ⟨s.lists.set object ((s.pendingWrites object).erase w), s.checkpointPendingWrites,
    s.scratchpads.set task ⟨p.interruptCounter + 1, p.resume ++ [w.value], p.nullResumes⟩,
    s.returned ++ [(task, w.value)]⟩

-- What an `interrupt` does: it counts, and it may take the row from the list it found it in.
inductive Interrupts (task : Nat) (s s' : Resuming) : Prop
  | missing (hs : s' = s) (hr : ¬ s.Reaches task)
  | counts (p : PregelScratchpad) (hp : s.scratchpads[task]? = some p)
      (hs : s' = s.counting task p) (hr : ¬ s.Reaches task)
      (hc : p.interruptCounter + 1 ≤ p.resume.length ∨
        (getNullResume s.lists p.nullResumes).2 = none)
  | takes (p : PregelScratchpad) (hp : s.scratchpads[task]? = some p) (c : NullResume)
      (hc : c ∈ p.nullResumes) (w : PendingWrite) (hw : c.nullResumeWrite = some w)
      (hmem : w ∈ s.pendingWrites c.pendingWrites)
      (hs : s' = s.taking task p c.pendingWrites w) (hr : s.Reaches task)
      (hlen : p.resume.length = p.interruptCounter)

theorem Invariant.interrupts {s : Resuming} (h : s.Invariant) (task : Nat) :
    Interrupts task s (s.interrupt task).1 := by
  cases hp : s.scratchpads[task]? with
  | none =>
    refine .missing (by simp only [interrupt, hp]) ?_
    rintro ⟨p, hp', -⟩
    rw [hp] at hp'
    cases hp'
  | some p =>
    have hpads := List.mem_of_getElem? hp
    cases hv : p.resume[p.interruptCounter]? with
    | some v =>
      refine .counts p hp (by simp only [interrupt, hp, hv, counting]) ?_ ?_
      · rintro ⟨q, hq, hnone, -⟩
        rw [hp] at hq
        rw [← Option.some.inj hq, hv] at hnone
        cases hnone
      · exact Or.inl (List.getElem?_eq_some_iff.mp hv).1
    | none =>
      rcases getNullResume_cases s.lists p.nullResumes with hnone | ⟨c, hc, w, hw, hmem, heq⟩
      · refine .counts p hp (by simp only [interrupt, hp, hv, hnone, counting]) ?_ (Or.inr ?_)
        · rintro ⟨q, hq, -, hsome⟩
          rw [hp] at hq
          rw [← Option.some.inj hq, hnone] at hsome
          cases hsome
        · rw [hnone]
      · obtain ⟨hlt, hnull⟩ := h.found p hpads c hc
        have hgiven : w.value ≠ .none :=
          h.given _ (mem_pendingWrites hlt) w hmem (hnull w hw)
        -- The row is there, so every call of this task so far found a value: the assertion holds.
        have hlen : p.resume.length = p.interruptCounter := by
          rcases h.counted p hpads with hle | hgone
          · have hge := List.getElem?_eq_none_iff.mp hv
            omega
          · rw [heq] at hgone
            cases hgone
        refine .takes p hp c hc w hw hmem ?_ ⟨p, hp, hv, by rw [heq]; rfl⟩ hlen
        simp only [interrupt, hp, hv, heq, if_neg hgiven, if_pos hlen]
        rfl

theorem Invariant.counting {s : Resuming} (h : s.Invariant) {task : Nat} {p : PregelScratchpad}
    (hp : s.scratchpads[task]? = some p)
    (hc : p.interruptCounter + 1 ≤ p.resume.length ∨
      (getNullResume s.lists p.nullResumes).2 = none) : (s.counting task p).Invariant := by
  have hclosures : (s.counting task p).scratchpads.map PregelScratchpad.nullResumes =
      s.scratchpads.map PregelScratchpad.nullResumes := nullResumes_set hp rfl
  constructor
  · exact h.bound
  · exact h.single
  · exact h.given
  · intro q hq c hcq
    have hmem := List.mem_map_of_mem (f := PregelScratchpad.nullResumes) hq
    rw [hclosures] at hmem
    obtain ⟨r, hr, hrq⟩ := List.mem_map.mp hmem
    exact h.found r hr c (hrq ▸ hcq)
  · intro q hq
    rcases List.mem_or_eq_of_mem_set hq with hq | rfl
    · exact h.counted q hq
    · exact hc
  · rw [untouched_iff, hclosures]
    exact h.log.trans untouched_iff

theorem Invariant.taking {s : Resuming} (h : s.Invariant) {task : Nat} {p : PregelScratchpad}
    (hp : s.scratchpads[task]? = some p) {c : NullResume} (hc : c ∈ p.nullResumes)
    {w : PendingWrite} (hw : c.nullResumeWrite = some w)
    (hlen : p.resume.length = p.interruptCounter) :
    (s.taking task p c.pendingWrites w).Invariant := by
  obtain ⟨hlt, hnull⟩ := h.found p (List.mem_of_getElem? hp) c hc
  have hclosures : (s.taking task p c.pendingWrites w).scratchpads.map
      PregelScratchpad.nullResumes = s.scratchpads.map PregelScratchpad.nullResumes :=
    nullResumes_set hp rfl
  have hold := mem_pendingWrites hlt
  have hlength : (s.taking task p c.pendingWrites w).lists.length = s.lists.length :=
    List.length_set
  have hmem (l : List PendingWrite) (hl : l ∈ (s.taking task p c.pendingWrites w).lists) :
      l ∈ s.lists ∨ l = (s.pendingWrites c.pendingWrites).erase w :=
    List.mem_or_eq_of_mem_set hl
  have hsub (i : Nat) (v : PendingWrite)
      (hv : v ∈ (s.taking task p c.pendingWrites w).lists.getD i []) : v ∈ s.lists.getD i [] :=
    getD_set_erase hv
  constructor
  · rw [hlength]
    exact h.bound
  · intro l hl
    rcases hmem l hl with hl | rfl
    · exact h.single l hl
    · exact (List.Sublist.length_le ((List.erase_sublist).filter nullResume)).trans
        (h.single _ hold)
  · intro l hl v hv hvn
    rcases hmem l hl with hl | rfl
    · exact h.given l hl v hv hvn
    · exact h.given _ hold v (List.mem_of_mem_erase hv) hvn
  · intro q hq d hd
    have hq' := List.mem_map_of_mem (f := PregelScratchpad.nullResumes) hq
    rw [hclosures] at hq'
    obtain ⟨r, hr, hrq⟩ := List.mem_map.mp hq'
    rw [hlength]
    exact h.found r hr d (hrq ▸ hd)
  · intro q hq
    rcases List.mem_or_eq_of_mem_set hq with hq | rfl
    · rcases h.counted q hq with hle | hnone
      · exact Or.inl hle
      · exact Or.inr (getNullResume_none (fun d _ => hsub d.pendingWrites) hnone)
    · left
      simp [hlen]
  · refine ⟨fun hnil => absurd hnil (by simp [Resuming.taking]), fun hun => ?_⟩
    rw [untouched_iff, hclosures] at hun
    have hagain := hun _ (List.mem_map_of_mem (List.mem_of_getElem? hp)) c hc w hw
    have herase : w ∈ (s.pendingWrites c.pendingWrites).erase w := by
      simpa [Resuming.taking, pendingWrites, List.getD_eq_getElem?_getD, hlt] using hagain
    exact absurd herase (single_erase (h.single _ hold) (hnull w hw))

theorem Invariant.step {s : Resuming} (h : s.Invariant) (e : ResumingEvent) :
    (s.step e).Invariant := by
  cases e with
  | prepare taskId caller => exact h.prepare taskId caller
  | putWrites taskId writes => exact h.putWrites taskId.2 writes
  | interrupt task =>
    rcases h.interrupts task with ⟨hs, -⟩ | ⟨p, hp, hs, -, hc⟩ | ⟨p, hp, c, hc, w, hw, -, hs, -, hlen⟩
    · rw [Resuming.step, hs]
      exact h
    · rw [Resuming.step, hs]
      exact h.counting hp hc
    · rw [Resuming.step, hs]
      exact h.taking hp hc hw hlen

theorem consumedOnce_step {s : Resuming} (h : s.Invariant) (honce : s.ConsumedOnce)
    (e : ResumingEvent) : (s.step e).ConsumedOnce ↔ s.Unshared e := by
  cases e with
  | prepare taskId caller => exact ⟨fun _ => trivial, fun _ => honce⟩
  | putWrites taskId writes =>
    refine ⟨fun _ => trivial, fun _ => ?_⟩
    cases writes <;> exact honce
  | interrupt task =>
    rcases h.interrupts task with ⟨hs, hr⟩ | ⟨p, hp, hs, hr, hc⟩ | ⟨p, hp, c, hc, w, hw, -, hs, hr, -⟩
    · rw [Resuming.step, hs]
      exact ⟨fun _ hr' => absurd hr' hr, fun _ => honce⟩
    · rw [Resuming.step, hs]
      exact ⟨fun _ hr' => absurd hr' hr, fun _ => honce⟩
    · have hgood : (s.step (.interrupt task)).ConsumedOnce ↔ s.returned = [] := by
        rw [Resuming.step, hs]
        simp [ConsumedOnce, taking]
      rw [hgood, h.log]
      exact ⟨fun hun _ => hun, fun hun => hun hr⟩

theorem consumed_once_iff (pending : ResumedWrites) (events : List ResumingEvent) :
    Always step ConsumedOnce (start pending) events ↔
      EachStep step Unshared (start pending) events := by
  have hstep (s : Resuming) (e : ResumingEvent) (h : s.Invariant) (honce : s.ConsumedOnce) :
      (s.step e).ConsumedOnce ↔ s.Unshared e := consumedOnce_step h honce e
  have hinv (s : Resuming) (e : ResumingEvent) (h : s.Invariant) (_ : s.ConsumedOnce)
      (_ : (s.step e).ConsumedOnce) : (s.step e).Invariant := h.step e
  exact always_iff_eachStep hstep hinv events (invariant_start pending) (Nat.zero_le 1)

section Command

variable {C Ver : Type} [BaseChannel C]

theorem gotoWrite_ne_resume {targets : List (String ⊕ Value)} {w : Write}
    (h : w ∈ targets.map Command.gotoWrite) : w.1 ≠ Key.resume := by
  obtain ⟨target, -, rfl⟩ := List.mem_map.mp h
  intro hw
  cases target with
  | inl node =>
    have hlist : "branch:to:".toList ++ node.toList = Key.resume.toList := by
      rw [← String.toList_append]
      exact congrArg String.toList hw
    exact absurd (congrArg (List.head? ·) hlist) (by simp [Key.resume])
  | inr send =>
    have hne : Key.tasks ≠ Key.resume := by decide
    exact absurd hw hne

theorem resume_of_command {c : Command} {v : Value} (hv : c.resume = some v)
    (hupdate : ∀ w ∈ c.update, w.1 ≠ Key.resume) {w : Write} (h : w ∈ c.writes)
    (hw : w.1 = Key.resume) : w.2 = v := by
  rcases List.mem_append.mp h with h | h
  · rcases List.mem_append.mp h with h | h
    · exact absurd hw (gotoWrite_ne_resume h)
    · rw [hv] at h
      cases hmap : Command.resumeIsMap v with
      | true => simp [hmap] at h
      | false =>
        simp only [hmap, Bool.false_eq_true, if_false, List.mem_singleton] at h
        rw [h]
  · exact absurd hw (hupdate w h)

theorem single_resume {c : Command} {v : Value} (hv : c.resume = some v)
    (hupdate : ∀ w ∈ c.update, w.1 ≠ Key.resume) :
    ((dedupWrites c.writes).filter (fun w => w.1 = Key.resume)).length ≤ 1 := by
  have hone : ∀ w ∈ (dedupWrites c.writes).filter (fun w => w.1 = Key.resume),
      w = (Key.resume, v) := by
    intro w hw
    obtain ⟨hmem, hkey⟩ := List.mem_filter.mp hw
    have hkey : w.1 = Key.resume := by simpa using hkey
    have hval : w.2 = v := resume_of_command hv hupdate (mem_dedupWrites hmem) hkey
    exact Prod.ext hkey hval
  unfold dedupWrites at hone ⊢
  split
  · rename_i hspecial
    rw [if_pos hspecial] at hone
    have hnodup : ((Dict.ofList c.writes).items.filter (fun w => w.1 = Key.resume)).Nodup :=
      (List.Nodup.of_map _ (Dict.ofList c.writes).nodup).filter _
    exact (List.nodup_iff_count_le_one.mp hnodup (Key.resume, v)).trans' (by
      rw [List.count_eq_length.mpr (fun w hw => (hone w hw).symm)])
  · have hgoto : (c.goto.map Command.gotoWrite).filter (fun w => w.1 = Key.resume) = [] := by
      rw [List.filter_eq_nil_iff]
      intro w hw
      simpa using gotoWrite_ne_resume hw
    have hupd : c.update.filter (fun w => w.1 = Key.resume) = [] := by
      rw [List.filter_eq_nil_iff]
      intro w hw
      simpa using hupdate w hw
    rw [Command.writes, hv, List.filter_append, List.filter_append, hgoto, hupd]
    cases hmap : Command.resumeIsMap v <;> simp [hmap]

theorem resumed_of_command (g : Graph C) (l : PregelLoop C Ver) {c : Command} {v : Value}
    (hv : c.resume = some v) (hgiven : v ≠ .none) (hupdate : ∀ w ∈ c.update, w.1 ≠ Key.resume)
    (hw : c.writes ≠ []) :
    ∃ pending : ResumedWrites,
      pending.writes = (l.putWrites g nullTaskId c.writes).checkpointPendingWrites := by
  obtain ⟨cache, hput⟩ := PregelLoop.putWrites_spec g nullTaskId hw l
  have hkept : (PregelLoop.keptWrites nullTaskId l.checkpointPendingWrites).filter nullResume =
      [] := by
    rw [List.filter_eq_nil_iff, PregelLoop.keptWrites, if_pos rfl]
    intro w hmem hnull
    have hkeep := (List.mem_filter.mp hmem).2
    obtain ⟨htask, hchannel⟩ : w.taskId = nullTaskId ∧ w.channel = Key.resume := by
      simpa [nullResume] using hnull
    have hspecial : Special Key.resume := by decide
    simp [htask, hchannel, hspecial] at hkeep
  have hrows : ((dedupWrites c.writes).map
      (fun w : Write => PendingWrite.mk nullTaskId w.1 w.2)).filter nullResume =
        ((dedupWrites c.writes).filter (fun w => w.1 = Key.resume)).map
          (fun w : Write => PendingWrite.mk nullTaskId w.1 w.2) := by
    rw [List.filter_map]
    congr 1
  refine ⟨⟨(l.putWrites g nullTaskId c.writes).checkpointPendingWrites, ?_, ?_⟩, rfl⟩
  · rw [hput, List.filter_append, hkept, hrows, List.nil_append, List.length_map]
    exact single_resume hv hupdate
  · intro w hmem hnull
    have hfilter := List.mem_filter.mpr ⟨hmem, hnull⟩
    rw [hput, List.filter_append, hkept, hrows, List.nil_append] at hfilter
    obtain ⟨u, hu, rfl⟩ := List.mem_map.mp hfilter
    obtain ⟨hmem, hkey⟩ := List.mem_filter.mp hu
    have hval : u.2 = v := resume_of_command hv hupdate (mem_dedupWrites hmem) (by simpa using hkey)
    rw [hval]
    exact hgiven

end Command

def approval : ResumedWrites where
  writes := [⟨nullTaskId, Key.resume, .str "yes"⟩]
  single := by decide
  given := by decide

-- Another task ends between the resume and the first `interrupt`, and then a call is made.
def callAfterOtherTask : List ResumingEvent :=
  [.prepare "node" none, .prepare "other" none,
    .putWrites ⟨"other", by decide⟩ [("b", .int 1)],
    .interrupt 0, .prepare "call" (some 0), .interrupt 2]

theorem value_returned_twice :
    ¬ Always step ConsumedOnce (start approval) callAfterOtherTask ∧
      (run step (start approval) callAfterOtherTask).returned =
        [(0, .str "yes"), (2, .str "yes")] := by
  have hrun : (run step (start approval) callAfterOtherTask).returned =
      [(0, .str "yes"), (2, .str "yes")] := by decide
  refine ⟨fun hall => ?_, hrun⟩
  have honce : (run step (start approval) callAfterOtherTask).returned.length ≤ 1 :=
    hall callAfterOtherTask List.prefix_rfl
  rw [hrun] at honce
  exact absurd honce (by decide)

end Resuming

end LangGraph

import LangGraph.Pregel.NullResume

namespace LangGraph

open Collections Transition

-- What is saved for a task under each namespace that its subgraph may be entered with.
structure SavedResumes where
  rows : Nat → List PendingWrite
  taskId : Nat → String
  resumeMap : Nat → Option Value
  single : ∀ n, ((rows n).filter nullResume).length ≤ 1

-- The scratchpads of the tasks around it, the innermost last, and the lists they close over.
structure Enclosing where
  lists : List (List PendingWrite)
  scratchpads : List PregelScratchpad
  single : ∀ l ∈ lists, (l.filter nullResume).length ≤ 1
  closed : ∀ p ∈ scratchpads, ∀ c ∈ p.nullResumes, c.pendingWrites < lists.length ∧
    ∀ w, c.nullResumeWrite = some w → nullResume w = true

structure ResumedTask where
  resuming : Resuming
  task : Nat
  subgraphs : Nat
  asked : Nat
  log : List (Nat × Interrupted)

inductive ResumedTaskEvent where
  | interrupt
  | retry
  | reenter
  | otherSubgraph
  deriving DecidableEq

-- `_scratchpad` looks into the resume map only when there are pending writes.
def mappedScratchpad (parent : Option PregelScratchpad) (object : Nat)
    (pendingWrites : List PendingWrite) (taskId : String) (mapped : Option Value) :
    PregelScratchpad :=
  let p := scratchpad parent object pendingWrites taskId
  if pendingWrites = [] then p else { p with resume := p.resume ++ mapped.toList }

def answers (values : List Value) (idx : Nat) : Interrupted → Bool
  | .resumed v => values[idx]? = some v
  | .graphInterrupt => values.length ≤ idx
  | .assertionError => false

namespace ResumedTask

def pad (s : ResumedTask) : PregelScratchpad :=
  (s.resuming.scratchpads[s.task]?).getD ⟨0, [], []⟩

-- The value None is taken for no value at all.
def null (s : ResumedTask) : Option Value :=
  (getNullResume s.resuming.lists s.pad.nullResumes).2.filter (fun v => v ≠ .none)

def resumeValues (s : ResumedTask) : List Value := s.pad.resume ++ s.null.toList

def enter (saved : SavedResumes) (parent : Option PregelScratchpad) (s : ResumedTask) :
    ResumedTask :=
  { s with
    resuming := { s.resuming with
      lists := s.resuming.lists ++ [saved.rows s.subgraphs]
      scratchpads := s.resuming.scratchpads ++
        [mappedScratchpad parent s.resuming.lists.length (saved.rows s.subgraphs)
          (saved.taskId s.subgraphs) (saved.resumeMap s.subgraphs)] }
    task := s.resuming.scratchpads.length
    subgraphs := s.subgraphs + 1
    asked := 0 }

def start (enclosing : Enclosing) (saved : SavedResumes) : ResumedTask :=
  enter saved enclosing.scratchpads.getLast?
    ⟨⟨enclosing.lists, 0, enclosing.scratchpads, []⟩, 0, 0, 0, []⟩

-- Entering a subgraph once more counts on the scratchpad of the task around it.
def step (enclosing : Enclosing) (saved : SavedResumes) (s : ResumedTask) :
    ResumedTaskEvent → ResumedTask
  | .interrupt =>
      let r := s.resuming.interrupt s.task
      { s with resuming := r.1, asked := s.asked + 1, log := s.log ++ [(s.asked, r.2)] }
  | .retry => { s with asked := 0 }
  | .reenter =>
      match enclosing.scratchpads.getLast? with
      | none => s
      | some parent => enter saved (some parent) s
  | .otherSubgraph => { s with subgraphs := s.subgraphs + 1 }

-- Each call so far was answered by the value of its own index among `values`.
def InOrder (values : List Value) (log : List (Nat × Interrupted)) : Prop :=
  (∀ e ∈ log, answers values e.1 e.2 = true) ∧
    (values.Nodup → ∀ e ∈ log, ∀ f ∈ log, ∀ v, e.2 = .resumed v → f.2 = .resumed v → e.1 = f.1)

-- The scratchpad of an attempt that calls `interrupt` has counted no earlier attempt, and has
-- what was given to the first one.
def Intact (first s : ResumedTask) : ResumedTaskEvent → Prop
  | .interrupt => s.pad.interruptCounter = s.asked ∧
      (s.asked = 0 → s.pad.resume = first.pad.resume ∧ s.null = first.null)
  | _ => True

end ResumedTask

section Closures

variable {lists : List (List PendingWrite)} {closures : List NullResume}

-- A null resume row that was taken is not found again.
theorem getNullResume_again (hsingle : ∀ l ∈ lists, (l.filter nullResume).length ≤ 1)
    (hfound : ∀ c ∈ closures, ∀ w, c.nullResumeWrite = some w → nullResume w = true)
    (h : (getNullResume lists closures).2.isSome = true) :
    (getNullResume (getNullResume lists closures).1 closures).2 = none := by
  induction closures with
  | nil => cases h
  | cons c parents ih =>
    cases hw : c.nullResumeWrite with
    | none =>
      simp only [getNullResume, hw] at h ⊢
      exact ih (fun d hd => hfound d (List.mem_cons_of_mem c hd)) h
    | some w =>
      simp only [getNullResume, hw] at h ⊢
      by_cases hmem : w ∈ lists.getD c.pendingWrites []
      · have hlt : c.pendingWrites < lists.length := by
          by_contra hge
          rw [List.getD_eq_getElem?_getD, List.getElem?_eq_none (not_lt.mp hge)] at hmem
          cases hmem
        have hlist : lists.getD c.pendingWrites [] ∈ lists := by
          rw [List.getD_eq_getElem?_getD, List.getElem?_eq_getElem hlt]
          exact List.getElem_mem hlt
        have hgone := Resuming.single_erase (hsingle _ hlist) (hfound c List.mem_cons_self w hw)
        have hset : (lists.set c.pendingWrites ((lists.getD c.pendingWrites []).erase w)).getD
            c.pendingWrites [] = (lists.getD c.pendingWrites []).erase w := by
          rw [List.getD_eq_getElem?_getD, List.getElem?_set_self hlt, Option.getD_some]
        rw [if_pos hmem]
        simp only [hset, if_neg hgone]
      · rw [if_neg hmem] at h
        cases h

end Closures

namespace Resuming

-- The lists hold one null resume row each, and scratchpads close over such rows of lists there are.
structure Closed (s : Resuming) : Prop where
  single : ∀ l ∈ s.lists, (l.filter nullResume).length ≤ 1
  closed : ∀ p ∈ s.scratchpads, ∀ c ∈ p.nullResumes, c.pendingWrites < s.lists.length ∧
    ∀ w, c.nullResumeWrite = some w → nullResume w = true

variable {s : Resuming} {task : Nat} {p q : PregelScratchpad}

theorem Closed.set (h : s.Closed) (hp : s.scratchpads[task]? = some p)
    (hq : q.nullResumes = p.nullResumes) :
    Closed { s with scratchpads := s.scratchpads.set task q } := by
  refine ⟨h.single, fun r hr c hc => ?_⟩
  rcases List.mem_or_eq_of_mem_set hr with hr | rfl
  · exact h.closed r hr c hc
  · rw [hq] at hc
    exact h.closed p (List.mem_of_getElem? hp) c hc

theorem Closed.taken (h : s.Closed) (closures : List NullResume) :
    Closed { s with lists := (getNullResume s.lists closures).1 } := by
  rcases getNullResume_cases s.lists closures with heq | ⟨c, -, w, -, hmem, heq⟩
  · rw [heq]
    exact h
  · rw [heq]
    refine ⟨fun l hl => ?_, fun r hr d hd => ?_⟩
    · rcases List.mem_or_eq_of_mem_set hl with hl | rfl
      · exact h.single l hl
      · have hlist : s.lists.getD c.pendingWrites [] ∈ s.lists := by
          rw [List.getD_eq_getElem?_getD] at hmem ⊢
          cases hget : s.lists[c.pendingWrites]? with
          | none =>
            rw [hget] at hmem
            cases hmem
          | some l => exact List.mem_of_getElem? hget
        have hsub := (List.erase_sublist (a := w)
          (l := s.lists.getD c.pendingWrites [])).filter nullResume
        exact hsub.length_le.trans (h.single _ hlist)
    · rw [List.length_set]
      exact h.closed r hr d hd

end Resuming

namespace ResumedTask

variable {s first : ResumedTask} {enclosing : Enclosing} {saved : SavedResumes}

-- What an attempt has counted is covered by its values, unless no null resume is left for it.
structure Sound (s : ResumedTask) : Prop where
  closed : s.resuming.Closed
  valid : s.task < s.resuming.scratchpads.length

def count (p : PregelScratchpad) : PregelScratchpad :=
  { p with interruptCounter := p.interruptCounter + 1 }

-- What one `interrupt` does to the scratchpad `p` of its task.
inductive Asked (s : Resuming) (task : Nat) (p : PregelScratchpad) :
    Resuming × Interrupted → Prop
  | saved (v : Value) (hv : p.resume[p.interruptCounter]? = some v) :
      Asked s task p ({ s with scratchpads := s.scratchpads.set task (count p) }, .resumed v)
  | taken (v : Value) (hv : p.resume[p.interruptCounter]? = none)
      (hnull : (getNullResume s.lists p.nullResumes).2 = some v) (hgiven : v ≠ .none)
      (hlen : p.resume.length = p.interruptCounter) :
      Asked s task p (⟨(getNullResume s.lists p.nullResumes).1, s.checkpointPendingWrites,
        s.scratchpads.set task { count p with resume := p.resume ++ [v] },
        s.returned ++ [(task, v)]⟩, .resumed v)
  | ahead (v : Value) (hv : p.resume[p.interruptCounter]? = none)
      (hnull : (getNullResume s.lists p.nullResumes).2 = some v) (hgiven : v ≠ .none)
      (hlen : p.resume.length ≠ p.interruptCounter) (s' : Resuming) :
      Asked s task p (s', .assertionError)
  | nothing (hv : p.resume[p.interruptCounter]? = none)
      (hnull : (getNullResume s.lists p.nullResumes).2.filter (fun v => v ≠ .none) = none) :
      Asked s task p ({ s with
        lists := (getNullResume s.lists p.nullResumes).1
        scratchpads := s.scratchpads.set task (count p) }, .graphInterrupt)

theorem asked_interrupt {s : Resuming} {task : Nat} {p : PregelScratchpad}
    (hp : s.scratchpads[task]? = some p) : Asked s task p (s.interrupt task) := by
  unfold Resuming.interrupt
  simp only [hp]
  cases hv : p.resume[p.interruptCounter]? with
  | some v => exact .saved v hv
  | none =>
    rcases hnull : getNullResume s.lists p.nullResumes with ⟨lists, _ | v⟩
    · have h : Asked s task p _ := .nothing hv (by rw [hnull]; rfl)
      rw [hnull] at h
      exact h
    · by_cases hgiven : v = .none
      · have h : Asked s task p _ := .nothing hv (by rw [hnull]; simp [hgiven])
        rw [hnull] at h
        simpa [hgiven, count] using h
      · by_cases hlen : p.resume.length = p.interruptCounter
        · have h : Asked s task p _ := .taken v hv (by rw [hnull]) hgiven hlen
          rw [hnull] at h
          simpa [hgiven, hlen, count] using h
        · have hnull' : (getNullResume s.lists p.nullResumes).2 = some v := by rw [hnull]
          have h (s' : Resuming) : Asked s task p (s', .assertionError) :=
            .ahead v hv hnull' hgiven hlen s'
          simpa [hgiven, hlen] using h _

theorem Sound.pad (h : s.Sound) : s.resuming.scratchpads[s.task]? = some s.pad := by
  rw [ResumedTask.pad, List.getElem?_eq_getElem h.valid, Option.getD_some]

theorem resumeValues_interrupt (enclosing : Enclosing) (saved : SavedResumes) (h : s.Sound)
    (hcounted : s.pad.interruptCounter ≤ s.pad.resume.length ∨ s.null = none) :
    (s.step enclosing saved .interrupt).Sound ∧
      (s.step enclosing saved .interrupt).pad.interruptCounter = s.pad.interruptCounter + 1 ∧
      (s.step enclosing saved .interrupt).resumeValues = s.resumeValues ∧
      ((s.step enclosing saved .interrupt).pad.interruptCounter ≤
          (s.step enclosing saved .interrupt).pad.resume.length ∨
        (s.step enclosing saved .interrupt).null = none) ∧
      answers s.resumeValues s.pad.interruptCounter (s.resuming.interrupt s.task).2 = true := by
  have hpad := h.pad
  have hmem := List.mem_of_getElem? hpad
  have hvalues : s.resumeValues = s.pad.resume ++
    ((getNullResume s.resuming.lists s.pad.nullResumes).2.filter (fun v => v ≠ .none)).toList := rfl
  have hasked := asked_interrupt hpad
  have hnone : s.null =
    (getNullResume s.resuming.lists s.pad.nullResumes).2.filter (fun v => v ≠ .none) := rfl
  rw [hnone] at hcounted
  generalize s.pad = p at *
  have hagain (hsome : (getNullResume s.resuming.lists p.nullResumes).2.isSome = true) :=
    getNullResume_again h.closed.single (fun c hc => (h.closed.closed p hmem c hc).2) hsome
  have hafter (q : PregelScratchpad) (lists : List (List PendingWrite))
      (returned : List (Nat × Value)) (o : Interrupted)
      (hr : s.resuming.interrupt s.task = (⟨lists, s.resuming.checkpointPendingWrites,
        s.resuming.scratchpads.set s.task q, returned⟩, o)) :
      (s.step enclosing saved .interrupt).pad = q ∧ (s.step enclosing saved .interrupt).null =
        (getNullResume lists q.nullResumes).2.filter (fun v => v ≠ .none) := by
    have hq : (s.step enclosing saved .interrupt).pad = q := by
      simp only [step, pad, hr, List.getElem?_set_self h.valid, Option.getD_some]
    exact ⟨hq, by rw [null, hq]; simp only [step, hr]⟩
  have hsound (q : PregelScratchpad) (lists : List (List PendingWrite))
      (returned : List (Nat × Value)) (o : Interrupted)
      (hr : s.resuming.interrupt s.task = (⟨lists, s.resuming.checkpointPendingWrites,
        s.resuming.scratchpads.set s.task q, returned⟩, o))
      (hclosed : Resuming.Closed ⟨lists, s.resuming.checkpointPendingWrites,
        s.resuming.scratchpads.set s.task q, returned⟩) :
      (s.step enclosing saved .interrupt).Sound := by
    refine ⟨by simpa only [step, hr] using hclosed, ?_⟩
    simp only [step, hr, List.length_set]
    exact h.valid
  generalize hr : s.resuming.interrupt s.task = r at hasked
  cases hasked with
  | saved v hv =>
    obtain ⟨hq, hnull⟩ := hafter _ _ _ _ hr
    have hlt := (List.getElem?_eq_some_iff.mp hv).1
    refine ⟨hsound _ _ _ _ hr (h.closed.set hpad rfl), by rw [hq]; rfl, ?_, ?_, ?_⟩
    · rw [resumeValues, hq, hnull, hvalues]
      rfl
    · rw [hq]
      exact Or.inl hlt
    · rw [hvalues, answers, decide_eq_true_iff, List.getElem?_append_left hlt]
      exact hv
  | taken v hv hnull hgiven hlen =>
    obtain ⟨hq, hnull'⟩ := hafter _ _ _ _ hr
    have hgone := hagain (by rw [hnull]; rfl)
    have hfilter : (some v).filter (fun v => v ≠ .none) = some v := by
      simp only [Option.filter, hgiven, ne_eq, not_false_eq_true, decide_true, if_true]
    have hclosed := (h.closed.taken p.nullResumes).set
      (q := { count p with resume := p.resume ++ [v] }) hpad rfl
    refine ⟨hsound _ _ _ _ hr ⟨hclosed.single, hclosed.closed⟩, by rw [hq]; rfl, ?_, ?_, ?_⟩
    · rw [resumeValues, hq, hnull', hvalues]
      simp only [count, hgone, hnull, hfilter, Option.filter_none, Option.toList_none,
        Option.toList_some, List.append_nil]
    · rw [hq]
      refine Or.inl ?_
      simp [count, hlen]
    · rw [hvalues, answers, decide_eq_true_iff, hnull, hfilter, ← hlen]
      simp only [Option.toList_some, List.getElem?_append_right (Nat.le_refl _), Nat.sub_self,
        List.getElem?_cons_zero]
  | ahead v hv hnull hgiven hlen s' =>
    have hge := List.getElem?_eq_none_iff.mp hv
    rw [hnull] at hcounted
    simp [hgiven] at hcounted
    omega
  | nothing hv hnull =>
    obtain ⟨hq, hnull'⟩ := hafter _ _ _ _ hr
    have hgone : (getNullResume (getNullResume s.resuming.lists p.nullResumes).1
        p.nullResumes).2.filter (fun v => v ≠ .none) = none := by
      rcases hsome : (getNullResume s.resuming.lists p.nullResumes).2 with _ | v
      · rw [Resuming.getNullResume_none ?_ hsome]
        · rfl
        · intro c _ w hw
          rcases Resuming.getNullResume_cases s.resuming.lists p.nullResumes with
            heq | ⟨d, -, u, -, -, heq⟩
          · rw [heq] at hw
            exact hw
          · rw [heq] at hsome
            cases hsome
      · rw [hagain (by rw [hsome]; rfl)]
        rfl
    have hge := List.getElem?_eq_none_iff.mp hv
    refine ⟨hsound _ _ _ _ hr ((h.closed.taken _).set hpad rfl), by rw [hq]; rfl, ?_, ?_, ?_⟩
    · rw [resumeValues, hq, hnull', hvalues, hnull]
      simp only [count]
      rw [hgone]
    · rw [hnull']
      exact Or.inr hgone
    · rw [hvalues, answers, decide_eq_true_iff, hnull]
      simpa using hge

theorem inOrder_of_answers {values : List Value} {log : List (Nat × Interrupted)}
    (h : ∀ e ∈ log, answers values e.1 e.2 = true) : InOrder values log := by
  refine ⟨h, fun hnodup e he f hf v hev hfv => ?_⟩
  have hi := h e he
  have hj := h f hf
  rw [hev, answers, decide_eq_true_iff] at hi
  rw [hfv, answers, decide_eq_true_iff] at hj
  obtain ⟨hlt, hi⟩ := List.getElem?_eq_some_iff.mp hi
  obtain ⟨hlt', hj⟩ := List.getElem?_eq_some_iff.mp hj
  exact (hnodup.getElem_inj_iff).mp (hi.trans hj.symm)

structure Replaying (enclosing : Enclosing) (values : List Value) (s : ResumedTask) : Prop where
  sound : s.Sound
  grown : enclosing.lists.length ≤ s.resuming.lists.length
  counted : 0 < s.asked → s.pad.interruptCounter = s.asked ∧ s.resumeValues = values ∧
    (s.pad.interruptCounter ≤ s.pad.resume.length ∨ s.null = none)
  answered : ∀ e ∈ s.log, answers values e.1 e.2 = true

theorem mappedScratchpad_nullResumes (parent : Option PregelScratchpad) (object : Nat)
    (pendingWrites : List PendingWrite) (taskId : String) (mapped : Option Value) :
    (mappedScratchpad parent object pendingWrites taskId mapped).nullResumes =
      ⟨object, pendingWrites.find? nullResume⟩ ::
        (parent.map PregelScratchpad.nullResumes).getD [] := by
  unfold mappedScratchpad
  split <;> rfl

theorem enter_sound (saved : SavedResumes) (hclosed : s.resuming.Closed)
    (hgrown : enclosing.lists.length ≤ s.resuming.lists.length)
    (parent : Option PregelScratchpad)
    (hparent : ∀ p, parent = some p → p ∈ enclosing.scratchpads) :
    (enter saved parent s).Sound ∧
      enclosing.lists.length ≤ (enter saved parent s).resuming.lists.length := by
  have hlength : (enter saved parent s).resuming.lists.length =
      s.resuming.lists.length + 1 := by
    simp only [enter, List.length_append, List.length_singleton]
  refine ⟨⟨⟨fun l hl => ?_, fun p hp c hc => ?_⟩, ?_⟩, by omega⟩
  · rcases List.mem_append.mp hl with hl | hl
    · exact hclosed.single l hl
    · rw [List.mem_singleton.mp hl]
      exact saved.single _
  · rw [hlength]
    rcases List.mem_append.mp hp with hp | hp
    · have hold := hclosed.closed p hp c hc
      exact ⟨by omega, hold.2⟩
    · rw [List.mem_singleton.mp hp, mappedScratchpad_nullResumes] at hc
      rcases List.mem_cons.mp hc with rfl | hc
      · exact ⟨Nat.lt_succ_self _, fun w hw => List.find?_some hw⟩
      · cases hcase : parent with
        | none =>
          rw [hcase] at hc
          cases hc
        | some q =>
          rw [hcase] at hc
          have hold := enclosing.closed q (hparent q hcase) c hc
          exact ⟨by omega, hold.2⟩
  · simp only [enter, List.length_append, List.length_singleton]
    omega

theorem getLast?_mem {ps : List PregelScratchpad} (p : PregelScratchpad)
    (h : ps.getLast? = some p) : p ∈ ps :=
  List.mem_of_getLast? h

theorem replaying_start (enclosing : Enclosing) (saved : SavedResumes) (values : List Value) :
    Replaying enclosing values (start enclosing saved) := by
  obtain ⟨hsound, hgrown⟩ := @enter_sound
    ⟨⟨enclosing.lists, 0, enclosing.scratchpads, []⟩, 0, 0, 0, []⟩ enclosing saved
    ⟨enclosing.single, enclosing.closed⟩ (Nat.le_refl _) enclosing.scratchpads.getLast?
    getLast?_mem
  exact ⟨hsound, hgrown, fun h => absurd h (Nat.lt_irrefl 0), fun e he => nomatch he⟩

theorem lists_interrupt (s : Resuming) (task : Nat) :
    (s.interrupt task).1.lists.length = s.lists.length := by
  have hnull (closures : List NullResume) :
      (getNullResume s.lists closures).1.length = s.lists.length := by
    rcases Resuming.getNullResume_cases s.lists closures with heq | ⟨c, -, w, -, -, heq⟩
    · rw [heq]
    · rw [heq, List.length_set]
  cases hp : s.scratchpads[task]? with
  | none => simp only [Resuming.interrupt, hp]
  | some p =>
    have hlists := hnull p.nullResumes
    cases hv : p.resume[p.interruptCounter]? with
    | some v => simp only [Resuming.interrupt, hp, hv]
    | none =>
      rcases hget : getNullResume s.lists p.nullResumes with ⟨lists, _ | v⟩
      · rw [hget] at hlists
        simpa only [Resuming.interrupt, hp, hv, hget] using hlists
      · rw [hget] at hlists
        simp only [Resuming.interrupt, hp, hv, hget]
        split
        · exact hlists
        · split
          · exact hlists
          · exact hlists

theorem Replaying.interrupt (h : Replaying enclosing (start enclosing saved).resumeValues s)
    (hok : Intact (start enclosing saved) s .interrupt) :
    Replaying enclosing (start enclosing saved).resumeValues
      (s.step enclosing saved .interrupt) := by
  obtain ⟨hcounter, hfresh⟩ := hok
  -- The first call of an attempt finds the values of the first attempt, a later one keeps them.
  have hvalues : s.resumeValues = (start enclosing saved).resumeValues ∧
      (s.pad.interruptCounter ≤ s.pad.resume.length ∨ s.null = none) := by
    rcases Nat.eq_zero_or_pos s.asked with hzero | hpos
    · obtain ⟨hresume, hnull⟩ := hfresh hzero
      refine ⟨by rw [resumeValues, hresume, hnull, resumeValues], Or.inl ?_⟩
      omega
    · exact (h.counted hpos).2
  obtain ⟨hsound, hcount, hkept, hcovered, hanswer⟩ :=
    resumeValues_interrupt enclosing saved h.sound hvalues.2
  refine ⟨hsound, ?_, fun _ => ⟨?_, hkept.trans hvalues.1, hcovered⟩, fun e he => ?_⟩
  · have hlists : (s.step enclosing saved .interrupt).resuming.lists.length =
        s.resuming.lists.length := lists_interrupt s.resuming s.task
    have hgrown := h.grown
    omega
  · rw [hcount, hcounter]
    rfl
  · rcases List.mem_append.mp he with he | he
    · exact h.answered e he
    · rw [List.mem_singleton.mp he, ← hvalues.1, ← hcounter]
      exact hanswer

theorem Replaying.step (h : Replaying enclosing (start enclosing saved).resumeValues s)
    (event : ResumedTaskEvent) (hok : Intact (start enclosing saved) s event) :
    Replaying enclosing (start enclosing saved).resumeValues (s.step enclosing saved event) := by
  cases event with
  | interrupt => exact h.interrupt hok
  | retry =>
    exact ⟨⟨h.sound.closed, h.sound.valid⟩, h.grown, fun hpos => absurd hpos (Nat.lt_irrefl 0),
      h.answered⟩
  | otherSubgraph => exact ⟨⟨h.sound.closed, h.sound.valid⟩, h.grown, h.counted, h.answered⟩
  | reenter =>
    cases hparent : enclosing.scratchpads.getLast? with
    | none =>
      have hsame : s.step enclosing saved .reenter = s := by
        simp only [ResumedTask.step, hparent]
      rw [hsame]
      exact h
    | some parent =>
      have henter : s.step enclosing saved .reenter = enter saved (some parent) s := by
        simp only [ResumedTask.step, hparent]
      rw [henter]
      obtain ⟨hsound, hgrown⟩ := enter_sound saved h.sound.closed h.grown (some parent)
        (fun p hp => getLast?_mem p (hparent.trans hp))
      exact ⟨hsound, hgrown, fun hpos => absurd hpos (Nat.lt_irrefl 0), h.answered⟩

theorem replayed_in_order (enclosing : Enclosing) (saved : SavedResumes)
    (events : List ResumedTaskEvent)
    (h : EachStep (step enclosing saved) (Intact (start enclosing saved))
      (start enclosing saved) events) :
    Always (step enclosing saved)
      (fun s => InOrder (start enclosing saved).resumeValues s.log)
      (start enclosing saved) events := by
  have hrun := @always_of_eachStep _ _ (step enclosing saved)
    (Replaying enclosing (start enclosing saved).resumeValues) _
    (fun _ event hs hok => Replaying.step hs event hok) events
    _ (replaying_start enclosing saved _) h
  exact fun p hp => inOrder_of_answers (hrun p hp).answered

def answered : SavedResumes where
  rows n := [⟨if n = 0 then "call" else "again", Key.resume, .list [.str "Ada", .str "Tokyo"]⟩]
  taskId n := if n = 0 then "call" else "again"
  resumeMap _ := none
  single n := by split <;> decide

def approved : SavedResumes where
  rows _ := [⟨nullTaskId, Key.resume, .str "yes"⟩]
  taskId _ := "node"
  resumeMap _ := none
  single _ := by decide

def unnested : Enclosing := ⟨[], [], by simp, by simp⟩

def nested : Enclosing := ⟨[[]], [⟨0, [], [⟨0, none⟩]⟩], by simp, by simp⟩

theorem reentered_subgraph_replayed :
    Always (step nested answered)
      (fun s => InOrder (start nested answered).resumeValues s.log) (start nested answered)
      [.retry, .interrupt, .interrupt, .interrupt, .reenter, .interrupt, .interrupt] := by
  refine replayed_in_order nested answered _ ?_
  simp only [eachStep_cons]
  refine ⟨trivial, ?_, ?_, ?_, trivial, ?_, ?_, eachStep_nil⟩
  all_goals exact ⟨by decide, by decide⟩

-- The second attempt does not see the value that the first one was resumed with.
theorem resumed_value_lost :
    ¬ ∀ (enclosing : Enclosing) (saved : SavedResumes) (events : List ResumedTaskEvent),
      Always (step enclosing saved)
        (fun s => InOrder (start enclosing saved).resumeValues s.log)
        (start enclosing saved) events := by
  intro hall
  have hlog := (hall unnested approved [.interrupt, .retry, .interrupt] _ List.prefix_rfl).1
  have hsecond : answers (start unnested approved).resumeValues 0 .graphInterrupt = true := by
    refine hlog (0, .graphInterrupt) ?_
    exact List.mem_of_getElem? (i := 1) (by rfl)
  exact absurd hsecond (by decide)

end ResumedTask

end LangGraph

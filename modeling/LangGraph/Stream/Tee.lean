import LangGraph.Stream.Cursor
import LangGraph.Transition.Run
import Mathlib.Logic.Function.Basic

namespace LangGraph

namespace Stream

open Transition Function

variable {α ε : Type} {n : Nat}

def ItemChannel.iter (ch : ItemChannel α ε) (calls : List (PumpCall α ε)) : Cursor α ε :=
  ⟨{ ch with subscribed := true }, calls, false⟩

-- What the branches share, the branch generators that are over, and what each has answered.
structure Fanout (α ε : Type) (n : Nat) where
  source : Cursor α ε
  buffers : Fin n → List α
  exhausted : Bool
  error : Option ε
  finished : Fin n → Bool
  answers : Fin n → List (Pulled α ε)

namespace Fanout

def start (source : Cursor α ε) : Fanout α ε n :=
  ⟨source, fun _ => [], false, none, fun _ => false, fun _ => []⟩

def answer (i : Fin n) (outcome : Pulled α ε) (t : Fanout α ε n) : Fanout α ε n :=
  { t with answers := update t.answers i (t.answers i ++ [outcome]) }

def finish (i : Fin n) (outcome : Pulled α ε) (t : Fanout α ε n) : Fanout α ε n :=
  { t.answer i outcome with finished := update t.finished i true }

def ready (i : Fin n) (t : Fanout α ε n) : Bool := !(t.buffers i).isEmpty || t.exhausted

-- The top of a branch's loop, with something buffered or the source exhausted.
def resume (i : Fin n) (t : Fanout α ε n) : Fanout α ε n :=
  match t.buffers i with
  | item :: rest => { t with buffers := update t.buffers i rest }.answer i (.item item)
  | [] => t.finish i (.ended t.error)

def distribute (item : α) (t : Fanout α ε n) : Fanout α ε n :=
  { t with buffers := fun j => t.buffers j ++ [item] }

-- A branch takes the source's next item; `stored` says which errors reach the other branches.
def fetch (stored : ε → Bool) (i : Fin n) (t : Fanout α ε n) : Fanout α ε n :=
  match t.source.next with
  | (.item item, source) => ({ t with source := source }.distribute item).resume i
  | (.stop, source) => { t with source := source, exhausted := true }.resume i
  | (.raised err, source) =>
      if stored err then
        { t with source := source, exhausted := true, error := some err }.resume i
      else { t with source := source }.finish i (.raised err)

-- `next` on a branch of `tee`, which catches `StopIteration` only.
def pull (t : Fanout α ε n) (i : Fin n) : Fanout α ε n :=
  if t.finished i then t.answer i .stop
  else if t.ready i then t.resume i
  else t.fetch (fun _ => false) i

end Fanout

def tee (ch : ItemChannel α ε) (calls : List (PumpCall α ε)) (pulls : List (Fin n)) :
    Fanout α ε n :=
  run Fanout.pull (.start (ch.iter calls)) pulls

-- The branches of `atee` also share a lock.
structure AsyncFanout (α ε : Type) (n : Nat) where
  fan : Fanout α ε n
  holder : Option (Fin n)
  waiting : Fin n → Bool

inductive BranchEvent (n : Nat) where
  | call (i : Fin n)
  | acquire (i : Fin n)
  | arrive
  deriving DecidableEq

namespace AsyncFanout

def start (source : Cursor α ε) : AsyncFanout α ε n := ⟨.start source, none, fun _ => false⟩

-- `__anext__` on a branch that is not running.
def call (i : Fin n) (t : AsyncFanout α ε n) : AsyncFanout α ε n :=
  if t.waiting i || t.holder = some i then t
  else if t.fan.finished i then { t with fan := t.fan.answer i .stop }
  else if t.fan.ready i then { t with fan := t.fan.resume i }
  else { t with waiting := update t.waiting i true }

def acquire (i : Fin n) (t : AsyncFanout α ε n) : AsyncFanout α ε n :=
  if t.waiting i && t.holder.isNone then
    if t.fan.ready i then
      { t with fan := t.fan.resume i, waiting := update t.waiting i false }
    else { t with holder := some i, waiting := update t.waiting i false }
  else t

-- The source's `__anext__` returns to the branch that holds the lock.
def arrive (isException : ε → Bool) (t : AsyncFanout α ε n) : AsyncFanout α ε n :=
  match t.holder with
  | some i => { t with fan := t.fan.fetch isException i, holder := none }
  | none => t

def step (isException : ε → Bool) (t : AsyncFanout α ε n) : BranchEvent n → AsyncFanout α ε n
  | .call i => t.call i
  | .acquire i => t.acquire i
  | .arrive => t.arrive isException

end AsyncFanout

def atee (isException : ε → Bool) (ch : ItemChannel α ε) (calls : List (PumpCall α ε))
    (events : List (BranchEvent n)) : AsyncFanout α ε n :=
  run (AsyncFanout.step isException) (.start (ch.iter calls)) events

inductive FanPhase (n : Nat) where
  | opened
  | ended
  | lost (first : Fin n)

-- How a branch's own answers end.
def FanPhase.endOf (ending : Option ε) : FanPhase n → Fin n → Option ε
  | .lost first, i => if i = first then ending else none
  | .opened, _ => ending
  | .ended, _ => ending

namespace Fanout

variable {items : List α} {ending : Option ε} {ends ends' : Fin n → Option ε}
  {stored : ε → Bool} {phase : FanPhase n} {taken : Nat} {t : Fanout α ε n} {i : Fin n}
  {source : Cursor α ε}

-- The branches have answered as single consumers would, from the items taken so far.
structure Copies (items : List α) (ends : Fin n → Option ε) (taken : Nat)
    (t : Fanout α ε n) : Prop where
  bound : taken ≤ items.length
  answers : ∀ i, t.answers i = single items (ends i) (t.answers i).length
  running : ∀ i, t.finished i = false → (t.answers i).length ≤ taken ∧
    t.buffers i = (items.take taken).drop (t.answers i).length
  passed : ∀ i, t.finished i = true → items.length < (t.answers i).length

def SourceIn (items : List α) (ending : Option ε) (stored : ε → Bool) (taken : Nat)
    (t : Fanout α ε n) : FanPhase n → Prop
  | .opened => t.source.ahead = (items.drop taken, ending) ∧ t.exhausted = false ∧
      t.error = none ∧ ∀ i, t.finished i = false
  | .ended => taken = items.length ∧ t.exhausted = true ∧ t.error = ending ∧
      ∀ err, ending = some err → stored err = true
  | .lost first => taken = items.length ∧ t.source.ahead = ([], none) ∧ t.error = none ∧
      t.finished first = true ∧ ∃ err, ending = some err ∧ stored err = false

def Follows (items : List α) (ending : Option ε) (stored : ε → Bool) (phase : FanPhase n)
    (taken : Nat) (t : Fanout α ε n) : Prop :=
  t.Copies items (phase.endOf ending) taken ∧ t.SourceIn items ending stored taken phase

theorem follows_start (stored : ε → Bool) (source : Cursor α ε) :
    Follows source.ahead.1 source.ahead.2 stored .opened 0 (start source : Fanout α ε n) :=
  ⟨⟨Nat.zero_le _, fun _ => rfl, fun _ _ => ⟨Nat.le_refl 0, rfl⟩, fun _ h => by cases h⟩,
    rfl, rfl, rfl, fun _ => rfl⟩

theorem length_answer (i j : Fin n) (outcome : Pulled α ε) (t : Fanout α ε n) :
    ((t.answer i outcome).answers j).length =
      if j = i then (t.answers j).length + 1 else (t.answers j).length := by
  unfold answer
  by_cases hj : j = i
  · subst hj
    simp
  · simp [hj]

theorem answers_answer {outcome : Pulled α ε}
    (h : ∀ j, t.answers j = single items (ends j) (t.answers j).length)
    (hout : outcome = answerAt items (ends i) (t.answers i).length) (j : Fin n) :
    (t.answer i outcome).answers j =
      single items (ends j) ((t.answer i outcome).answers j).length := by
  rw [length_answer]
  by_cases hj : j = i
  · subst hj
    rw [if_pos rfl, single_succ, ← h j, hout]
    exact update_self _ _ _
  · rw [if_neg hj, ← h j]
    exact update_of_ne hj _ _

theorem passed_answer {outcome : Pulled α ε}
    (h : ∀ j, t.finished j = true → items.length < (t.answers j).length) (j : Fin n)
    (hj : t.finished j = true) : items.length < ((t.answer i outcome).answers j).length := by
  have hover := h j hj
  rw [length_answer]
  split
  · omega
  · exact hover

theorem Copies.answer_stop (h : t.Copies items ends taken) (hfinished : t.finished i = true) :
    (t.answer i .stop).Copies items ends taken where
  bound := h.bound
  answers := answers_answer h.answers (answerAt_after (h.passed i hfinished)).symm
  running j hj := by
    have hne : j ≠ i := by
      rintro rfl
      exact absurd (hfinished.symm.trans hj) Bool.noConfusion
    rw [length_answer, if_neg hne]
    exact h.running j hj
  passed := passed_answer h.passed

theorem Copies.pop (h : t.Copies items ends taken) (hrunning : t.finished i = false) {item : α}
    {rest : List α} (hbuffer : t.buffers i = item :: rest) :
    ({ t with buffers := update t.buffers i rest }.answer i (.item item)).Copies items ends
      taken := by
  obtain ⟨hlength, hcopy⟩ := h.running i hrunning
  rw [hbuffer] at hcopy
  have hget : items[(t.answers i).length]? = some item ∧ (t.answers i).length < taken := by
    have hhead := congrArg List.head? hcopy
    rw [List.head?_cons, List.head?_drop, List.getElem?_take] at hhead
    split at hhead
    · exact ⟨hhead.symm, ‹_›⟩
    · cases hhead
  have hrest : rest = (items.take taken).drop ((t.answers i).length + 1) := by
    have htail := congrArg List.tail hcopy
    rwa [List.tail_cons, List.tail_drop] at htail
  refine ⟨h.bound, answers_answer h.answers (answerAt_item hget.1).symm, fun j hj => ?_, passed_answer h.passed⟩
  rw [length_answer]
  by_cases hne : j = i
  · subst hne
    rw [if_pos rfl]
    exact ⟨hget.2, (update_self _ _ _).trans hrest⟩
  · rw [if_neg hne]
    obtain ⟨hle, hsame⟩ := h.running j hj
    exact ⟨hle, (update_of_ne hne _ _).trans hsame⟩

theorem Copies.finish (h : t.Copies items ends taken)
    (hlength : (t.answers i).length = items.length) :
    (t.finish i (.ended (ends i))).Copies items ends taken := by
  have hout : Pulled.ended (ends i) = answerAt items (ends i) (t.answers i).length := by
    rw [hlength, answerAt_end]
  refine ⟨h.bound, answers_answer h.answers hout, fun j hj => ?_, fun j hj => ?_⟩
  · have hne : j ≠ i := by
      rintro rfl
      exact absurd ((update_self _ _ _).symm.trans hj) Bool.noConfusion
    have hrunning : t.finished j = false := (update_of_ne hne _ _).symm.trans hj
    change ((t.answer i _).answers j).length ≤ taken ∧ t.buffers j =
      (items.take taken).drop ((t.answer i _).answers j).length
    rw [length_answer, if_neg hne]
    exact h.running j hrunning
  · change items.length < ((t.answer i _).answers j).length
    by_cases hne : j = i
    · subst hne
      rw [length_answer, if_pos rfl]
      omega
    · exact passed_answer h.passed j ((update_of_ne hne _ _).symm.trans hj)

-- How a running branch is to end does not show in its answers.
theorem Copies.reend (h : t.Copies items ends taken) (hrunning : ∀ j, t.finished j = false) :
    t.Copies items ends' taken where
  bound := h.bound
  answers j := by
    have hle : (t.answers j).length ≤ items.length := (h.running j (hrunning j)).1.trans h.bound
    have hends : single items none (t.answers j).length = single items (ends j) (t.answers j).length :=
      single_none_iff.mpr (Or.inr hle)
    have hends' : single items none (t.answers j).length = single items (ends' j) (t.answers j).length :=
      single_none_iff.mpr (Or.inr hle)
    rw [← hends', hends]
    exact h.answers j
  running := h.running
  passed := h.passed

theorem Copies.distribute {item : α} (h : t.Copies items ends taken)
    (hget : items[taken]? = some item) :
    (t.distribute item).Copies items ends (taken + 1) where
  bound := (List.getElem?_eq_some_iff.mp hget).1
  answers := h.answers
  running j hj := by
    obtain ⟨hle, hcopy⟩ := h.running j hj
    have htake : items.take (taken + 1) = items.take taken ++ [item] := by
      rw [List.take_add_one, hget]
      rfl
    have hdrop : (t.answers j).length ≤ (items.take taken).length := by
      rwa [List.length_take_of_le h.bound]
    refine ⟨Nat.le_succ_of_le hle, ?_⟩
    change t.buffers j ++ [item] = _
    rw [htake, hcopy]
    exact (List.drop_append_of_le_length hdrop).symm
  passed := h.passed

theorem Copies.at_taken (h : t.Copies items ends taken) (hrunning : t.finished i = false)
    (hbuffer : t.buffers i = []) : (t.answers i).length = taken := by
  obtain ⟨hle, hcopy⟩ := h.running i hrunning
  rw [hbuffer] at hcopy
  have hlength := List.drop_eq_nil_iff.mp hcopy.symm
  rw [List.length_take_of_le h.bound] at hlength
  omega

theorem Follows.answer_stop (h : t.Follows items ending stored phase taken)
    (hfinished : t.finished i = true) :
    (t.answer i .stop).Follows items ending stored phase taken := by
  refine ⟨h.1.answer_stop hfinished, ?_⟩
  cases phase with
  | opened => exact h.2
  | ended => exact h.2
  | lost first => exact h.2

theorem Follows.resume (h : t.Follows items ending stored phase taken)
    (hrunning : t.finished i = false) (hready : t.ready i = true) :
    (t.resume i).Follows items ending stored phase taken := by
  obtain ⟨hcopies, hsource⟩ := h
  unfold Fanout.resume
  cases hbuffer : t.buffers i with
  | cons item rest =>
    refine ⟨hcopies.pop hrunning hbuffer, ?_⟩
    cases phase with
    | opened => exact hsource
    | ended => exact hsource
    | lost first => exact hsource
  | nil =>
    have hexhausted : t.exhausted = true := by
      simpa [ready, hbuffer] using hready
    have hlength := hcopies.at_taken hrunning hbuffer
    cases phase with
    | opened =>
      obtain ⟨-, hopen, -, -⟩ := hsource
      rw [hopen] at hexhausted
      cases hexhausted
    | ended =>
      obtain ⟨rfl, hend, herror, hstored⟩ := hsource
      have hfinish := hcopies.finish hlength
      rw [herror]
      exact ⟨hfinish, rfl, hend, herror, hstored⟩
    | lost first =>
      obtain ⟨rfl, hahead, herror, hfirst, hlost⟩ := hsource
      have hne : i ≠ first := by
        rintro rfl
        exact absurd (hfirst.symm.trans hrunning) Bool.noConfusion
      have hends : FanPhase.endOf ending (.lost first) i = none := if_neg hne
      have hfinish := hcopies.finish hlength
      rw [hends] at hfinish
      rw [herror]
      exact ⟨hfinish, rfl, hahead, herror, (update_of_ne hne.symm _ _).trans hfirst, hlost⟩

theorem Follows.fetch (h : t.Follows items ending stored phase taken)
    (hrunning : t.finished i = false) (hready : t.ready i = false) :
    ∃ phase' taken', (t.fetch stored i).Follows items ending stored phase' taken' := by
  obtain ⟨hcopies, hsource⟩ := h
  obtain ⟨hbuffer, hopen⟩ : t.buffers i = [] ∧ t.exhausted = false := by
    simpa [ready] using hready
  have hlength := hcopies.at_taken hrunning hbuffer
  have hsteps := t.source.steps_next
  unfold Fanout.fetch
  generalize t.source.next = r at hsteps ⊢
  obtain ⟨outcome, source⟩ := r
  cases phase with
  | ended =>
    obtain ⟨-, hend, -, -⟩ := hsource
    rw [hopen] at hend
    cases hend
  | opened =>
    obtain ⟨hahead, -, herror, hall⟩ := hsource
    cases hsteps with
    | item item source hnext =>
      rw [hahead] at hnext
      obtain ⟨hdrop, hsame⟩ := Prod.mk.inj hnext
      have hget : items[taken]? = some item := by
        have hhead := congrArg List.head? hdrop
        rwa [List.head?_drop] at hhead
      have htail : items.drop (taken + 1) = source.ahead.1 := by
        have htail := congrArg List.tail hdrop
        rwa [List.tail_drop] at htail
      have hcopied : ({ t with source := source } : Fanout α ε n).Copies items
          (FanPhase.endOf ending .opened) taken :=
        ⟨hcopies.bound, hcopies.answers, hcopies.running, hcopies.passed⟩
      refine ⟨.opened, taken + 1, Follows.resume ⟨hcopied.distribute hget, ?_⟩ hrunning ?_⟩
      · exact ⟨Prod.ext htail.symm hsame.symm, hopen, herror, hall⟩
      · simp [ready, Fanout.distribute, hbuffer]
    | ended err source hnext hafter =>
      rw [hahead] at hnext
      obtain ⟨hdrop, rfl⟩ := Prod.mk.inj hnext
      have htaken : taken = items.length := by
        have hle := List.drop_eq_nil_iff.mp hdrop
        have hbound := hcopies.bound
        omega
      subst htaken
      cases ending with
      | none =>
        refine ⟨.ended, items.length, Follows.resume ⟨?_, ?_⟩ hrunning (Bool.or_true _)⟩
        · exact ⟨hcopies.bound, hcopies.answers, hcopies.running, hcopies.passed⟩
        · exact ⟨rfl, rfl, herror, nofun⟩
      | some err =>
        change ∃ phase' taken', Follows items (some err) stored phase' taken'
          (if stored err = true then _ else _)
        cases hstored : stored err with
        | true =>
          refine ⟨.ended, items.length, Follows.resume ⟨?_, ?_⟩ hrunning (Bool.or_true _)⟩
          · exact ⟨hcopies.bound, hcopies.answers, hcopies.running, hcopies.passed⟩
          · refine ⟨rfl, rfl, rfl, fun e he => ?_⟩
            rwa [← Option.some.inj he]
        | false =>
          have hlost : ({ t with source := source } : Fanout α ε n).Copies items
              (FanPhase.endOf (some err) (.lost i)) items.length :=
            Copies.reend ⟨hcopies.bound, hcopies.answers, hcopies.running, hcopies.passed⟩ hall
          have hends : FanPhase.endOf (some err) (.lost i) i = some err := if_pos rfl
          have hfinish := hlost.finish hlength
          rw [hends] at hfinish
          exact ⟨.lost i, items.length, hfinish, rfl, hafter, herror, update_self _ _ _,
            err, rfl, hstored⟩
  | lost first =>
    obtain ⟨rfl, hahead, herror, hfirst, hlost⟩ := hsource
    cases hsteps with
    | item item source hnext =>
      rw [hahead] at hnext
      cases (Prod.mk.inj hnext).1
    | ended err source hnext hafter =>
      rw [hahead] at hnext
      obtain ⟨-, rfl⟩ := Prod.mk.inj hnext
      refine ⟨.lost first, items.length, Follows.resume ⟨?_, ?_⟩ hrunning ?_⟩
      · exact ⟨hcopies.bound, hcopies.answers, hcopies.running, hcopies.passed⟩
      · exact ⟨rfl, hafter, herror, hfirst, hlost⟩
      · exact Bool.or_true _

theorem Follows.answers_iff (h : t.Follows items ending stored phase taken) :
    (∀ i, t.answers i = single items ending (t.answers i).length) ↔
      ending = none ∨ (∃ err, ending = some err ∧ stored err = true) ∨
        ∀ i j, items.length < (t.answers i).length → items.length < (t.answers j).length →
          i = j := by
  obtain ⟨hcopies, hsource⟩ := h
  cases phase with
  | opened =>
    obtain ⟨-, -, -, hall⟩ := hsource
    refine iff_of_true hcopies.answers (Or.inr (Or.inr (fun i j hi _ => ?_)))
    have hle := (hcopies.running i (hall i)).1
    have hbound := hcopies.bound
    omega
  | ended =>
    obtain ⟨-, -, -, hstored⟩ := hsource
    refine iff_of_true hcopies.answers ?_
    cases ending with
    | none => exact Or.inl rfl
    | some err => exact Or.inr (Or.inl ⟨err, rfl, hstored err rfl⟩)
  | lost first =>
    obtain ⟨-, -, -, hfirst, err, rfl, hlost⟩ := hsource
    have hstops (i : Fin n) (hne : i ≠ first) :
        t.answers i = single items none (t.answers i).length := by
      have hends : FanPhase.endOf (some err) (.lost first) i = none := if_neg hne
      rw [← hends]
      exact hcopies.answers i
    constructor
    · intro h
      have honly (i : Fin n) (hover : items.length < (t.answers i).length) : i = first := by
        by_contra hne
        rcases single_none_iff.mp ((hstops i hne).symm.trans (h i)) with hnone | hle
        · cases hnone
        · omega
      exact Or.inr (Or.inr (fun i j hi hj => (honly i hi).trans (honly j hj).symm))
    · rintro (hnone | ⟨e, he, hstored⟩ | hone) i
      · cases hnone
      · rw [← Option.some.inj he, hlost] at hstored
        cases hstored
      · by_cases hne : i = first
        · have hends : FanPhase.endOf (some err) (.lost first) i = some err := if_pos hne
          rw [← hends]
          exact hcopies.answers i
        · have hle : (t.answers i).length ≤ items.length := by
            by_contra hover
            exact hne (hone i first (by omega) (hcopies.passed first hfirst))
          exact (hstops i hne).trans (single_none_iff.mpr (Or.inr hle))

theorem length_resume (i j : Fin n) (t : Fanout α ε n) :
    ((t.resume i).answers j).length =
      if j = i then (t.answers j).length + 1 else (t.answers j).length := by
  unfold resume
  split
  · exact length_answer i j _ _
  · exact length_answer i j _ _

theorem length_fetch (i j : Fin n) (stored : ε → Bool) (t : Fanout α ε n) :
    ((t.fetch stored i).answers j).length =
      if j = i then (t.answers j).length + 1 else (t.answers j).length := by
  unfold fetch
  split
  · exact length_resume i j _
  · exact length_resume i j _
  · split
    · exact length_resume i j _
    · exact length_answer i j _ _

theorem length_pull (i j : Fin n) (t : Fanout α ε n) :
    ((t.pull i).answers j).length =
      if j = i then (t.answers j).length + 1 else (t.answers j).length := by
  unfold pull
  split
  · exact length_answer i j _ _
  · split
    · exact length_resume i j _
    · exact length_fetch i j _ _

theorem Follows.pull (h : t.Follows items ending (fun _ => false) phase taken) (i : Fin n) :
    ∃ phase' taken', (t.pull i).Follows items ending (fun _ => false) phase' taken' := by
  unfold Fanout.pull
  cases hfinished : t.finished i with
  | true => exact ⟨phase, taken, h.answer_stop hfinished⟩
  | false =>
    cases hready : t.ready i with
    | true => exact ⟨phase, taken, h.resume hfinished hready⟩
    | false => exact h.fetch hfinished hready

theorem length_run (pulls : List (Fin n)) (i : Fin n) (t : Fanout α ε n) :
    ((run pull t pulls).answers i).length = (t.answers i).length + pulls.count i := by
  induction pulls generalizing t with
  | nil => rfl
  | cons j pulls ih =>
    rw [run_cons, ih, length_pull, List.count_cons]
    by_cases hj : i = j
    · subst hj
      simp
      omega
    · simp [hj, Ne.symm hj]

section Others

variable {j : Fin n}

theorem finished_resume (h : j ≠ i) (t : Fanout α ε n) :
    (t.resume i).finished j = t.finished j := by
  unfold resume
  split
  · rfl
  · exact update_of_ne h _ _

theorem ready_resume (h : j ≠ i) (t : Fanout α ε n) : (t.resume i).ready j = t.ready j := by
  unfold resume
  split
  · exact congrArg (fun buffer : List α => !buffer.isEmpty || t.exhausted) (update_of_ne h _ _)
  · rfl

theorem finished_fetch (h : j ≠ i) (stored : ε → Bool) (t : Fanout α ε n) :
    (t.fetch stored i).finished j = t.finished j := by
  unfold fetch
  split
  · exact finished_resume h _
  · exact finished_resume h _
  · split
    · exact finished_resume h _
    · exact update_of_ne h _ _

end Others

end Fanout

namespace AsyncFanout

variable {items : List α} {ending : Option ε} {isException : ε → Bool} {t : AsyncFanout α ε n}

-- A branch that waits is running, and the one that fetches has nothing to go on.
structure Sound (items : List α) (ending : Option ε) (isException : ε → Bool)
    (t : AsyncFanout α ε n) : Prop where
  follows : ∃ phase taken, t.fan.Follows items ending isException phase taken
  waiting : ∀ i, t.waiting i = true → t.fan.finished i = false
  holder : ∀ i, t.holder = some i →
    t.fan.finished i = false ∧ t.fan.ready i = false ∧ t.waiting i = false

theorem sound_start (isException : ε → Bool) (source : Cursor α ε) :
    Sound source.ahead.1 source.ahead.2 isException (start source : AsyncFanout α ε n) where
  follows := ⟨.opened, 0, Fanout.follows_start isException source⟩
  waiting _ h := by cases h
  holder _ h := by cases h

theorem Sound.call (h : t.Sound items ending isException) (i : Fin n) :
    (t.call i).Sound items ending isException := by
  unfold AsyncFanout.call
  split
  · exact h
  · rename_i hidle
    obtain ⟨hwaiting, hholder⟩ : t.waiting i = false ∧ t.holder ≠ some i := by
      simpa using hidle
    obtain ⟨phase, taken, hfollows⟩ := h.follows
    split
    · rename_i hfinished
      exact ⟨⟨phase, taken, hfollows.answer_stop hfinished⟩, h.waiting, h.holder⟩
    · rename_i hrunning
      have hrunning : t.fan.finished i = false := Bool.eq_false_iff.mpr hrunning
      split
      · rename_i hready
        refine ⟨⟨phase, taken, hfollows.resume hrunning hready⟩, fun j hj => ?_, fun j hj => ?_⟩
        · have hne : j ≠ i := by
            rintro rfl
            exact absurd (hwaiting.symm.trans hj) Bool.noConfusion
          exact (Fanout.finished_resume hne _).trans (h.waiting j hj)
        · have hne : j ≠ i := by
            rintro rfl
            exact hholder hj
          obtain ⟨hfinished, hstarved, hnot⟩ := h.holder j hj
          exact ⟨(Fanout.finished_resume hne _).trans hfinished,
            (Fanout.ready_resume hne _).trans hstarved, hnot⟩
      · refine ⟨⟨phase, taken, hfollows⟩, fun j hj => ?_, fun j hj => ?_⟩
        · by_cases hne : j = i
          · rw [hne]
            exact hrunning
          · exact h.waiting j ((update_of_ne hne _ _).symm.trans hj)
        · obtain ⟨hfinished, hstarved, hnot⟩ := h.holder j hj
          have hne : j ≠ i := by
            rintro rfl
            exact hholder hj
          exact ⟨hfinished, hstarved, (update_of_ne hne _ _).trans hnot⟩

theorem Sound.acquire (h : t.Sound items ending isException) (i : Fin n) :
    (t.acquire i).Sound items ending isException := by
  unfold AsyncFanout.acquire
  split
  · rename_i hfree
    obtain ⟨hwaiting, hholder⟩ : t.waiting i = true ∧ t.holder = none := by
      simpa using hfree
    have hrunning := h.waiting i hwaiting
    obtain ⟨phase, taken, hfollows⟩ := h.follows
    have hothers (j : Fin n) (hj : update t.waiting i false j = true) :
        j ≠ i ∧ t.waiting j = true := by
      by_cases hne : j = i
      · subst hne
        rw [update_self] at hj
        cases hj
      · exact ⟨hne, (update_of_ne hne _ _).symm.trans hj⟩
    split
    · rename_i hready
      refine ⟨⟨phase, taken, hfollows.resume hrunning hready⟩, fun j hj => ?_, fun j hj => ?_⟩
      · obtain ⟨hne, hj⟩ := hothers j hj
        exact (Fanout.finished_resume hne _).trans (h.waiting j hj)
      · cases hholder.symm.trans hj
    · rename_i hstarved
      refine ⟨⟨phase, taken, hfollows⟩, fun j hj => h.waiting j (hothers j hj).2, fun j hj => ?_⟩
      obtain rfl := Option.some.inj hj
      exact ⟨hrunning, Bool.eq_false_iff.mpr hstarved, update_self _ _ _⟩
  · exact h

theorem Sound.arrive (h : t.Sound items ending isException) :
    (t.arrive isException).Sound items ending isException := by
  unfold AsyncFanout.arrive
  split
  · rename_i i hholder
    obtain ⟨hrunning, hstarved, hnot⟩ := h.holder i hholder
    obtain ⟨phase, taken, hfollows⟩ := h.follows
    refine ⟨hfollows.fetch hrunning hstarved, fun j hj => ?_, nofun⟩
    have hne : j ≠ i := by
      rintro rfl
      exact absurd (hnot.symm.trans hj) Bool.noConfusion
    exact (Fanout.finished_fetch hne isException _).trans (h.waiting j hj)
  · exact h

theorem Sound.step (h : t.Sound items ending isException) (event : BranchEvent n) :
    (t.step isException event).Sound items ending isException := by
  cases event with
  | call i => exact h.call i
  | acquire i => exact h.acquire i
  | arrive => exact h.arrive

end AsyncFanout

end Stream

end LangGraph

import LangGraph.Pregel.Reraise

namespace LangGraph

open Collections Transition

section Occurrences

variable {α ι : Type} [DecidableEq ι] {f : α → List ι}

theorem count_flatMap_cons (d : α) (ds : List α) (i : ι) :
    ((d :: ds).flatMap f).count i = (f d).count i + (ds.flatMap f).count i := by
  rw [List.flatMap_cons, List.count_append]

theorem count_flatMap_pos {ds : List α} {d : α} {i : ι} (hd : d ∈ ds) (hi : i ∈ f d) :
    0 < (ds.flatMap f).count i :=
  List.count_pos_iff.mpr (List.mem_flatMap.mpr ⟨d, hd, hi⟩)

theorem count_flatMap_eq_one_iff {ds : List α} (h : ds.Nodup) (i : ι) :
    (ds.flatMap f).count i = 1 ↔
      ∃ d ∈ ds, (f d).count i = 1 ∧ ∀ d' ∈ ds, i ∈ f d' → d' = d := by
  induction ds with
  | nil => simp
  | cons d ds ih =>
    obtain ⟨hd, hds⟩ := List.nodup_cons.mp h
    rw [count_flatMap_cons]
    constructor
    · intro hone
      rcases Nat.eq_zero_or_pos ((f d).count i) with hzero | hpos
      · obtain ⟨c, hc, hcount, honly⟩ := (ih hds).mp (by omega)
        refine ⟨c, List.mem_cons_of_mem d hc, hcount, fun d' hd' hi => ?_⟩
        rcases List.mem_cons.mp hd' with rfl | hd'
        · exact absurd hi (List.count_eq_zero.mp hzero)
        · exact honly d' hd' hi
      · refine ⟨d, List.mem_cons_self, by omega, fun d' hd' hi => ?_⟩
        rcases List.mem_cons.mp hd' with rfl | hd'
        · rfl
        · have hrest := count_flatMap_pos hd' hi
          omega
    · rintro ⟨c, hc, hcount, honly⟩
      rcases List.mem_cons.mp hc with rfl | hc
      · have hrest : (ds.flatMap f).count i = 0 := by
          rw [List.count_eq_zero, List.mem_flatMap]
          rintro ⟨d', hd', hi⟩
          exact hd (honly d' (List.mem_cons_of_mem c hd') hi ▸ hd')
        omega
      · have hfirst : (f d).count i = 0 := by
          rw [List.count_eq_zero]
          intro hi
          exact hd (honly d List.mem_cons_self hi ▸ hc)
        have hone := (ih hds).mpr
          ⟨c, hc, hcount, fun d' hd' => honly d' (List.mem_cons_of_mem d hd')⟩
        omega

end Occurrences

section Collected

variable {handledFutures skipReraise handledExceptionIds : Finset Nat}

def collected (handledFutures handledExceptionIds : Finset Nat) (d : FinishedFuture) :
    Option RaisedException :=
  match d.exception with
  | none => none
  | some e =>
      if d.future ∈ handledFutures ∨ e.id ∈ handledExceptionIds then none
      else if e.isGraphInterrupt then some e else none

theorem collected_some {d : FinishedFuture} {e : RaisedException}
    (h : collected handledFutures handledExceptionIds d = some e) :
    d.exception = some e ∧ e.isGraphInterrupt = true := by
  cases hd : d.exception with
  | none =>
    rw [collected, hd] at h
    cases h
  | some e' =>
    rw [collected, hd] at h
    simp only at h
    split_ifs at h with _ hi
    obtain rfl := Option.some.inj h
    exact ⟨rfl, hi⟩

def proceed (inflight : Bool) (interrupts : List RaisedException) : RunnerResult :=
  if interrupts = [] then (if inflight then .timedOut else .returned) else .interrupted interrupts

theorem panic_collects {ds : List FinishedFuture} {inflight : Bool}
    (h : ∀ d ∈ ds, ∀ e, ¬ Escapes handledFutures skipReraise handledExceptionIds d e)
    (interrupts : List RaisedException) :
    panicOrProceed handledFutures skipReraise handledExceptionIds inflight ds interrupts =
      proceed inflight
        (interrupts ++ ds.filterMap (collected handledFutures handledExceptionIds)) := by
  induction ds generalizing interrupts with
  | nil =>
    rw [List.filterMap_nil, List.append_nil]
    cases interrupts <;> rfl
  | cons d ds ih =>
    have hrest := ih (fun d' hd' => h d' (List.mem_cons_of_mem d hd'))
    rw [List.filterMap_cons]
    cases he : d.exception with
    | none =>
      have hnone : collected handledFutures handledExceptionIds d = none := by rw [collected, he]
      rw [panicOrProceed, he, hnone]
      exact hrest interrupts
    | some e =>
      rw [panicOrProceed, collected, he]
      simp only
      by_cases hhandled : d.future ∈ handledFutures ∨ e.id ∈ handledExceptionIds
      · rw [if_pos hhandled, if_pos hhandled]
        exact hrest interrupts
      · rw [if_neg hhandled, if_neg hhandled]
        cases hi : e.isGraphInterrupt with
        | true =>
          simp only [if_true]
          rw [hrest, List.append_assoc, List.singleton_append]
        | false =>
          obtain ⟨hfuture, hid⟩ := not_or.mp hhandled
          have hskip : ¬ d.future ∉ skipReraise :=
            fun hs => h d List.mem_cons_self e ⟨he, hi, hfuture, hs, hid⟩
          simp only [hskip, Bool.false_eq_true, if_false]
          exact hrest interrupts

end Collected

variable {ι : Type} [DecidableEq ι] (interrupts : Nat → List ι)

-- `interrupts` gives the `args[0]` of the exception object.
def interruptsOf (raised : List RaisedException) : List ι :=
  raised.flatMap (fun e => interrupts e.object)

def RunnerResult.report : RunnerResult → Option (List ι)
  | .interrupted es => some (interruptsOf interrupts es)
  | .raised e => if e.isGraphInterrupt then some (interruptsOf interrupts [e]) else none
  | .returned => some []
  | .timedOut => some []

def ReportedOnce (raised : List RaisedException) (result : RunnerResult) : Prop :=
  ∀ report, result.report interrupts = some report →
    ∀ i, report.count i = if i ∈ interruptsOf interrupts raised then 1 else 0

def carriedInterrupts (handledFutures handledExceptionIds : Finset Nat) (d : FinishedFuture) :
    List ι :=
  interruptsOf interrupts (collected handledFutures handledExceptionIds d).toList

def CarriedOnce (handledFutures handledExceptionIds : Finset Nat) (done : List FinishedFuture)
    (raised : List RaisedException) : Prop :=
  ∀ i ∈ interruptsOf interrupts raised,
    ∃ d ∈ done, (carriedInterrupts interrupts handledFutures handledExceptionIds d).count i = 1 ∧
      ∀ d' ∈ done, i ∈ carriedInterrupts interrupts handledFutures handledExceptionIds d' → d' = d

section Report

variable {interrupts} {handledFutures handledExceptionIds : Finset Nat}

omit [DecidableEq ι] in
theorem interruptsOf_collected (ds : List FinishedFuture) :
    interruptsOf interrupts (ds.filterMap (collected handledFutures handledExceptionIds)) =
      ds.flatMap (carriedInterrupts interrupts handledFutures handledExceptionIds) := by
  induction ds with
  | nil => rfl
  | cons d ds ih =>
    rw [List.filterMap_cons, List.flatMap_cons, carriedInterrupts]
    cases hd : collected handledFutures handledExceptionIds d with
    | none =>
      rw [← ih]
      rfl
    | some e =>
      rw [← ih]
      simp [interruptsOf]

omit [DecidableEq ι] in
theorem carried_raised {ds : List FinishedFuture} {raised : List RaisedException}
    (h : ∀ d ∈ ds, ∀ e, d.exception = some e → e.isGraphInterrupt = true → e ∈ raised)
    {d : FinishedFuture} (hd : d ∈ ds) {i : ι}
    (hi : i ∈ carriedInterrupts interrupts handledFutures handledExceptionIds d) :
    i ∈ interruptsOf interrupts raised := by
  obtain ⟨e, he, hie⟩ := List.mem_flatMap.mp hi
  obtain ⟨hexc, hinterrupt⟩ := collected_some (Option.mem_toList.mp he)
  exact List.mem_flatMap.mpr ⟨e, h d hd e hexc hinterrupt, hie⟩

theorem carriedOnce_iff {ds : List FinishedFuture} {raised : List RaisedException}
    (hnodup : ds.Nodup)
    (h : ∀ d ∈ ds, ∀ e, d.exception = some e → e.isGraphInterrupt = true → e ∈ raised) :
    (∀ i, (ds.flatMap (carriedInterrupts interrupts handledFutures handledExceptionIds)).count i =
        if i ∈ interruptsOf interrupts raised then 1 else 0) ↔
      CarriedOnce interrupts handledFutures handledExceptionIds ds raised := by
  constructor
  · intro hcount i hi
    have hone := hcount i
    rw [if_pos hi] at hone
    exact (count_flatMap_eq_one_iff hnodup i).mp hone
  · intro honce i
    by_cases hi : i ∈ interruptsOf interrupts raised
    · rw [if_pos hi]
      exact (count_flatMap_eq_one_iff hnodup i).mpr (honce i hi)
    · rw [if_neg hi, List.count_eq_zero, List.mem_flatMap]
      rintro ⟨d, hd, hid⟩
      exact hi (carried_raised h hd hid)

theorem reportedOnce_iff {raised : List RaisedException} {result : RunnerResult} {report : List ι}
    (h : result.report interrupts = some report) :
    ReportedOnce interrupts raised result ↔
      ∀ i, report.count i = if i ∈ interruptsOf interrupts raised then 1 else 0 := by
  constructor
  · exact fun hr => hr report h
  · intro hr report' h'
    obtain rfl := Option.some.inj (h.symm.trans h')
    exact hr

theorem reportedOnce_of_none {raised : List RaisedException} {result : RunnerResult}
    (h : result.report interrupts = none) : ReportedOnce interrupts raised result := by
  intro report h'
  rw [h] at h'
  cases h'

theorem reportedOnce_nothing {result : RunnerResult} (h : result.report interrupts = some []) :
    ReportedOnce interrupts [] result := by
  rw [reportedOnce_iff h]
  exact fun _ => rfl

omit [DecidableEq ι] in
theorem report_proceed (inflight : Bool) (es : List RaisedException) :
    (proceed inflight es).report interrupts = some (interruptsOf interrupts es) := by
  cases es with
  | nil => cases inflight <;> rfl
  | cons e es => rfl

end Report

namespace RunnerState

variable {handlers : NodeErrorHandlerMap} {s : RunnerState}

section Interrupt

theorem commit_interrupt (s : RunnerState) (name : String) {e : RaisedException}
    (h : e.isGraphInterrupt = true) : s.commit handlers name (some e) = s := by
  have hkind : e.kind ≠ .error := by
    intro hk
    rw [RaisedException.isGraphInterrupt, hk] at h
    exact absurd h (by decide)
  simp [commit, h, hkind]

theorem routed_interrupt (name : String) {e : RaisedException} (h : e.isGraphInterrupt = true) :
    routed handlers name e = false := by
  have hbubble : e.isGraphBubbleUp = true := by
    rw [RaisedException.isGraphBubbleUp, Bool.or_eq_true]
    exact Or.inl h
  rw [routed, hbubble, Bool.not_true, Bool.and_false]

theorem caught_interrupt (s : RunnerState) (name : String) {e : RaisedException}
    (h : e.isGraphInterrupt = true) : s.caught handlers name e = s := by
  have hrouted := @routed_interrupt handlers name e h
  simp only [caught, hrouted, Bool.false_eq_true, if_false]
  exact commit_interrupt s name h

theorem single_interrupt (s : RunnerState) (name : String) {e : RaisedException}
    (h : e.isGraphInterrupt = true) (failure : Nat) (handler : Option (Nat × String)) :
    s.single handlers name (some e) failure handler =
      if s.futures.items = [] then
        s.endTick (if e.id ∈ s.handledExceptionIds then .returned else .raised e)
      else if e.id ∈ s.handledExceptionIds then s
      else { s with done := s.done ++ [⟨failure, some e⟩] } := by
  have hkind : e.kind ≠ .cancelledError := by
    intro hk
    rw [RaisedException.isGraphInterrupt, hk] at h
    exact absurd h (by decide)
  have hrouted := @routed_interrupt handlers name e h
  have hcaught := @caught_interrupt handlers s name e h
  simp only [single, hkind, if_false, hrouted, Bool.false_and, hcaught, Bool.false_eq_true]
  by_cases hf : s.futures.items = []
  · simp only [hf, ne_eq, not_true_eq_false, if_false, if_true]
    by_cases hid : e.id ∈ s.handledExceptionIds
    · simp only [hid, not_true_eq_false, if_false, if_true]
    · simp only [hid, not_false_eq_true, if_true, if_false]
  · simp only [hf, ne_eq, not_false_eq_true, if_true, if_false]
    by_cases hid : e.id ∈ s.handledExceptionIds
    · simp only [hid, not_true_eq_false, if_false, if_true]
      rfl
    · simp only [hid, not_false_eq_true, if_true, if_false]
      rfl

end Interrupt

theorem caught_done (s : RunnerState) (name : String) (e : RaisedException) :
    (s.caught handlers name e).done = s.done := by
  rw [caught]
  split_ifs
  · exact commit_done handlers s name (some e)
  · exact commit_done handlers s name (some e)

theorem caught_ticking (s : RunnerState) (name : String) (e : RaisedException) :
    (s.caught handlers name e).ticking = s.ticking := by
  rw [caught]
  split_ifs
  · rfl
  · rfl

theorem single_cases (s : RunnerState) (name : String) (e : RaisedException) (failure : Nat)
    (handler : Option (Nat × String)) :
    ∃ s' : RunnerState, s'.done = s.done ∧ s'.ticking = s.ticking ∧ s'.futures = s.futures ∧
      (s.single handlers name (some e) failure handler = s'.endTick (.raised e) ∨
        (s.futures.items = [] ∧
          s.single handlers name (some e) failure handler = s'.endTick .returned) ∨
        (∃ next, s.single handlers name (some e) failure handler = s'.schedule next) ∨
        ∃ next, s.single handlers name (some e) failure handler =
          schedule next { s' with done := s'.done ++ [⟨failure, some e⟩] }) := by
  have hfutures := @caught_futures handlers s name e
  by_cases hc : e.kind = .cancelledError
  · refine ⟨s.commit handlers name (some e), commit_done handlers s name _, rfl,
      commit_futures handlers s name _, Or.inl ?_⟩
    rw [single, if_pos hc]
  · refine ⟨s.caught handlers name e, caught_done s name e, caught_ticking s name e, hfutures, ?_⟩
    rw [single, if_neg hc]
    simp only [hfutures]
    by_cases hf : s.futures.items = []
    · rw [if_neg (not_not.mpr hf)]
      by_cases hid : e.id ∉ (s.caught handlers name e).handledExceptionIds
      · rw [if_pos hid]
        exact Or.inl rfl
      · rw [if_neg hid]
        by_cases hscheduled : (routed handlers name e && handler.isSome) = true
        · rw [if_pos hscheduled]
          exact Or.inr (Or.inr (Or.inl ⟨handler, rfl⟩))
        · rw [if_neg hscheduled]
          exact Or.inr (Or.inl ⟨hf, rfl⟩)
    · rw [if_pos hf]
      by_cases hid : e.id ∉ (s.caught handlers name e).handledExceptionIds
      · rw [if_pos hid]
        exact Or.inr (Or.inr (Or.inr ⟨_, rfl⟩))
      · rw [if_neg hid]
        exact Or.inr (Or.inr (Or.inl ⟨_, rfl⟩))

theorem schedule_done (s : RunnerState) (handler : Option (Nat × String)) :
    (s.schedule handler).done = s.done := by
  cases handler <;> rfl

theorem schedule_ticking (s : RunnerState) (handler : Option (Nat × String)) :
    (s.schedule handler).ticking = s.ticking := by
  cases handler <;> rfl

theorem schedule_futures (h : s.futures.items ≠ []) (handler : Option (Nat × String)) :
    (s.schedule handler).futures.items ≠ [] := by
  cases handler with
  | none => exact h
  | some next => exact items_set_ne_nil s.futures next.1 next.2

end RunnerState

-- `raised` holds the GraphInterrupts with which the tasks of the tick ended.
structure InterruptTick where
  runner : RunnerState
  raised : List RaisedException

namespace InterruptTick

variable (handlers : NodeErrorHandlerMap)

def raisedBy (s : RunnerState) : RunnerEvent → List RaisedException
  | .single _ exception failure handler =>
      if s.unreaped ∧ s.fresh failure ∧ s.freshHandler handler ∧
          handler.map Prod.fst ≠ some failure then
        (exception.filter RaisedException.isGraphInterrupt).toList
      else []
  | .finish future exception =>
      if (s.futures.get? future).isSome ∧ s.exceptionOf future = none then
        (exception.filter RaisedException.isGraphInterrupt).toList
      else []
  | _ => []

def step (t : InterruptTick) (event : RunnerEvent) : InterruptTick where
  runner := t.runner.step handlers event
  raised :=
    match event, t.runner.ticking with
    | .start, false => []
    | _, false => t.raised
    | _, true => t.raised ++ raisedBy t.runner event

def idle : InterruptTick := ⟨.idle, []⟩

def Reported (t : InterruptTick) : Prop :=
  t.runner.ticking = false →
    ∀ o ∈ t.runner.outcomes.getLast?, ReportedOnce interrupts t.raised o.result

def Contained (done : List FinishedFuture) (raised : List RaisedException) : Prop :=
  ∀ d ∈ done, ∀ e, d.exception = some e → e.isGraphInterrupt = true → e ∈ raised

def CarriesOnce (t : InterruptTick) : RunnerEvent → Prop
  | .single _ exception failure handler =>
      t.runner.ticking = true →
        t.runner.unreaped ∧ t.runner.fresh failure ∧ t.runner.freshHandler handler ∧
          handler.map Prod.fst ≠ some failure →
        t.runner.futures.items = [] → ∀ e, exception = some e → e.isGraphInterrupt = true →
          CarriedOnce interrupts t.runner.handledFutures t.runner.handledExceptionIds
            [⟨failure, some e⟩] [e]
  | .panic order =>
      t.runner.ticking = true → order.Perm t.runner.done →
        (∀ d ∈ t.runner.done, ∀ e, ¬ Escapes t.runner.handledFutures t.runner.skipReraise
          t.runner.handledExceptionIds d e) →
        CarriedOnce interrupts t.runner.handledFutures t.runner.handledExceptionIds t.runner.done
          t.raised
  | _ => True

variable {interrupts} {handlers} {t : InterruptTick}

theorem contained_append {done : List FinishedFuture} {raised : List RaisedException}
    (h : Contained done raised) (future : Nat) (exception : Option RaisedException) :
    Contained (done ++ [⟨future, exception⟩])
      (raised ++ (exception.filter RaisedException.isGraphInterrupt).toList) := by
  intro d hd e he hi
  rcases List.mem_append.mp hd with hd | hd
  · exact List.mem_append_left _ (h d hd e he hi)
  · rw [List.mem_singleton.mp hd] at he
    have hexc : exception = some e := he
    refine List.mem_append_right _ ?_
    rw [hexc, Option.filter_some_pos hi]
    exact List.mem_singleton.mpr rfl

theorem contained_mono {done : List FinishedFuture} {raised : List RaisedException}
    (h : Contained done raised) (more : List RaisedException) : Contained done (raised ++ more) :=
  fun d hd e he hi => List.mem_append_left _ (h d hd e he hi)

theorem filter_interrupt {e : RaisedException} (h : e.isGraphInterrupt = true) :
    ((some e).filter RaisedException.isGraphInterrupt).toList = [e] := by
  rw [Option.filter_some_pos h]
  rfl

theorem filter_other {e : RaisedException} (h : e.isGraphInterrupt = false) :
    ((some e).filter RaisedException.isGraphInterrupt).toList = [] := by
  rw [Option.filter_some_neg (by rw [h])]
  rfl

-- What one tick still owes while it runs; nothing is owed once it has ended.
def Pending (s : RunnerState) (raised : List RaisedException) : Prop :=
  Contained s.done raised ∧
    (s.ticking = true → raised ≠ [] → s.futures.items ≠ [] ∨ s.done ≠ [])

theorem pending_endTick {s : RunnerState} {raised : List RaisedException}
    (h : Contained s.done raised) (result : RunnerResult) : Pending (s.endTick result) raised :=
  ⟨h, fun ht => absurd ht Bool.false_ne_true⟩

theorem pending_single {s : RunnerState} {raised : List RaisedException} (h : Pending s raised)
    (ht : s.ticking = true) (name : String) (exception : Option RaisedException) (failure : Nat)
    (handler : Option (Nat × String)) :
    Pending (s.single handlers name exception failure handler)
      (raised ++ (exception.filter RaisedException.isGraphInterrupt).toList) := by
  obtain ⟨hcontained, hwaiting⟩ := h
  cases exception with
  | none =>
    rw [Option.filter_none, Option.toList_none, List.append_nil, RunnerState.single_none]
    split_ifs
    · exact pending_endTick hcontained _
    · exact ⟨hcontained, hwaiting⟩
  | some e =>
    cases hi : e.isGraphInterrupt with
    | true =>
      rw [RunnerState.single_interrupt s name hi]
      by_cases hf : s.futures.items = []
      · rw [if_pos hf]
        exact pending_endTick (contained_mono hcontained _) _
      · rw [if_neg hf]
        split_ifs
        · exact ⟨contained_mono hcontained _, fun _ _ => Or.inl hf⟩
        · exact ⟨contained_append hcontained failure (some e), fun _ _ => Or.inl hf⟩
    | false =>
      have hmore := contained_append hcontained failure (some e)
      rw [filter_other hi, List.append_nil] at hmore ⊢
      obtain ⟨s', hdone, hticking, hfutures, hcases⟩ :=
        @RunnerState.single_cases handlers s name e failure handler
      rcases hcases with hraise | ⟨-, hreturn⟩ | ⟨next, hnext⟩ | ⟨next, hnext⟩
      · rw [hraise]
        exact pending_endTick (hdone ▸ hcontained) _
      · rw [hreturn]
        exact pending_endTick (hdone ▸ hcontained) _
      · rw [hnext]
        refine ⟨by rw [RunnerState.schedule_done, hdone]; exact hcontained, fun _ hne => ?_⟩
        rcases hwaiting ht hne with hf | hd
        · exact Or.inl (RunnerState.schedule_futures (hfutures ▸ hf) next)
        · rw [RunnerState.schedule_done, hdone]
          exact Or.inr hd
      · rw [hnext]
        refine ⟨?_, fun _ _ => Or.inr ?_⟩
        · rw [RunnerState.schedule_done, hdone]
          exact hmore
        · rw [RunnerState.schedule_done]
          exact List.append_ne_nil_of_right_ne_nil _ (List.cons_ne_nil _ _)

theorem pending_step {s : RunnerState} {raised : List RaisedException} (h : Pending s raised)
    (ht : s.ticking = true) (event : RunnerEvent) :
    Pending (s.step handlers event) (raised ++ raisedBy s event) := by
  cases event with
  | start =>
    simp only [RunnerState.step, ht, raisedBy, List.append_nil]
    exact h
  | single name exception failure handler =>
    simp only [RunnerState.step, ht, raisedBy]
    split_ifs
    · exact pending_single h ht name exception failure handler
    · rwa [List.append_nil]
  | submit future name =>
    simp only [RunnerState.step, ht, raisedBy, List.append_nil]
    split_ifs
    · exact ⟨h.1, fun _ _ => Or.inl (RunnerState.items_set_ne_nil _ _ _)⟩
    · exact h
  | call future name =>
    simp only [RunnerState.step, ht, raisedBy, List.append_nil]
    split_ifs
    · exact ⟨h.1, fun _ _ => Or.inl (RunnerState.items_set_ne_nil _ _ _)⟩
    · exact h
  | finish future exception =>
    simp only [RunnerState.step, ht, raisedBy]
    cases hget : s.futures.get? future with
    | none => simpa using h
    | some name =>
      cases hexc : s.exceptionOf future with
      | some exception' => simpa using h
      | none =>
        simp only [Option.isSome_some, true_and, if_true]
        exact ⟨contained_append h.1 future exception,
          fun _ _ => Or.inr (List.append_ne_nil_of_right_ne_nil _ (List.cons_ne_nil _ _))⟩
  | reap future handler =>
    simp only [RunnerState.step, ht, raisedBy, List.append_nil]
    cases hget : s.futures.get? future with
    | none => exact h
    | some name =>
      cases hexc : s.exceptionOf future with
      | none => exact h
      | some exception =>
        simp only
        split_ifs
        · refine ⟨?_, fun _ _ => Or.inr ?_⟩
          · rw [RunnerState.done_reap]
            exact h.1
          · rw [RunnerState.done_reap]
            intro hnil
            have hmem := RunnerState.exceptionOf_mem hexc
            rw [hnil] at hmem
            cases hmem
        · exact h
  | panic order =>
    simp only [RunnerState.step, ht, raisedBy, List.append_nil]
    split_ifs
    · exact pending_endTick h.1 _
    · exact h

structure Owing (t : InterruptTick) : Prop where
  coherent : t.runner.Coherent
  pending : Pending t.runner t.raised

theorem owing_step (h : t.Owing) (event : RunnerEvent) : (t.step handlers event).Owing := by
  refine ⟨RunnerState.coherent_step h.coherent event, ?_⟩
  cases ht : t.runner.ticking with
  | true =>
    have hpending := @pending_step handlers _ _ h.pending ht event
    cases event <;> simpa only [step, ht] using hpending
  | false =>
    cases event with
    | start =>
      simp only [step, RunnerState.step, ht]
      exact ⟨fun d hd => absurd hd List.not_mem_nil, fun _ hne => absurd rfl hne⟩
    | single | submit | call | finish | reap | panic =>
      simp only [step, RunnerState.step, ht]
      exact h.pending

theorem reported_ticking (h : t.runner.ticking = true) : t.Reported interrupts := by
  intro hf
  rw [h] at hf
  cases hf

theorem reported_endTick_iff (s : RunnerState) (result : RunnerResult)
    (raised : List RaisedException) :
    Reported interrupts ⟨s.endTick result, raised⟩ ↔ ReportedOnce interrupts raised result := by
  have hlast : (s.endTick result).outcomes.getLast? = some ⟨s.exceptions, s.unhandled, result⟩ :=
    List.getLast?_concat
  constructor
  · exact fun h => h rfl _ hlast
  · intro h _ o ho
    obtain rfl := Option.some.inj (hlast.symm.trans ho)
    exact h

theorem raised_nil {s : RunnerState} {raised : List RaisedException} (h : Pending s raised)
    (ht : s.ticking = true) (hu : s.unreaped = true) (hf : s.futures.items = []) :
    raised = [] := by
  by_contra hne
  rcases h.2 ht hne with hf' | hd
  · exact hf' hf
  · obtain ⟨d, hd⟩ := List.exists_mem_of_ne_nil _ hd
    have hmem := of_decide_eq_true (List.all_eq_true.mp hu d hd)
    rw [Dict.keys, hf] at hmem
    cases hmem

omit [DecidableEq ι] in
theorem report_single {s : RunnerState} {e : RaisedException} (hi : e.isGraphInterrupt = true)
    {failure : Nat} (hfresh : s.fresh failure = true) :
    (if e.id ∈ s.handledExceptionIds then RunnerResult.returned else .raised e).report interrupts =
      some (([⟨failure, some e⟩] : List FinishedFuture).flatMap
        (carriedInterrupts interrupts s.handledFutures s.handledExceptionIds)) := by
  simp only [RunnerState.fresh, Bool.and_eq_true, decide_eq_true_eq] at hfresh
  have hfuture := hfresh.2
  by_cases hid : e.id ∈ s.handledExceptionIds
  · simp [hid, RunnerResult.report, carriedInterrupts, collected, interruptsOf]
  · simp [hid, hi, hfuture, RunnerResult.report, carriedInterrupts, collected, interruptsOf]

theorem reported_single_iff {s : RunnerState} {raised : List RaisedException}
    (h : Pending s raised) (ht : s.ticking = true) (hu : s.unreaped = true) (name : String)
    (exception : Option RaisedException) {failure : Nat} (hfresh : s.fresh failure = true)
    (handler : Option (Nat × String)) :
    Reported interrupts ⟨s.single handlers name exception failure handler,
        raised ++ (exception.filter RaisedException.isGraphInterrupt).toList⟩ ↔
      (s.futures.items = [] → ∀ e, exception = some e → e.isGraphInterrupt = true →
        CarriedOnce interrupts s.handledFutures s.handledExceptionIds [⟨failure, some e⟩] [e]) := by
  have hnil := raised_nil h ht hu
  cases exception with
  | none =>
    refine ⟨fun _ _ e he => (by cases he), fun _ => ?_⟩
    rw [Option.filter_none, Option.toList_none, List.append_nil, RunnerState.single_none]
    by_cases hf : s.futures.items = []
    · rw [if_pos hf, reported_endTick_iff, hnil hf]
      exact reportedOnce_nothing rfl
    · rw [if_neg hf]
      exact reported_ticking ht
  | some e =>
    cases hi : e.isGraphInterrupt with
    | true =>
      rw [filter_interrupt hi, RunnerState.single_interrupt s name hi]
      by_cases hf : s.futures.items = []
      · have hcontained : Contained [⟨failure, some e⟩] [e] := by
          intro d hd e' he' _
          rw [List.mem_singleton.mp hd] at he'
          rw [← Option.some.inj he']
          exact List.mem_singleton.mpr rfl
        rw [if_pos hf, reported_endTick_iff, hnil hf, List.nil_append,
          reportedOnce_iff (report_single hi hfresh),
          carriedOnce_iff (List.nodup_singleton _) hcontained]
        constructor
        · intro honce _ e' he' _
          rwa [← Option.some.inj he']
        · exact fun honce => honce hf e rfl hi
      · rw [if_neg hf]
        refine ⟨fun _ hf' => absurd hf' hf, fun _ => ?_⟩
        split_ifs
        · exact reported_ticking ht
        · exact reported_ticking ht
    | false =>
      refine ⟨fun _ _ e' he' hi' => ?_, fun _ => ?_⟩
      · rw [← Option.some.inj he', hi] at hi'
        cases hi'
      · rw [filter_other hi, List.append_nil]
        obtain ⟨s', -, hticking, -, hcases⟩ :=
          @RunnerState.single_cases handlers s name e failure handler
        rcases hcases with hraise | ⟨hf, hreturn⟩ | ⟨next, hnext⟩ | ⟨next, hnext⟩
        · rw [hraise, reported_endTick_iff]
          refine reportedOnce_of_none ?_
          rw [RunnerResult.report, hi]
          rfl
        · rw [hreturn, reported_endTick_iff, hnil hf]
          exact reportedOnce_nothing rfl
        · rw [hnext]
          exact reported_ticking ((RunnerState.schedule_ticking s' next).trans (hticking.trans ht))
        · rw [hnext]
          exact reported_ticking ((RunnerState.schedule_ticking _ next).trans (hticking.trans ht))

theorem reported_panic_iff {s : RunnerState} {raised : List RaisedException}
    (htracked : s.Tracked) (hcontained : Contained s.done raised) {order : List FinishedFuture}
    (hp : order.Perm s.done) :
    Reported interrupts ⟨s.panic order, raised⟩ ↔
      ((∀ d ∈ s.done, ∀ e,
          ¬ Escapes s.handledFutures s.skipReraise s.handledExceptionIds d e) →
        CarriedOnce interrupts s.handledFutures s.handledExceptionIds s.done raised) := by
  rw [RunnerState.panic, reported_endTick_iff]
  by_cases hescapes : ∃ d ∈ s.done, ∃ e,
      Escapes s.handledFutures s.skipReraise s.handledExceptionIds d e
  · obtain ⟨d, hd, e, he⟩ := hescapes
    obtain ⟨e', hr⟩ := @panic_raises _ _ _ _ (s.futures.keys.any
      (fun f => f ∉ s.done.map FinishedFuture.future)) _ _ (hp.mem_iff.mpr hd) he []
    obtain ⟨d', -, -, hi, -⟩ := panic_raised hr
    refine ⟨fun _ hno => absurd he (hno d hd e), fun _ => reportedOnce_of_none ?_⟩
    rw [hr, RunnerResult.report, hi]
    rfl
  · have hno : ∀ d ∈ s.done, ∀ e,
        ¬ Escapes s.handledFutures s.skipReraise s.handledExceptionIds d e :=
      fun d hd e he => hescapes ⟨d, hd, e, he⟩
    have hnodup : s.done.Nodup := List.Nodup.of_map _ htracked.nodup
    have hperm (i : ι) :
        (order.flatMap
            (carriedInterrupts interrupts s.handledFutures s.handledExceptionIds)).count i =
          (s.done.flatMap
            (carriedInterrupts interrupts s.handledFutures s.handledExceptionIds)).count i :=
      (hp.flatMap_right _).count_eq i
    rw [imp_iff_right hno, panic_collects (fun d hd => hno d (hp.mem_iff.mp hd)), List.nil_append,
      reportedOnce_iff (report_proceed _ _), interruptsOf_collected,
      ← carriedOnce_iff hnodup hcontained]
    simp only [hperm]

theorem ticking_reap (s : RunnerState) (future : Nat) (name : String)
    (exception : Option RaisedException) (handler : Option (Nat × String)) :
    (s.reap handlers future name exception handler).ticking = s.ticking := by
  cases exception with
  | none => rfl
  | some e =>
    simp only [RunnerState.reap]
    split_ifs
    · exact RunnerState.schedule_ticking _ handler
    · rfl

theorem reported_step_iff (h : t.Owing) (hr : t.Reported interrupts) (event : RunnerEvent) :
    (t.step handlers event).Reported interrupts ↔ t.CarriesOnce interrupts event := by
  obtain ⟨⟨htracked, -⟩, hpending⟩ := h
  have hsame (hstep : (t.runner.step handlers event).ticking = true) :
      (t.step handlers event).Reported interrupts := reported_ticking hstep
  cases ht : t.runner.ticking with
  | false =>
    cases event with
    | start => exact ⟨fun _ => trivial, fun _ => hsame (by simp only [RunnerState.step, ht]; rfl)⟩
    | single | panic =>
      refine ⟨fun _ ht' => absurd (ht.symm.trans ht') Bool.false_ne_true, fun _ => ?_⟩
      simpa only [step, RunnerState.step, ht] using hr
    | submit | call | finish | reap =>
      refine ⟨fun _ => trivial, fun _ => ?_⟩
      simpa only [step, RunnerState.step, ht] using hr
  | true =>
    cases event with
    | start => exact ⟨fun _ => trivial, fun _ => hsame (by simp only [RunnerState.step, ht])⟩
    | single name exception failure handler =>
      simp only [step, RunnerState.step, ht, raisedBy, CarriesOnce, true_imp_iff]
      by_cases hg : t.runner.unreaped ∧ t.runner.fresh failure ∧ t.runner.freshHandler handler ∧
          handler.map Prod.fst ≠ some failure
      · rw [if_pos hg, if_pos hg, imp_iff_right hg]
        exact reported_single_iff hpending ht hg.1 name exception hg.2.1 handler
      · rw [if_neg hg, if_neg hg]
        exact ⟨fun _ hg' => absurd hg' hg, fun _ => reported_ticking ht⟩
    | submit future name =>
      refine ⟨fun _ => trivial, fun _ => hsame ?_⟩
      simp only [RunnerState.step, ht]
      split_ifs <;> exact ht
    | call future name =>
      refine ⟨fun _ => trivial, fun _ => hsame ?_⟩
      simp only [RunnerState.step, ht]
      split_ifs <;> exact ht
    | finish future exception =>
      refine ⟨fun _ => trivial, fun _ => hsame ?_⟩
      simp only [RunnerState.step, ht]
      split
      · cases exception <;> exact ht
      · exact ht
    | reap future handler =>
      refine ⟨fun _ => trivial, fun _ => hsame ?_⟩
      simp only [RunnerState.step, ht]
      split
      · split_ifs
        · exact (ticking_reap _ _ _ _ handler).trans ht
        · exact ht
      · exact ht
    | panic order =>
      simp only [step, RunnerState.step, ht, raisedBy, CarriesOnce, true_imp_iff, List.append_nil]
      by_cases hp : order.Perm t.runner.done
      · rw [if_pos hp, imp_iff_right hp]
        exact reported_panic_iff htracked hpending.1 hp
      · rw [if_neg hp]
        exact ⟨fun _ hp' => absurd hp' hp, fun _ => reported_ticking ht⟩

theorem owing_idle : idle.Owing :=
  ⟨RunnerState.coherent_idle, fun d hd => absurd hd List.not_mem_nil,
    fun ht => absurd ht (by decide)⟩

-- The interrupt of a `call` task is raised into the task that made the call.
def childInterrupt : RaisedException := ⟨0, 7, .graphInterrupt⟩

def callEvents : List RunnerEvent :=
  [.start, .submit 0 "parent", .call 1 "child", .finish 1 (some childInterrupt), .reap 1 none,
    .finish 0 (some childInterrupt), .reap 0 none,
    .panic [⟨1, some childInterrupt⟩, ⟨0, some childInterrupt⟩]]

end InterruptTick

end LangGraph

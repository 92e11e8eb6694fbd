import LangGraph.Sdk.Controller

namespace LangGraph

open Transition

namespace Sdk

namespace ServerLog

variable {log : ServerLog} {x y : LogEvent}

theorem eq_of_id (hx : x ∈ log.events) (hy : y ∈ log.events) (h : x.eventId = y.eventId) :
    x = y :=
  List.inj_on_of_nodup_map log.distinct hx hy h

theorem head_first {events rest : List LogEvent}
    (h : events.Pairwise (fun x y => x.seq < y.seq)) (he : events = x :: rest)
    (hy : y ∈ events) : y = x ∨ x.seq < y.seq := by
  subst he
  rcases List.mem_cons.mp hy with rfl | hy
  · exact .inl rfl
  · exact .inr ((List.pairwise_cons.mp h).1 y hy)

end ServerLog

namespace StreamHandle

variable {log : ServerLog} {h : StreamHandle} {x y : LogEvent}

theorem mem_remaining : x ∈ h.remaining log ↔
    x ∈ log.events ∧ past h.last x.seq = true ∧ matchesSubscription x.event h.filter = true := by
  simp [remaining]

theorem remaining_first {rest : List LogEvent} (hr : h.remaining log = x :: rest)
    (hy : y ∈ h.remaining log) (hne : y ≠ x) : x.seq < y.seq := by
  have hsorted : (h.remaining log).Pairwise (fun x y => x.seq < y.seq) :=
    log.increasing.filter _
  rcases ServerLog.head_first hsorted hr hy with rfl | hlt
  · exact absurd rfl hne
  · exact hlt

end StreamHandle

theorem Subscription.mem_expected {log : ServerLog} {u : Subscription} {x : LogEvent} :
    x ∈ u.expected log ↔ x ∈ log.events ∧ past u.start x.seq = true ∧ u.wants x = true := by
  simp [Subscription.expected]

-- A prefix of the expected events grows to a prefix when the event after it arrives.
theorem delivered_grows {log : ServerLog} {u : Subscription} {x : LogEvent}
    (hinit : u.delivered <+: u.expected log) (hx : x ∈ u.expected log)
    (hnew : x ∉ u.received) (hold : ∀ y ∈ u.expected log, y.seq < x.seq → y ∈ u.received) :
    u.delivered ++ [x] <+: u.expected log := by
  obtain ⟨rest, hrest⟩ := hinit
  have hsorted : (u.expected log).Pairwise (fun x y => x.seq < y.seq) :=
    log.increasing.filter _
  have hdelivered : x ∉ u.delivered := fun h => hnew (List.mem_filter.mp h).1
  have hrestmem : x ∈ rest := by
    rw [← hrest] at hx
    exact (List.mem_append.mp hx).resolve_left hdelivered
  cases rest with
  | nil => cases hrestmem
  | cons z zs =>
    have hz : z ∈ u.expected log := by simp [← hrest]
    rw [← hrest] at hsorted
    have hpair := List.pairwise_append.mp hsorted
    have hzx : z = x := by
      rcases List.mem_cons.mp hrestmem with rfl | hlater
      · rfl
      · have hlt : z.seq < x.seq := (List.pairwise_cons.mp hpair.2.1).1 x hlater
        have hzold : z ∈ u.received := hold z hz hlt
        have hzpast : past u.start z.seq = true := (Subscription.mem_expected.mp hz).2.1
        have hzin : z ∈ u.delivered := List.mem_filter.mpr ⟨hzold, hzpast⟩
        have hself : z.seq < z.seq := hpair.2.2 z hzin z List.mem_cons_self
        omega
    subst hzx
    exact ⟨zs, by rw [← hrest, List.append_assoc, List.singleton_append]⟩

namespace StreamController

def Live (s : StreamController) (i : Nat) (h : StreamHandle) : Prop :=
  s.handles[i]? = some h ∧ h.status.alive = true

def Leaving (s : StreamController) (i : Nat) : Prop :=
  i ∈ s.rotationCloseTasks ∨ ∃ o ∈ s.openings, o.old = some i

structure Delivers (cfg : ControllerConfig) (s : StreamController) : Prop where
  inOrder : ∀ u ∈ s.subscriptions, u.delivered <+: u.expected cfg.log
  toCome : ∀ u ∈ s.subscriptions, ∀ i h, s.sharedStream = some i → s.Live i h →
    ∀ x, u.missing cfg.log x → x ∈ h.remaining cfg.log
  reached : ∀ u ∈ s.subscriptions, ∀ i h, s.fanout = .consuming i → s.Live i h →
    s.Leaving i ∨ ∀ x, u.missing cfg.log x → x ∈ h.remaining cfg.log
  reading : ∀ i h, s.fanout = .awaiting i → ¬ s.Live i h
  told : ∀ u ∈ s.subscriptions, s.fanout = .idle → u.ended = true ∨ ∃ o ∈ s.openings, o.sub = u.id
  uncut : ∀ u ∈ s.subscriptions, u.cut = false

structure Supplied (cfg : ControllerConfig) (s : StreamController) (u : Subscription) : Prop where
  inOrder : u.delivered <+: u.expected cfg.log
  known : ∀ x ∈ u.received, x ∈ cfg.log.events ∧ x.eventId ∈ s.consumed
  kept : ∀ x ∈ u.expected cfg.log, x.eventId ∈ s.consumed → x ∈ u.received
  toCome : ∀ i h, s.sharedStream = some i → s.Live i h →
    ∀ x, u.missing cfg.log x → x ∈ h.remaining cfg.log
  unread : ∀ i h, s.fanout = .consuming i → s.Live i h → ∀ x, u.missing cfg.log x →
    matchesSubscription x.event h.filter = true → past h.last x.seq = true
  reached : ∀ i h, s.fanout = .consuming i → s.Live i h →
    s.Leaving i ∨ ∀ x, u.missing cfg.log x → x ∈ h.remaining cfg.log
  uncut : u.cut = false

structure Tracked (cfg : ControllerConfig) (s : StreamController) : Prop where
  sharedBound : ∀ i, s.sharedStream = some i → i < s.handles.length
  consumedBound : ∀ i, s.fanout = .consuming i → i < s.handles.length
  awaitedBound : ∀ i, s.fanout = .awaiting i → i < s.handles.length
  openedBound : ∀ base n i, s.fanout = .reconnecting base n (some i) → i < s.handles.length
  openingBound : ∀ o ∈ s.openings, o.handle < s.handles.length
  openingEq : ∀ o ∈ s.openings, ∀ o' ∈ s.openings, o.handle = o'.handle → o = o'
  started : s.sharedStream = none → s.fanout = .idle ∧ s.openings = []
  behind : ∀ i h, s.Live i h → ∀ q, past s.cursor q = true → past h.last q = true
  applied : ∀ x ∈ cfg.log.events, x.eventId ∈ s.consumed → past s.cursor x.seq = false
  seenConsumed : ∀ e ∈ s.seenEventIds, e ∈ s.consumed
  reading : ∀ i h, s.fanout = .awaiting i → ¬ s.Live i h

structure Serving (cfg : ControllerConfig) (s : StreamController) : Prop where
  tracked : Tracked cfg s
  supplied : ∀ u ∈ s.subscriptions, Supplied cfg s u

def Told (s : StreamController) : Prop :=
  s.fanout = .idle → ∀ u ∈ s.subscriptions, u.ended = true ∨ ∃ o ∈ s.openings, o.sub = u.id

theorem Serving.delivers {cfg : ControllerConfig} {s : StreamController} (h : Serving cfg s)
    (htold : s.Told) : Delivers cfg s where
  inOrder u hu := (h.supplied u hu).inOrder
  toCome u hu := (h.supplied u hu).toCome
  reached u hu := (h.supplied u hu).reached
  reading := h.tracked.reading
  told u hu hidle := htold hidle u hu
  uncut u hu := (h.supplied u hu).uncut

theorem serving_init (cfg : ControllerConfig) : Serving cfg init where
  tracked := {
    sharedBound := fun i h => by cases h
    consumedBound := fun i h => by cases h
    awaitedBound := fun i h => by cases h
    openedBound := fun base n i h => by cases h
    openingBound := List.forall_mem_nil _
    openingEq := List.forall_mem_nil _
    started := fun _ => ⟨rfl, rfl⟩
    behind := fun i h hlive => by cases hlive.1
    applied := fun x _ h => by cases h
    seenConsumed := List.forall_mem_nil _
    reading := fun i h hi => by cases hi }
  supplied := List.forall_mem_nil _

theorem told_of_busy {s : StreamController} (h : s.fanout ≠ .idle) : s.Told :=
  fun hidle => absurd hidle h

section Handles

variable {cfg : ControllerConfig} {s : StreamController} {hs : List StreamHandle} {i : Nat}

structure Calm (s : StreamController) (hs : List StreamHandle) : Prop where
  length : hs.length = s.handles.length
  alive : ∀ i h, hs[i]? = some h → h.status.alive = true →
    ∃ h', s.Live i h' ∧ h.filter = h'.filter ∧ h.last = h'.last

theorem Calm.remaining {log : ServerLog} {h h' : StreamHandle} (hf : h.filter = h'.filter)
    (hl : h.last = h'.last) : h.remaining log = h'.remaining log := by
  simp only [StreamHandle.remaining, hf, hl]

theorem Tracked.ofHandles (h : Tracked cfg s) (hc : s.Calm hs) :
    Tracked cfg { s with handles := hs } where
  sharedBound i hi := by simpa [hc.length] using h.sharedBound i hi
  consumedBound i hi := by simpa [hc.length] using h.consumedBound i hi
  awaitedBound i hi := by simpa [hc.length] using h.awaitedBound i hi
  openedBound base n i hi := by simpa [hc.length] using h.openedBound base n i hi
  openingBound o ho := by simpa [hc.length] using h.openingBound o ho
  openingEq := h.openingEq
  started := h.started
  behind i hd hlive q hq := by
    obtain ⟨hd', hlive', -, hlast⟩ := hc.alive i hd hlive.1 hlive.2
    rw [hlast]
    exact h.behind i hd' hlive' q hq
  applied := h.applied
  seenConsumed := h.seenConsumed
  reading i hd hi hlive := by
    obtain ⟨hd', hlive', -⟩ := hc.alive i hd hlive.1 hlive.2
    exact h.reading i hd' hi hlive'

theorem Supplied.ofHandles {u : Subscription} (h : Supplied cfg s u) (hc : s.Calm hs) :
    Supplied cfg { s with handles := hs } u where
  inOrder := h.inOrder
  known := h.known
  kept := h.kept
  toCome i hd hi hlive x hx := by
    obtain ⟨hd', hlive', hf, hl⟩ := hc.alive i hd hlive.1 hlive.2
    rw [Calm.remaining hf hl]
    exact h.toCome i hd' hi hlive' x hx
  unread i hd hi hlive x hx := by
    obtain ⟨hd', hlive', hf, hl⟩ := hc.alive i hd hlive.1 hlive.2
    rw [hf, hl]
    exact h.unread i hd' hi hlive' x hx
  reached i hd hi hlive := by
    obtain ⟨hd', hlive', hf, hl⟩ := hc.alive i hd hlive.1 hlive.2
    rw [Calm.remaining hf hl]
    exact h.reached i hd' hi hlive'
  uncut := h.uncut

theorem Serving.ofHandles (h : Serving cfg s) (hc : s.Calm hs) :
    Serving cfg { s with handles := hs } :=
  ⟨h.tracked.ofHandles hc, fun u hu => (h.supplied u hu).ofHandles hc⟩

theorem getElem_modify {f : StreamHandle → StreamHandle} {j : Nat} {h : StreamHandle}
    (hj : (s.handles.modify i f)[j]? = some h) :
    ∃ h', s.handles[j]? = some h' ∧ (j ≠ i ∧ h = h' ∨ j = i ∧ h = f h') := by
  rw [List.getElem?_modify] at hj
  cases hget : s.handles[j]? with
  | none =>
    rw [hget] at hj
    simp at hj
  | some h' =>
    rw [hget] at hj
    refine ⟨h', rfl, ?_⟩
    rcases eq_or_ne i j with rfl | hne
    · have heq : f h' = h := by simpa using hj
      exact .inr ⟨rfl, heq.symm⟩
    · have heq : h' = h := by simpa [hne] using hj
      exact .inl ⟨hne.symm, heq.symm⟩

theorem calm_modify {f : StreamHandle → StreamHandle}
    (hf : ∀ h, s.handles[i]? = some h → (f h).status.alive = true →
      h.status.alive = true ∧ (f h).filter = h.filter ∧ (f h).last = h.last) :
    s.Calm (s.handles.modify i f) where
  length := List.length_modify _ _ _
  alive j h hj halive := by
    obtain ⟨h', hget, ⟨-, rfl⟩ | ⟨rfl, rfl⟩⟩ := getElem_modify hj
    · exact ⟨h, ⟨hget, halive⟩, rfl, rfl⟩
    · obtain ⟨halive', hfilter, hlast⟩ := hf h' hget halive
      exact ⟨h', ⟨hget, halive'⟩, hfilter, hlast⟩

theorem statusOf_eq {h : StreamHandle} (hget : s.handles[i]? = some h) :
    s.statusOf i = some h.status := by
  simp [statusOf, hget]

theorem Serving.setStatus {status : StreamStatus} (h : Serving cfg s)
    (hs : status.alive = true → s.statusOf i = some .connecting) :
    Serving cfg (s.setStatus i status) := by
  refine h.ofHandles (calm_modify fun hd hget halive => ⟨?_, rfl, rfl⟩)
  have hstatus : some hd.status = some .connecting := (statusOf_eq hget).symm.trans (hs halive)
  rw [Option.some.inj hstatus]
  rfl

theorem Serving.closeHandle (h : Serving cfg s) : Serving cfg (s.closeHandle i) := by
  refine h.ofHandles (calm_modify fun hd _ halive => ?_)
  by_cases hlive : hd.status.alive = true
  · rw [if_pos hlive] at halive
    cases halive
  · rw [if_neg hlive] at halive ⊢
    exact ⟨halive, rfl, rfl⟩

theorem not_live_closeHandle {h : StreamHandle} : ¬ (s.closeHandle i).Live i h := by
  rintro ⟨hget, halive⟩
  obtain ⟨h', -, ⟨hne, -⟩ | ⟨-, rfl⟩⟩ := getElem_modify hget
  · exact hne rfl
  · by_cases hlive : h'.status.alive = true
    · rw [if_pos hlive] at halive
      cases halive
    · rw [if_neg hlive] at halive
      exact hlive halive

end Handles

section Phases

variable {cfg : ControllerConfig} {s : StreamController} {i : Nat}

theorem Serving.consuming (h : Serving cfg s) (hs : s.sharedStream = some i) :
    Serving cfg { s with fanout := .consuming i } where
  tracked := { h.tracked with
    consumedBound := fun j hj => by
      cases hj
      exact h.tracked.sharedBound i hs
    awaitedBound := fun j hj => by cases hj
    openedBound := fun base n j hj => by cases hj
    started := fun hnone => by
      have hnone : s.sharedStream = none := hnone
      rw [hs] at hnone
      cases hnone
    reading := fun j hd hj => by cases hj }
  supplied u hu := {
    inOrder := (h.supplied u hu).inOrder
    known := (h.supplied u hu).known
    kept := (h.supplied u hu).kept
    toCome := (h.supplied u hu).toCome
    unread := fun j hd hj hlive x hx _ => by
      cases hj
      exact (StreamHandle.mem_remaining.mp ((h.supplied u hu).toCome i hd hs hlive x hx)).2.1
    reached := fun j hd hj hlive => by
      cases hj
      exact .inr ((h.supplied u hu).toCome i hd hs hlive)
    uncut := (h.supplied u hu).uncut }

-- A phase in which nothing is read.
theorem Serving.resting (h : Serving cfg s) {phase : FanoutPhase}
    (hconsuming : ∀ j, phase ≠ .consuming j)
    (hawaited : ∀ j, phase = .awaiting j → j < s.handles.length ∧ ∀ hd, ¬ s.Live j hd)
    (hopened : ∀ base n j, phase = .reconnecting base n (some j) → j < s.handles.length)
    (hstarted : s.sharedStream = none → phase = .idle) :
    Serving cfg { s with fanout := phase } where
  tracked := { h.tracked with
    consumedBound := fun j hj => absurd hj (hconsuming j)
    awaitedBound := fun j hj => (hawaited j hj).1
    openedBound := hopened
    started := fun hnone => ⟨hstarted hnone, (h.tracked.started hnone).2⟩
    reading := fun j hd hj => (hawaited j hj).2 hd }
  supplied u hu := { h.supplied u hu with
    unread := fun j _ hj => absurd hj (hconsuming j)
    reached := fun j _ hj => absurd hj (hconsuming j) }

theorem Tracked.shared_of_busy (h : Tracked cfg s) (hbusy : s.fanout ≠ .idle) :
    ∃ i, s.sharedStream = some i := by
  cases hs : s.sharedStream with
  | none => exact absurd (h.started hs).1 hbusy
  | some i => exact ⟨i, rfl⟩

theorem ensureFanoutRunning_cases (hs : s.sharedStream = some i) :
    (s.fanout = .idle ∧ s.ensureFanoutRunning = { s with fanout := .consuming i }) ∨
      s.fanout ≠ .idle ∧ s.ensureFanoutRunning = s := by
  cases hf : s.fanout with
  | idle => simp [ensureFanoutRunning, hf, hs]
  | consuming j => simp [ensureFanoutRunning, hf]
  | awaiting j => simp [ensureFanoutRunning, hf]
  | reconnecting base n opened => simp [ensureFanoutRunning, hf]

theorem Serving.ensureFanoutRunning (h : Serving cfg s) (hs : s.sharedStream = some i) :
    Serving cfg s.ensureFanoutRunning := by
  rcases ensureFanoutRunning_cases hs with ⟨-, heq⟩ | ⟨-, heq⟩
  · rw [heq]
    exact h.consuming hs
  · rw [heq]
    exact h

theorem busy_ensureFanoutRunning (hs : s.sharedStream = some i) :
    s.ensureFanoutRunning.fanout ≠ .idle := by
  rcases ensureFanoutRunning_cases hs with ⟨-, heq⟩ | ⟨hbusy, heq⟩
  · rw [heq]
    simp
  · rw [heq]
    exact hbusy

theorem leaveHandle_cases (hs : s.sharedStream = some i) (j : Nat) :
    s.leaveHandle j = { s with fanout := if i = j then .awaiting j else .consuming i } := by
  rcases eq_or_ne i j with rfl | hne
  · simp [leaveHandle, hs]
  · simp [leaveHandle, hs, hne]

theorem Serving.leaveHandle (h : Serving cfg s) (hs : s.sharedStream = some i) {j : Nat}
    (hdead : ∀ hd, ¬ s.Live j hd) : Serving cfg (s.leaveHandle j) := by
  rw [leaveHandle_cases hs]
  rcases eq_or_ne i j with rfl | hne
  · rw [if_pos rfl]
    refine h.resting (fun j hj => by cases hj) (fun j hj => ?_) (fun _ _ j hj => by cases hj) ?_
    · cases hj
      exact ⟨h.tracked.sharedBound i hs, hdead⟩
    · intro hnone
      rw [hs] at hnone
      cases hnone
  · rw [if_neg hne]
    exact h.consuming hs

end Phases

end StreamController

end Sdk

end LangGraph

import LangGraph.Sdk.Reconnect
import LangGraph.Sdk.UnionFilter

namespace LangGraph

open Transition

namespace Sdk

namespace StreamController

section Reading

variable {cfg : ControllerConfig} {s : StreamController} {i : Nat} {hd : StreamHandle}
  {x : LogEvent} {rest : List LogEvent}

-- The event `x` is the next one on the stream being read.
structure Next (cfg : ControllerConfig) (s : StreamController) (i : Nat) (hd : StreamHandle)
    (x : LogEvent) (rest : List LogEvent) : Prop where
  phase : s.fanout = .consuming i
  live : s.Live i hd
  first : hd.remaining cfg.log = x :: rest

theorem nextEvent_some (h : s.nextEvent cfg = some (i, hd, x)) :
    ∃ rest, s.Next cfg i hd x rest := by
  simp only [nextEvent] at h
  split at h
  · rename_i j hf
    split at h
    · rename_i hd' hget
      split at h
      · rename_i hready
        obtain ⟨y, hy, heq⟩ := Option.map_eq_some_iff.mp h
        cases heq
        cases hr : hd.remaining cfg.log with
        | nil =>
          rw [hr] at hy
          cases hy
        | cons z zs =>
          rw [hr] at hy
          cases hy
          exact ⟨zs, hf, ⟨hget, by rw [hready]; rfl⟩, hr⟩
      · cases h
    · cases h
  · cases h

theorem Next.mem (hn : s.Next cfg i hd x rest) : x ∈ hd.remaining cfg.log := by
  rw [hn.first]
  exact List.mem_cons_self

theorem Next.mem_log (hn : s.Next cfg i hd x rest) : x ∈ cfg.log.events :=
  (StreamHandle.mem_remaining.mp hn.mem).1

def advance (i : Nat) (x : LogEvent) (s : StreamController) : StreamController :=
  { s with handles := s.handles.modify i (fun h => { h with last := some x.seq }) }

theorem live_advance {j : Nat} {h : StreamHandle} (hlive : (s.advance i x).Live j h) :
    ∃ h', s.Live j h' ∧ (j ≠ i ∧ h = h' ∨ j = i ∧ h = { h' with last := some x.seq }) := by
  obtain ⟨h', hget, hcases⟩ := getElem_modify hlive.1
  refine ⟨h', ⟨hget, ?_⟩, hcases⟩
  rcases hcases with ⟨-, rfl⟩ | ⟨-, rfl⟩
  · exact hlive.2
  · exact hlive.2

theorem Next.later (hn : s.Next cfg i hd x rest) {y : LogEvent} (hy : y ∈ hd.remaining cfg.log)
    (hne : y ≠ x) : y ∈ { hd with last := some x.seq : StreamHandle }.remaining cfg.log := by
  have hlt : x.seq < y.seq := StreamHandle.remaining_first hn.first hy hne
  obtain ⟨hlog, -, hmatch⟩ := StreamHandle.mem_remaining.mp hy
  exact StreamHandle.mem_remaining.mpr ⟨hlog, by simpa [past] using hlt, hmatch⟩

theorem Next.handle (hn : s.Next cfg i hd x rest) {h : StreamHandle} (hlive : s.Live i h) :
    h = hd :=
  Option.some.inj (hlive.1.symm.trans hn.live.1)

theorem Tracked.advance (h : Tracked cfg s) (hpast : past s.cursor x.seq = false) :
    Tracked cfg (s.advance i x) where
  sharedBound j hj := by simpa [StreamController.advance] using h.sharedBound j hj
  consumedBound j hj := by simpa [StreamController.advance] using h.consumedBound j hj
  awaitedBound j hj := by simpa [StreamController.advance] using h.awaitedBound j hj
  openedBound base n j hj := by simpa [StreamController.advance] using h.openedBound base n j hj
  openingBound o ho := by simpa [StreamController.advance] using h.openingBound o ho
  openingEq := h.openingEq
  started := h.started
  behind j hd hlive q hq := by
    obtain ⟨h', hlive', ⟨-, rfl⟩ | ⟨-, rfl⟩⟩ := live_advance hlive
    · exact h.behind j hd hlive' q hq
    · have hq : past s.cursor q = true := hq
      cases hc : s.cursor with
      | none =>
        rw [hc] at hpast
        cases hpast
      | some c =>
        rw [hc] at hpast hq
        simp only [past, decide_eq_false_iff_not, decide_eq_true_eq] at hpast hq ⊢
        omega
  applied := h.applied
  seenConsumed := h.seenConsumed
  reading j hd hj hlive := by
    obtain ⟨h', hlive', -⟩ := live_advance hlive
    exact h.reading j h' hj hlive'

theorem Supplied.advance {u : Subscription} (h : Supplied cfg s u)
    (hn : s.Next cfg i hd x rest) (hx : ¬ u.missing cfg.log x) :
    Supplied cfg (s.advance i x) u where
  inOrder := h.inOrder
  known := h.known
  kept := h.kept
  toCome j h' hj hlive y hy := by
    have hne : y ≠ x := fun heq => hx (heq ▸ hy)
    obtain ⟨h'', hlive', ⟨-, rfl⟩ | ⟨rfl, rfl⟩⟩ := live_advance hlive
    · exact h.toCome j h' hj hlive' y hy
    · have hmem : y ∈ h''.remaining cfg.log := h.toCome j h'' hj hlive' y hy
      cases hn.handle hlive'
      exact hn.later hmem hne
  unread j h' hj hlive y hy hmatch := by
    have hne : y ≠ x := fun heq => hx (heq ▸ hy)
    obtain ⟨h'', hlive', ⟨-, rfl⟩ | ⟨rfl, rfl⟩⟩ := live_advance hlive
    · exact h.unread j h' hj hlive' y hy hmatch
    · have hpast : past h''.last y.seq = true := h.unread j h'' hj hlive' y hy hmatch
      cases hn.handle hlive'
      have hlog : y ∈ cfg.log.events := (Subscription.mem_expected.mp hy.1).1
      have hmem : y ∈ hd.remaining cfg.log :=
        StreamHandle.mem_remaining.mpr ⟨hlog, hpast, hmatch⟩
      exact (StreamHandle.mem_remaining.mp (hn.later hmem hne)).2.1
  reached j h' hj hlive := by
    obtain ⟨h'', hlive', ⟨-, rfl⟩ | ⟨rfl, rfl⟩⟩ := live_advance hlive
    · exact h.reached j h' hj hlive'
    · cases hn.handle hlive'
      refine (h.reached j hd hj hlive').imp_right fun hall y hy => ?_
      have hne : y ≠ x := fun heq => hx (heq ▸ hy)
      exact hn.later (hall y hy) hne
  uncut := h.uncut

theorem Serving.advance (h : Serving cfg s) (hn : s.Next cfg i hd x rest)
    (hpast : past s.cursor x.seq = false) (hx : ∀ u ∈ s.subscriptions, ¬ u.missing cfg.log x) :
    Serving cfg (s.advance i x) :=
  ⟨h.tracked.advance hpast, fun u hu => (h.supplied u hu).advance hn (hx u hu)⟩

def fanned (max : Nat) (x : LogEvent) (s : StreamController) : StreamController :=
  { s with
    seenEventIds := addSeen max s.seenEventIds x.eventId
    consumed := s.consumed ++ [x.eventId]
    cursor := if past s.cursor x.seq then some x.seq else s.cursor
    subscriptions := s.subscriptions.map (fun u => if u.wants x then deliverEvent x u else u) }

theorem mem_addSeen {max e : Nat} {seen : List Nat} {e' : Nat} (h : e' ∈ addSeen max seen e) :
    e' ∈ seen ∨ e' = e := by
  simp only [addSeen] at h
  have hmem : e' ∈ seen ++ [e] := by
    split at h
    · exact List.mem_of_mem_tail h
    · exact h
  simpa using hmem

theorem Tracked.fanned {max : Nat} (h : Tracked cfg s) (hx : x ∈ cfg.log.events) :
    Tracked cfg (s.fanned max x) :=
  { h with
    behind := fun j hd hlive q hq => h.behind j hd hlive q (past_of_observed hq)
    applied := fun y hy hconsumed => by
      rcases List.mem_append.mp hconsumed with hold | hnew
      · refine Bool.eq_false_iff.mpr fun hpast => ?_
        have hfalse : past s.cursor y.seq = false := h.applied y hy hold
        rw [past_of_observed hpast] at hfalse
        cases hfalse
      · have heq : y = x := ServerLog.eq_of_id hy hx (List.mem_singleton.mp hnew)
        subst heq
        exact past_observed_self
    seenConsumed := fun e he => by
      rcases mem_addSeen he with hold | rfl
      · exact List.mem_append_left _ (h.seenConsumed e hold)
      · exact List.mem_append_right _ List.mem_cons_self }

theorem missing_deliverEvent {u : Subscription} {y : LogEvent}
    (h : (deliverEvent x u).missing cfg.log y) : u.missing cfg.log y ∧ y ≠ x := by
  obtain ⟨hexpected, hnot⟩ := h
  refine ⟨⟨hexpected, fun hmem => hnot (List.mem_append_left _ hmem)⟩, ?_⟩
  rintro rfl
  exact hnot (List.mem_append_right _ List.mem_cons_self)

theorem delivered_deliverEvent (u : Subscription) :
    (deliverEvent x u).delivered =
      if past u.start x.seq then u.delivered ++ [x] else u.delivered := by
  simp only [deliverEvent, Subscription.delivered, List.filter_append, List.filter_singleton]
  cases past u.start x.seq <;> simp

theorem Supplied.deliverEvent {u : Subscription} {max : Nat} (h : Supplied cfg s u)
    (hx : x ∈ cfg.log.events) (hwants : u.wants x = true) (hfresh : x.eventId ∉ s.consumed)
    (hearlier : x ∈ u.expected cfg.log → ∀ y, u.missing cfg.log y → ¬ y.seq < x.seq) :
    Supplied cfg (s.fanned max x) (deliverEvent x u) where
  inOrder := by
    rw [delivered_deliverEvent]
    split
    · rename_i hpast
      have hexpected : x ∈ u.expected cfg.log := Subscription.mem_expected.mpr ⟨hx, hpast, hwants⟩
      have hnew : x ∉ u.received := fun hmem => hfresh (h.known x hmem).2
      refine delivered_grows h.inOrder hexpected hnew fun y hy hlt => ?_
      by_contra hnot
      exact hearlier hexpected y ⟨hy, hnot⟩ hlt
    · exact h.inOrder
  known y hy := by
    rcases List.mem_append.mp hy with hold | hnew
    · obtain ⟨hlog, hconsumed⟩ := h.known y hold
      exact ⟨hlog, List.mem_append_left _ hconsumed⟩
    · cases List.mem_singleton.mp hnew
      exact ⟨hx, List.mem_append_right _ List.mem_cons_self⟩
  kept y hy hconsumed := by
    rcases List.mem_append.mp hconsumed with hold | hnew
    · exact List.mem_append_left _ (h.kept y hy hold)
    · have hlog : y ∈ cfg.log.events := (Subscription.mem_expected.mp hy).1
      have heq : y = x := ServerLog.eq_of_id hlog hx (List.mem_singleton.mp hnew)
      exact List.mem_append_right _ (List.mem_singleton.mpr heq)
  toCome j hd hj hlive y hy := h.toCome j hd hj hlive y (missing_deliverEvent hy).1
  unread j hd hj hlive y hy := h.unread j hd hj hlive y (missing_deliverEvent hy).1
  reached j hd hj hlive :=
    (h.reached j hd hj hlive).imp_right fun hall y hy => hall y (missing_deliverEvent hy).1
  uncut := h.uncut

theorem Supplied.passed {u : Subscription} {max : Nat} (h : Supplied cfg s u)
    (hx : x ∈ cfg.log.events) (hwants : u.wants x = false) : Supplied cfg (s.fanned max x) u :=
  { h with
    known := fun y hy => by
      obtain ⟨hlog, hconsumed⟩ := h.known y hy
      exact ⟨hlog, List.mem_append_left _ hconsumed⟩
    kept := fun y hy hconsumed => by
      rcases List.mem_append.mp hconsumed with hold | hnew
      · exact h.kept y hy hold
      · obtain ⟨hlog, -, hwanted⟩ := Subscription.mem_expected.mp hy
        have heq : y = x := ServerLog.eq_of_id hlog hx (List.mem_singleton.mp hnew)
        rw [heq, hwants] at hwanted
        cases hwanted }

theorem Serving.fanned {max : Nat} (h : Serving cfg s) (hx : x ∈ cfg.log.events)
    (hfresh : x.eventId ∉ s.consumed)
    (hearlier : ∀ u ∈ s.subscriptions, x ∈ u.expected cfg.log →
      ∀ y, u.missing cfg.log y → ¬ y.seq < x.seq) :
    Serving cfg (s.fanned max x) := by
  refine ⟨h.tracked.fanned hx, fun u hu => ?_⟩
  obtain ⟨v, hv, rfl⟩ := List.mem_map.mp hu
  split
  · rename_i hwants
    exact (h.supplied v hv).deliverEvent hx hwants hfresh (hearlier v hv)
  · rename_i hwants
    exact (h.supplied v hv).passed hx (Bool.eq_false_iff.mpr hwants)

theorem missed_fanned {max : Nat} {u : Subscription} (hu : u ∈ (s.fanned max x).subscriptions) :
    ¬ u.missing cfg.log x := by
  obtain ⟨v, -, rfl⟩ := List.mem_map.mp hu
  rintro ⟨hexpected, hnot⟩
  split at hexpected <;> rename_i hwants
  · rw [if_pos hwants] at hnot
    exact hnot (List.mem_append_right _ List.mem_cons_self)
  · exact hwants (Subscription.mem_expected.mp hexpected).2.2

theorem consume_seen (h : x.eventId ∈ s.seenEventIds) : s.consume cfg i x = s.advance i x := by
  simp only [consume, advance, if_pos h]

theorem consume_unseen (h : x.eventId ∉ s.seenEventIds)
    (hroom : ∀ u ∈ s.subscriptions, u.wants x = true → full cfg u = false) :
    s.consume cfg i x = (s.fanned cfg.seenEventIdsMax x).advance i x := by
  simp only [consume, advance, fanned, if_neg h, observeSeq, putAll_room hroom]
  rfl

-- The condition on a read: an event that is not dropped as seen has not been handed out
-- before, finds room, and overtakes nothing on its way to a subscription.
def Reads (cfg : ControllerConfig) (s : StreamController) : Prop :=
  ∀ i hd x, s.nextEvent cfg = some (i, hd, x) → x.eventId ∉ s.seenEventIds →
    x.eventId ∉ s.consumed ∧
    (∀ u ∈ s.subscriptions, u.wants x = true → full cfg u = false) ∧
    (s.sharedStream ≠ some i → ∀ u ∈ s.subscriptions, x ∈ u.expected cfg.log →
      ∀ y, u.missing cfg.log y → y.seq < x.seq → matchesSubscription y.event hd.filter = true)

theorem Serving.earlier (h : Serving cfg s) (hn : s.Next cfg i hd x rest) {u : Subscription}
    (hu : u ∈ s.subscriptions)
    (hmatch : s.sharedStream ≠ some i → ∀ y, u.missing cfg.log y → y.seq < x.seq →
      matchesSubscription y.event hd.filter = true) {y : LogEvent}
    (hy : u.missing cfg.log y) : ¬ y.seq < x.seq := by
  intro hlt
  have hmem : y ∈ hd.remaining cfg.log := by
    rcases eq_or_ne s.sharedStream (some i) with hs | hs
    · exact (h.supplied u hu).toCome i hd hs hn.live y hy
    · have hfilter : matchesSubscription y.event hd.filter = true := hmatch hs y hy hlt
      have hpast : past hd.last y.seq = true :=
        (h.supplied u hu).unread i hd hn.phase hn.live y hy hfilter
      exact StreamHandle.mem_remaining.mpr
        ⟨(Subscription.mem_expected.mp hy.1).1, hpast, hfilter⟩
  have hne : y ≠ x := by
    rintro rfl
    omega
  have hgt : x.seq < y.seq := StreamHandle.remaining_first hn.first hmem hne
  omega

theorem serving_read (h : Serving cfg s) (ht : s.Told) (hok : Reads cfg s) :
    Serving cfg (s.read cfg) ∧ (s.read cfg).Told := by
  simp only [read]
  split
  · rename_i i hd x hnext
    obtain ⟨rest, hn⟩ := nextEvent_some hnext
    have hbusy : s.fanout ≠ .idle := by simp [hn.phase]
    rcases Classical.em (x.eventId ∈ s.seenEventIds) with hseen | hseen
    · rw [consume_seen hseen]
      have hconsumed : x.eventId ∈ s.consumed := h.tracked.seenConsumed _ hseen
      refine ⟨h.advance hn (h.tracked.applied x hn.mem_log hconsumed) ?_, told_of_busy hbusy⟩
      rintro u hu ⟨hexpected, hnot⟩
      exact hnot ((h.supplied u hu).kept x hexpected hconsumed)
    · obtain ⟨hfresh, hroom, hmatch⟩ := hok i hd x hnext hseen
      rw [consume_unseen hseen hroom]
      have hfanned : Serving cfg (s.fanned cfg.seenEventIdsMax x) :=
        h.fanned hn.mem_log hfresh fun u hu hexpected y hy =>
          h.earlier hn hu (fun hs => hmatch hs u hu hexpected) hy
      have hnext' : (s.fanned cfg.seenEventIdsMax x).Next cfg i hd x rest :=
        ⟨hn.phase, hn.live, hn.first⟩
      exact ⟨hfanned.advance hnext' past_observed_self fun u hu => missed_fanned hu,
        told_of_busy hbusy⟩
  · exact ⟨h, ht⟩

end Reading

section Subscribing

variable {cfg : ControllerConfig} {s : StreamController} {params : SubscribeParams}

def fresh (s : StreamController) (params : SubscribeParams) : Subscription :=
  ⟨s.nextSubscriptionId, params, s.cursor, [], [], false, false⟩

-- Every event of the log still to be applied that `params` asks for matches `filter`.
def Fits (cfg : ControllerConfig) (s : StreamController) (filter params : SubscribeParams) : Prop :=
  ∀ x ∈ cfg.log.events, past s.cursor x.seq = true →
    matchesSubscription x.event params = true → matchesSubscription x.event filter = true

theorem missing_fresh {x : LogEvent} (h : (s.fresh params).missing cfg.log x) :
    x ∈ cfg.log.events ∧ past s.cursor x.seq = true ∧
      matchesSubscription x.event params = true :=
  Subscription.mem_expected.mp h.1

theorem Tracked.fits_remaining (h : Tracked cfg s) {i : Nat} {hd : StreamHandle}
    (hlive : s.Live i hd) (hfits : s.Fits cfg hd.filter params) {x : LogEvent}
    (hx : (s.fresh params).missing cfg.log x) : x ∈ hd.remaining cfg.log := by
  obtain ⟨hlog, hpast, hmatch⟩ := missing_fresh hx
  exact StreamHandle.mem_remaining.mpr
    ⟨hlog, h.behind i hd hlive x.seq hpast, hfits x hlog hpast hmatch⟩

theorem Tracked.kept_fresh (h : Tracked cfg s) {x : LogEvent}
    (hx : x ∈ (s.fresh params).expected cfg.log) : x.eventId ∉ s.consumed := by
  intro hconsumed
  obtain ⟨hlog, hpast, -⟩ := Subscription.mem_expected.mp hx
  have hpast : past s.cursor x.seq = true := hpast
  rw [h.applied x hlog hconsumed] at hpast
  cases hpast

theorem Tracked.supplied_fresh (h : Tracked cfg s)
    (hshared : ∀ i hd, s.sharedStream = some i → s.Live i hd → s.Fits cfg hd.filter params)
    (hread : ∀ i hd, s.fanout = .consuming i → s.Live i hd → ¬ s.Leaving i →
      s.Fits cfg hd.filter params) : Supplied cfg s (s.fresh params) where
  inOrder := List.nil_prefix
  known := List.forall_mem_nil _
  kept x hx hconsumed := absurd hconsumed (h.kept_fresh hx)
  toCome i hd hi hlive x hx := h.fits_remaining hlive (hshared i hd hi hlive) hx
  unread i hd hi hlive x hx _ := h.behind i hd hlive x.seq (missing_fresh hx).2.1
  reached i hd hi hlive := by
    rcases Classical.em (s.Leaving i) with hleaving | hleaving
    · exact .inl hleaving
    · exact .inr fun x hx => h.fits_remaining hlive (hread i hd hi hlive hleaving) hx
  uncut := rfl

theorem Serving.register (h : Serving cfg s) (hnew : Supplied cfg s (s.fresh params)) :
    Serving cfg (s.register params) := by
  refine ⟨{ h.tracked with }, fun u hu => ?_⟩
  rcases List.mem_append.mp hu with hold | hnewest
  · exact { h.supplied u hold with }
  · cases List.mem_singleton.mp hnewest
    exact { hnew with }

-- The state after `_reconcile_stream` has installed a stream with the filter `filter`.
def installed (filter : SubscribeParams) (id : Nat) (s : StreamController) : StreamController :=
  { s.openEventStream filter with
    sharedStream := some s.handles.length
    sharedStreamFilter := some filter
    openings := s.openings ++ [⟨id, s.handles.length, s.sharedStream⟩] }

theorem Tracked.installed (h : Tracked cfg s) (filter : SubscribeParams) (id : Nat) :
    Tracked cfg (s.installed filter id) := by
  have hopen : Tracked cfg (s.openEventStream filter) := h.openEventStream filter
  have hlength : (s.openEventStream filter).handles.length = s.handles.length + 1 := by
    simp [StreamController.openEventStream]
  exact {
    sharedBound := fun i hi => by
      cases hi
      show s.handles.length < (s.openEventStream filter).handles.length
      omega
    consumedBound := hopen.consumedBound
    awaitedBound := hopen.awaitedBound
    openedBound := hopen.openedBound
    openingBound := fun o ho => by
      rcases List.mem_append.mp ho with hold | hnew
      · exact hopen.openingBound o hold
      · cases List.mem_singleton.mp hnew
        show s.handles.length < (s.openEventStream filter).handles.length
        omega
    openingEq := fun o ho o' ho' heq => by
      rcases List.mem_append.mp ho with hold | hnew <;>
        rcases List.mem_append.mp ho' with hold' | hnew'
      · exact h.openingEq o hold o' hold' heq
      · cases List.mem_singleton.mp hnew'
        have hlt : o.handle < s.handles.length := h.openingBound o hold
        have heq : o.handle = s.handles.length := heq
        omega
      · cases List.mem_singleton.mp hnew
        have hlt : o'.handle < s.handles.length := h.openingBound o' hold'
        have heq : s.handles.length = o'.handle := heq
        omega
      · cases List.mem_singleton.mp hnew
        cases List.mem_singleton.mp hnew'
        rfl
    started := fun hnone => by cases hnone
    behind := hopen.behind
    applied := hopen.applied
    seenConsumed := hopen.seenConsumed
    reading := hopen.reading }

theorem leaving_installed {filter : SubscribeParams} {id i : Nat} (h : s.Leaving i) :
    (s.installed filter id).Leaving i :=
  h.imp_right fun ⟨o, ho, hold⟩ => ⟨o, List.mem_append_left _ ho, hold⟩

theorem live_installed {filter : SubscribeParams} {id : Nat} {hd : StreamHandle}
    (hlive : (s.installed filter id).Live s.handles.length hd) :
    hd = ⟨filter, s.cursor, .connecting⟩ := by
  rcases getElem_opened hlive.1 with hget | ⟨-, heq⟩
  · rw [List.getElem?_eq_none (Nat.le_refl _)] at hget
    cases hget
  · exact heq

theorem Supplied.installed {u : Subscription} (hu : Supplied cfg s u) (h : Tracked cfg s)
    {filter : SubscribeParams} {id : Nat}
    (hbrings : ∀ x, u.missing cfg.log x → past s.cursor x.seq = true ∧
      matchesSubscription x.event filter = true) :
    Supplied cfg (s.installed filter id) u :=
  have hopen : Supplied cfg (s.openEventStream filter) u := hu.openEventStream h filter
  { hopen with
    toCome := fun i hd hi hlive x hx => by
      cases hi
      cases live_installed hlive
      obtain ⟨hpast, hmatch⟩ := hbrings x hx
      exact StreamHandle.mem_remaining.mpr ⟨(Subscription.mem_expected.mp hx.1).1, hpast, hmatch⟩
    reached := fun i hd hi hlive =>
      (hopen.reached i hd hi hlive).imp_left leaving_installed }

theorem Tracked.supplied_installed (h : Tracked cfg s) {filter : SubscribeParams} {id : Nat}
    (hfits : s.Fits cfg filter params)
    (hread : ∀ i hd, s.fanout = .consuming i → s.Live i hd → ¬ s.Leaving i →
      s.sharedStream ≠ some i → s.Fits cfg hd.filter params) :
    Supplied cfg (s.installed filter id) (s.fresh params) := by
  have hnext : Tracked cfg (s.installed filter id) := h.installed filter id
  refine hnext.supplied_fresh (fun i hd hi hlive => ?_) fun i hd hi hlive hstays => ?_
  · cases hi
    cases live_installed hlive
    exact hfits
  · have hold : s.Live i hd := live_opened (h.consumedBound i hi) hlive
    refine hread i hd hi hold (fun hleaving => hstays (leaving_installed hleaving)) fun hs => ?_
    exact hstays (.inr ⟨⟨id, s.handles.length, s.sharedStream⟩,
      List.mem_append_right _ List.mem_cons_self, hs⟩)

def Subscribes (cfg : ControllerConfig) (s : StreamController) (params : SubscribeParams) : Prop :=
  let union := (s.register params).currentUnion params
  if s.covered params then
    ∀ i hd, s.sharedStream = some i ∨ s.fanout = .consuming i ∧ ¬ s.Leaving i → s.Live i hd →
      s.Fits cfg hd.filter params
  else
    s.Fits cfg union params ∧
    (∀ u ∈ s.subscriptions, ∀ x, u.missing cfg.log x → past s.cursor x.seq = true ∧
      matchesSubscription x.event union = true) ∧
    ∀ i hd, s.fanout = .consuming i → s.Live i hd → ¬ s.Leaving i → s.sharedStream ≠ some i →
      s.Fits cfg hd.filter params

theorem shared_of_covered (h : s.covered params = true) : ∃ i, s.sharedStream = some i := by
  cases hs : s.sharedStream with
  | none => simp [covered, hs] at h
  | some i => exact ⟨i, rfl⟩

theorem serving_subscribe (h : Serving cfg s) (ht : s.Told) (hok : s.Subscribes cfg params) :
    Serving cfg (s.subscribe params) ∧ (s.subscribe params).Told := by
  simp only [Subscribes] at hok
  simp only [subscribe]
  split
  · rename_i hcovered
    rw [if_pos hcovered] at hok
    obtain ⟨i, hs⟩ := shared_of_covered hcovered
    have hnew : Supplied cfg s (s.fresh params) :=
      h.tracked.supplied_fresh (fun i hd hi hlive => hok i hd (.inl hi) hlive)
        fun i hd hi hlive hstays => hok i hd (.inr ⟨hi, hstays⟩) hlive
    exact ⟨(h.register hnew).ensureFanoutRunning hs, told_of_busy (busy_ensureFanoutRunning hs)⟩
  · rename_i hcovered
    rw [if_neg hcovered] at hok
    obtain ⟨hfits, hbrings, hread⟩ := hok
    refine ⟨⟨{ h.tracked.installed _ s.nextSubscriptionId with }, fun u hu => ?_⟩, ?_⟩
    · rcases List.mem_append.mp hu with hold | hnewest
      · exact { (h.supplied u hold).installed h.tracked (hbrings u hold) with }
      · cases List.mem_singleton.mp hnewest
        exact { h.tracked.supplied_installed hfits hread with }
    · intro hidle u hu
      rcases List.mem_append.mp hu with hold | hnewest
      · exact (ht hidle u hold).imp_right fun ⟨o, ho, hsub⟩ =>
          ⟨o, List.mem_append_left _ ho, hsub⟩
      · cases List.mem_singleton.mp hnewest
        exact .inr ⟨⟨s.nextSubscriptionId, s.handles.length, s.sharedStream⟩,
          List.mem_append_right _ List.mem_cons_self, rfl⟩

end Subscribing

section Runs

variable {cfg : ControllerConfig} {s : StreamController}

def Smooth (cfg : ControllerConfig) (s : StreamController) : ControllerEvent → Prop
  | .subscribe params => s.Subscribes cfg params
  | .unsubscribe id => Abandons cfg s (fun o => o.sub ≠ id) (fun u => u.id ≠ id)
  | .ready i => ∀ base n, s.fanout = .reconnecting base n (some i) →
      ∀ hd, s.handles[i]? = some hd → ∀ u ∈ s.subscriptions, ∀ x, u.missing cfg.log x →
        x ∈ hd.remaining cfg.log
  | .fail i => ∀ o, s.openings.find? (fun o => o.handle = i) = some o →
      Abandons cfg s (fun o => o.handle ≠ i) (fun u => u.id ≠ o.sub)
  | .read => Reads cfg s
  | .resolve => Resolves cfg s
  | .retry => Retries cfg s
  | _ => True

def Sound (cfg : ControllerConfig) (s : StreamController) : Prop := Serving cfg s ∧ s.Told

theorem Sound.step (e : ControllerEvent) (h : Sound cfg s) (hok : s.Smooth cfg e) :
    Sound cfg (s.step cfg e) := by
  obtain ⟨hserving, htold⟩ := h
  cases e with
  | subscribe params => exact serving_subscribe hserving htold hok
  | unsubscribe id => exact ⟨hserving.unsubscribe hok, htold.unsubscribe id⟩
  | ready i => exact ⟨hserving.ready hok, htold.ready hserving hok⟩
  | fail i => exact ⟨hserving.fail hok, htold.fail hserving.tracked i⟩
  | drop i => exact ⟨hserving.fromReady rfl, htold.fromReady⟩
  | serverEnd i => exact ⟨hserving.fromReady rfl, htold.fromReady⟩
  | closed i => exact ⟨hserving.closed i, htold.closed i⟩
  | read => exact serving_read hserving htold hok
  | exhausted => exact serving_exhausted hserving htold
  | resolve => exact serving_resolve hserving htold hok
  | retry => exact serving_retry hserving htold hok
  | get id => exact ⟨hserving.get id, htold.get id⟩
  | observe seq => exact ⟨hserving.observeSeq seq, htold⟩

def valuesEvent : LogEvent := ⟨⟨some "values", some ⟨some [], none⟩⟩, 1, 2⟩

def messagesEvent : LogEvent := ⟨⟨some "messages", some ⟨some [], none⟩⟩, 0, 1⟩

def defaultConfig (log : ServerLog) : ControllerConfig := ⟨log, 1024, 10000, 5⟩

theorem eachStep_next {s' : StreamController} {e : ControllerEvent} {es : List ControllerEvent}
    (hok : s.Smooth cfg e) (hs : s.step cfg e = s')
    (hrest : EachStep (StreamController.step cfg) (Smooth cfg) s' es) :
    EachStep (StreamController.step cfg) (Smooth cfg) s (e :: es) :=
  eachStep_cons.mpr ⟨hok, hs ▸ hrest⟩

end Runs

end StreamController

end Sdk

end LangGraph

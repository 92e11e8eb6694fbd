import LangGraph.Sdk.Delivery

namespace LangGraph

open Transition

namespace Sdk

namespace StreamController

section Openings

variable {cfg : ControllerConfig} {s : StreamController}

-- What the removal of an opening must leave behind: the stream being read is still going to
-- be closed, or it still brings everything the remaining subscriptions miss.
def Abandons (cfg : ControllerConfig) (s : StreamController) (keep : Opening → Bool)
    (stays : Subscription → Prop) : Prop :=
  ∀ i h, s.fanout = .consuming i → s.Live i h →
    { s with openings := s.openings.filter keep }.Leaving i ∨
      ∀ u ∈ s.subscriptions, stays u → ∀ x, u.missing cfg.log x → x ∈ h.remaining cfg.log

theorem Tracked.ofOpenings {openings : List Opening} {tasks : List Nat} (h : Tracked cfg s)
    (hsub : openings ⊆ s.openings) :
    Tracked cfg { s with openings := openings, rotationCloseTasks := tasks } :=
  { h with
    openingBound := fun o ho => h.openingBound o (hsub ho)
    openingEq := fun o ho o' ho' => h.openingEq o (hsub ho) o' (hsub ho')
    started := fun hnone => by
      obtain ⟨hidle, hopenings⟩ := h.started hnone
      have hopenings : s.openings = [] := hopenings
      rw [hopenings] at hsub
      exact ⟨hidle, List.subset_nil.mp hsub⟩ }

theorem Serving.ofOpenings {openings : List Opening} {tasks : List Nat} (h : Serving cfg s)
    (hsub : openings ⊆ s.openings)
    (hleaving : ∀ i hd, s.Live i hd → s.Leaving i →
      { s with openings := openings, rotationCloseTasks := tasks }.Leaving i) :
    Serving cfg { s with openings := openings, rotationCloseTasks := tasks } where
  tracked := h.tracked.ofOpenings hsub
  supplied u hu := { h.supplied u hu with
    reached := fun i hd hi hlive =>
      ((h.supplied u hu).reached i hd hi hlive).imp_left (hleaving i hd hlive) }

theorem Serving.unregister (h : Serving cfg s) (id : Nat) : Serving cfg (s.unregister id) where
  tracked := { h.tracked with }
  supplied u hu := { h.supplied u (List.mem_filter.mp hu).1 with }

theorem Serving.abandon {keep : Opening → Bool} {id : Nat} (h : Serving cfg s)
    (ha : Abandons cfg s keep (fun u => u.id ≠ id)) :
    Serving cfg ({ s with openings := s.openings.filter keep }.unregister id) where
  tracked :=
    have ht : Tracked cfg { s with openings := s.openings.filter keep } :=
      h.tracked.ofOpenings (List.filter_subset_self _)
    { ht with }
  supplied u hu := by
    obtain ⟨hmem, hne⟩ := List.mem_filter.mp hu
    have hne : u.id ≠ id := of_decide_eq_true hne
    exact { h.supplied u hmem with
      reached := fun i hd hi hlive => (ha i hd hi hlive).imp_right fun hall => hall u hmem hne }

theorem Serving.closed (h : Serving cfg s) (i : Nat) : Serving cfg (s.closed i) := by
  simp only [StreamController.closed]
  split
  · refine h.closeHandle.ofOpenings (List.Subset.refl _) fun j hd hlive hleaving => ?_
    rcases hleaving with htask | hopening
    · have hne : j ≠ i := by
        rintro rfl
        exact not_live_closeHandle hlive
      exact .inl (List.mem_filter.mpr ⟨htask, by simpa using hne⟩)
    · exact .inr hopening
  · exact h

theorem closeAfter_eq (o : Opening) :
    s.closeAfter o = { s with rotationCloseTasks := s.rotationCloseTasks ++ o.old.toList } := by
  cases hold : o.old with
  | none => simp [closeAfter, hold]
  | some old => simp [closeAfter, hold]

theorem Tracked.shared_of_opening {o : Opening} (h : Tracked cfg s) (ho : o ∈ s.openings) :
    ∃ i, s.sharedStream = some i := by
  cases hs : s.sharedStream with
  | none =>
    rw [(h.started hs).2] at ho
    cases ho
  | some i => exact ⟨i, rfl⟩

theorem find_handle {i : Nat} {o : Opening}
    (ho : s.openings.find? (fun o => o.handle = i) = some o) : o ∈ s.openings ∧ o.handle = i :=
  ⟨List.mem_of_find?_eq_some ho, by simpa using List.find?_some ho⟩

theorem Serving.readyRotation (h : Serving cfg s) (i : Nat) :
    Serving cfg (s.readyRotation i) := by
  simp only [StreamController.readyRotation]
  split
  · exact h
  · rename_i o ho
    obtain ⟨hmem, hhandle⟩ := find_handle ho
    obtain ⟨j, hs⟩ := h.tracked.shared_of_opening hmem
    rw [closeAfter_eq]
    refine (h.ofOpenings (List.filter_subset_self _) fun k hd _ hleaving => ?_).ensureFanoutRunning hs
    rcases hleaving with htask | ⟨o', ho', hold⟩
    · exact .inl (List.mem_append_left _ htask)
    · rcases eq_or_ne o'.handle i with heq | hne
      · have hoo : o' = o := h.tracked.openingEq o' ho' o hmem (heq.trans hhandle.symm)
        left
        simp [← hoo, hold]
      · exact .inr ⟨o', List.mem_filter.mpr ⟨ho', by simpa using hne⟩, hold⟩

theorem Told.readyRotation (ht : s.Told) (h : Tracked cfg s) (i : Nat) :
    (s.readyRotation i).Told := by
  simp only [StreamController.readyRotation]
  split
  · exact ht
  · rename_i o ho
    obtain ⟨j, hs⟩ := h.shared_of_opening (find_handle ho).1
    rw [closeAfter_eq]
    exact told_of_busy (busy_ensureFanoutRunning hs)

theorem Serving.readyReconnect {i : Nat} (h : Serving cfg s)
    (hbrings : ∀ base n, s.fanout = .reconnecting base n (some i) → ∀ hd, s.handles[i]? = some hd →
      ∀ u ∈ s.subscriptions, ∀ x, u.missing cfg.log x → x ∈ hd.remaining cfg.log) :
    Serving cfg (s.readyReconnect i) := by
  simp only [StreamController.readyReconnect]
  split
  · rename_i base n opened hf
    split
    · rename_i heq
      subst heq
      refine Serving.consuming (s := { s with sharedStream := some opened }) ⟨?_, ?_⟩ rfl
      · exact { h.tracked with
          sharedBound := fun j hj => by
            cases hj
            exact h.tracked.openedBound base n opened hf
          started := fun hnone => by cases hnone }
      · intro u hu
        exact { h.supplied u hu with
          toCome := fun j hd hj hlive => by
            cases hj
            exact hbrings base n hf hd hlive.1 u hu }
    · exact h
  · exact h

theorem Told.readyReconnect {i : Nat} (ht : s.Told) : (s.readyReconnect i).Told := by
  simp only [StreamController.readyReconnect]
  split
  · split
    · exact told_of_busy (by simp)
    · exact ht
  · exact ht

theorem statusOf_readyReconnect (i j : Nat) : (s.readyReconnect i).statusOf j = s.statusOf j := by
  simp only [StreamController.readyReconnect]
  split
  · split <;> rfl
  · rfl

theorem Serving.ready {i : Nat} (h : Serving cfg s)
    (hbrings : ∀ base n, s.fanout = .reconnecting base n (some i) → ∀ hd, s.handles[i]? = some hd →
      ∀ u ∈ s.subscriptions, ∀ x, u.missing cfg.log x → x ∈ hd.remaining cfg.log) :
    Serving cfg (s.ready i) := by
  simp only [StreamController.ready]
  split
  · rename_i hstatus
    refine ((h.readyReconnect hbrings).setStatus fun _ => ?_).readyRotation i
    rw [statusOf_readyReconnect]
    exact hstatus
  · exact h

theorem Told.ready {i : Nat} (ht : s.Told) (h : Serving cfg s)
    (hbrings : ∀ base n, s.fanout = .reconnecting base n (some i) → ∀ hd, s.handles[i]? = some hd →
      ∀ u ∈ s.subscriptions, ∀ x, u.missing cfg.log x → x ∈ hd.remaining cfg.log) :
    (s.ready i).Told := by
  simp only [StreamController.ready]
  split
  · rename_i hstatus
    have hnext : Serving cfg ((s.readyReconnect i).setStatus i .ready) := by
      refine (h.readyReconnect hbrings).setStatus fun _ => ?_
      rw [statusOf_readyReconnect]
      exact hstatus
    have htold : (s.readyReconnect i).Told := ht.readyReconnect
    exact Told.readyRotation (s := (s.readyReconnect i).setStatus i .ready) htold hnext.tracked i
  · exact ht

theorem Serving.failRotation {i : Nat} (h : Serving cfg s)
    (ha : ∀ o, s.openings.find? (fun o => o.handle = i) = some o →
      Abandons cfg s (fun o => o.handle ≠ i) (fun u => u.id ≠ o.sub)) :
    Serving cfg (s.failRotation i) := by
  simp only [StreamController.failRotation]
  split
  · exact h
  · rename_i o ho
    exact h.abandon (ha o ho)

theorem Told.failRotation (ht : s.Told) (h : Tracked cfg s) (i : Nat) :
    (s.failRotation i).Told := by
  simp only [StreamController.failRotation]
  split
  · exact ht
  · rename_i o ho
    obtain ⟨hmem, hhandle⟩ := find_handle ho
    intro hidle u hu
    obtain ⟨hmemu, hne⟩ := List.mem_filter.mp hu
    have hne : u.id ≠ o.sub := of_decide_eq_true hne
    refine (ht hidle u hmemu).imp_right fun ⟨o', ho', hsub⟩ => ?_
    refine ⟨o', List.mem_filter.mpr ⟨ho', ?_⟩, hsub⟩
    have hother : o'.handle ≠ i := by
      intro heq
      have hoo : o' = o := h.openingEq o' ho' o hmem (heq.trans hhandle.symm)
      exact hne (hsub.symm.trans (congrArg Opening.sub hoo))
    simpa using hother

theorem Serving.failReconnect (h : Serving cfg s) (i : Nat) : Serving cfg (s.failReconnect i) := by
  simp only [StreamController.failReconnect]
  split
  · rename_i base n opened hf
    split
    · refine h.resting (fun j hj => by cases hj) (fun j hj => by cases hj)
        (fun _ _ j hj => by cases hj) fun hnone => ?_
      obtain ⟨j, hs⟩ := h.tracked.shared_of_busy (by simp [hf])
      rw [hs] at hnone
      cases hnone
    · exact h
  · exact h

theorem Told.failReconnect (ht : s.Told) (i : Nat) : (s.failReconnect i).Told := by
  simp only [StreamController.failReconnect]
  split
  · split
    · exact told_of_busy (by simp)
    · exact ht
  · exact ht

theorem Serving.fail {i : Nat} (h : Serving cfg s)
    (ha : ∀ o, s.openings.find? (fun o => o.handle = i) = some o →
      Abandons cfg s (fun o => o.handle ≠ i) (fun u => u.id ≠ o.sub)) :
    Serving cfg (s.fail i) := by
  simp only [StreamController.fail]
  split
  · refine ((h.failRotation ha).setStatus fun halive => ?_).failReconnect i
    cases halive
  · exact h

theorem Told.fail (ht : s.Told) (h : Tracked cfg s) (i : Nat) : (s.fail i).Told := by
  simp only [StreamController.fail]
  split
  · have htold : (s.failRotation i).Told := ht.failRotation h i
    exact Told.failReconnect (s := (s.failRotation i).setStatus i .dropped) htold i
  · exact ht

theorem Serving.unsubscribe {id : Nat} (h : Serving cfg s)
    (ha : Abandons cfg s (fun o => o.sub ≠ id) (fun u => u.id ≠ id)) :
    Serving cfg (s.unsubscribe id) :=
  h.abandon ha

theorem Told.unsubscribe (ht : s.Told) (id : Nat) : (s.unsubscribe id).Told := by
  intro hidle u hu
  obtain ⟨hmem, hne⟩ := List.mem_filter.mp hu
  refine (ht hidle u hmem).imp_right fun ⟨o, ho, hsub⟩ => ⟨o, List.mem_filter.mpr ⟨ho, ?_⟩, hsub⟩
  rw [hsub]
  exact hne

end Openings

section Consumers

variable {cfg : ControllerConfig} {s : StreamController}

theorem Serving.get (h : Serving cfg s) (id : Nat) : Serving cfg (s.get id) := by
  simp only [StreamController.get]
  split
  · exact h
  · split
    · exact h
    · rename_i v hv
      split
      · exact h
      · exact h.unregister id
      · rename_i x rest hqueue
        refine ⟨{ h.tracked with }, fun u hu => ?_⟩
        obtain ⟨u', hu', rfl⟩ := List.mem_map.mp hu
        split
        · exact { h.supplied u' hu' with }
        · exact { h.supplied u' hu' with }

theorem Told.unregister (ht : s.Told) (id : Nat) : (s.unregister id).Told :=
  fun hidle u hu => ht hidle u (List.mem_filter.mp hu).1

theorem Told.get (ht : s.Told) (id : Nat) : (s.get id).Told := by
  simp only [StreamController.get]
  split
  · exact ht
  · split
    · exact ht
    · rename_i v hv
      split
      · exact ht
      · exact ht.unregister id
      · rename_i x rest hqueue
        intro hidle u hu
        obtain ⟨u', hu', rfl⟩ := List.mem_map.mp hu
        split
        · exact ht hidle u' hu'
        · exact ht hidle u' hu'

theorem past_of_observed {cursor : Option Nat} {seq q : Nat}
    (h : past (if past cursor seq then some seq else cursor) q = true) : past cursor q = true := by
  cases cursor with
  | none => rfl
  | some c =>
    cases hc : past (some c) seq with
    | false => simpa [hc] using h
    | true =>
      have hseq : c < seq := by simpa [past] using hc
      rw [hc, if_pos rfl] at h
      have hq : seq < q := by simpa [past] using h
      simp only [past, decide_eq_true_eq]
      omega

theorem past_observed_self {cursor : Option Nat} {seq : Nat} :
    past (if past cursor seq then some seq else cursor) seq = false := by
  split
  · simp [past]
  · rename_i h
    simpa using h

theorem Serving.observeSeq (h : Serving cfg s) (seq : Nat) : Serving cfg (s.observeSeq seq) where
  tracked := { h.tracked with
    behind := fun i hd hlive q hq => h.tracked.behind i hd hlive q (past_of_observed hq)
    applied := fun x hx hconsumed => by
      have hold : past s.cursor x.seq = false := h.tracked.applied x hx hconsumed
      refine Bool.eq_false_iff.mpr fun hnew => ?_
      rw [past_of_observed hnew] at hold
      cases hold }
  supplied u hu := { h.supplied u hu with }

end Consumers

section Reconnect

variable {cfg : ControllerConfig} {s : StreamController}

theorem getElem_opened {filter : SubscribeParams} {i : Nat} {h : StreamHandle}
    (hget : (s.openEventStream filter).handles[i]? = some h) :
    s.handles[i]? = some h ∨ i = s.handles.length ∧ h = ⟨filter, s.cursor, .connecting⟩ := by
  simp only [openEventStream] at hget
  rcases Nat.lt_or_ge i s.handles.length with hlt | hge
  · rw [List.getElem?_append_left hlt] at hget
    exact .inl hget
  · rw [List.getElem?_append_right hge] at hget
    obtain ⟨hzero, heq⟩ := List.getElem?_eq_some_iff.mp hget
    simp only [List.length_singleton] at hzero
    refine .inr ⟨by omega, ?_⟩
    simpa using heq.symm

theorem live_opened {filter : SubscribeParams} {i : Nat} {h : StreamHandle}
    (hlt : i < s.handles.length) (hlive : (s.openEventStream filter).Live i h) : s.Live i h := by
  rcases getElem_opened hlive.1 with hget | ⟨rfl, -⟩
  · exact ⟨hget, hlive.2⟩
  · omega

theorem Tracked.openEventStream (h : Tracked cfg s) (filter : SubscribeParams) :
    Tracked cfg (s.openEventStream filter) := by
  have hgrow : ∀ i, i < s.handles.length → i < (s.openEventStream filter).handles.length := by
    intro i hi
    simp only [StreamController.openEventStream, List.length_append, List.length_singleton]
    omega
  exact {
    sharedBound := fun i hi => hgrow i (h.sharedBound i hi)
    consumedBound := fun i hi => hgrow i (h.consumedBound i hi)
    awaitedBound := fun i hi => hgrow i (h.awaitedBound i hi)
    openedBound := fun base n i hi => hgrow i (h.openedBound base n i hi)
    openingBound := fun o ho => hgrow o.handle (h.openingBound o ho)
    openingEq := h.openingEq
    started := h.started
    behind := fun i hd hlive q hq => by
      rcases getElem_opened hlive.1 with hget | ⟨-, rfl⟩
      · exact h.behind i hd ⟨hget, hlive.2⟩ q hq
      · exact hq
    applied := h.applied
    seenConsumed := h.seenConsumed
    reading := fun i hd hi hlive => h.reading i hd hi (live_opened (h.awaitedBound i hi) hlive) }

theorem Supplied.openEventStream {u : Subscription} (hu : Supplied cfg s u) (h : Tracked cfg s)
    (filter : SubscribeParams) : Supplied cfg (s.openEventStream filter) u :=
  { hu with
    toCome := fun i hd hi hlive =>
      hu.toCome i hd hi (live_opened (h.sharedBound i hi) hlive)
    unread := fun i hd hi hlive =>
      hu.unread i hd hi (live_opened (h.consumedBound i hi) hlive)
    reached := fun i hd hi hlive =>
      hu.reached i hd hi (live_opened (h.consumedBound i hi) hlive) }

theorem Serving.openEventStream (h : Serving cfg s) (filter : SubscribeParams) :
    Serving cfg (s.openEventStream filter) :=
  ⟨h.tracked.openEventStream filter, fun u hu => (h.supplied u hu).openEventStream h.tracked filter⟩

def Room (cfg : ControllerConfig) (s : StreamController) : Prop :=
  ∀ u ∈ s.subscriptions, full cfg u = false

theorem putAll_room {picked : Subscription → Bool} {put : Subscription → Subscription}
    {subs : List Subscription} (h : ∀ u ∈ subs, picked u = true → full cfg u = false) :
    putAll cfg picked put subs = (subs.map (fun u => if picked u then put u else u), false) := by
  induction subs with
  | nil => rfl
  | cons u rest ih =>
    have hrest := ih fun v hv => h v (List.mem_cons_of_mem _ hv)
    cases hp : picked u with
    | false => simp [putAll, hp, hrest]
    | true =>
      have hroom : full cfg u = false := h u List.mem_cons_self hp
      simp [putAll, hp, hroom, hrest]

theorem terminate_eq (hroom : Room cfg s) : s.terminate cfg =
    { s with
      subscriptions := s.subscriptions.map (deliverEnd s.sharedAlive)
      fanout := .idle } := by
  simp only [terminate, putAll_room fun u hu _ => hroom u hu, if_true]

theorem Serving.terminate (h : Serving cfg s) (hroom : Room cfg s) (hdead : s.sharedAlive = false) :
    Serving cfg (s.terminate cfg) := by
  rw [terminate_eq hroom, hdead]
  have hidle : Serving cfg { s with fanout := .idle } :=
    h.resting (fun j hj => by cases hj) (fun j hj => by cases hj)
      (fun _ _ j hj => by cases hj) fun _ => rfl
  refine ⟨{ hidle.tracked with }, fun u hu => ?_⟩
  obtain ⟨v, hv, rfl⟩ := List.mem_map.mp hu
  exact { hidle.supplied v hv with
    uncut := by simp [deliverEnd, (h.supplied v hv).uncut] }

theorem told_terminate (hroom : Room cfg s) : (s.terminate cfg).Told := by
  rw [terminate_eq hroom]
  intro _ u hu
  obtain ⟨v, -, rfl⟩ := List.mem_map.mp hu
  exact .inl rfl

theorem Serving.attempt {base : SubscribeParams} {n : Nat} (h : Serving cfg s)
    (hs : s.sharedStream ≠ none)
    (hend : cfg.maxReconnectAttempts ≤ n → Room cfg s ∧ s.sharedAlive = false) :
    Serving cfg (s.attempt cfg base n) := by
  simp only [StreamController.attempt]
  split
  · refine (h.openEventStream base).resting (fun j hj => by cases hj) (fun j hj => by cases hj)
      (fun _ _ j hj => ?_) fun hnone => absurd hnone hs
    cases hj
    simp [StreamController.openEventStream]
  · rename_i hle
    obtain ⟨hroom, hdead⟩ := hend (by omega)
    exact h.terminate hroom hdead

theorem told_attempt {base : SubscribeParams} {n : Nat}
    (hend : cfg.maxReconnectAttempts ≤ n → Room cfg s) : (s.attempt cfg base n).Told := by
  simp only [StreamController.attempt]
  split
  · exact told_of_busy (by simp)
  · rename_i hle
    exact told_terminate (hend (by omega))

end Reconnect

section Endings

variable {cfg : ControllerConfig} {s : StreamController}

def Ends (cfg : ControllerConfig) (s : StreamController) : Prop :=
  Room cfg s ∧ s.sharedAlive = false

theorem closeShared_cases (hs : s.sharedStream ≠ none) :
    ∃ i, s.sharedStream = some i ∧ s.closeShared = s.closeHandle i := by
  cases hshared : s.sharedStream with
  | none => exact absurd hshared hs
  | some i => exact ⟨i, rfl, by simp [closeShared, hshared]⟩

theorem sharedAlive_false (hdead : ∀ i h, s.sharedStream = some i → ¬ s.Live i h) :
    s.sharedAlive = false := by
  cases hs : s.sharedStream with
  | none => simp [sharedAlive, hs]
  | some i =>
    cases hget : s.handles[i]? with
    | none => simp [sharedAlive, hs, statusOf, hget]
    | some h =>
      have hfalse : h.status.alive = false :=
        Bool.eq_false_iff.mpr fun halive => hdead i h hs ⟨hget, halive⟩
      simp [sharedAlive, hs, statusOf, hget, hfalse]

theorem sharedAlive_closeShared (hs : s.sharedStream ≠ none) :
    s.closeShared.sharedAlive = false := by
  obtain ⟨i, hshared, heq⟩ := closeShared_cases hs
  rw [heq]
  refine sharedAlive_false fun j hd hj => ?_
  have hj : s.sharedStream = some j := hj
  rw [hshared] at hj
  cases hj
  exact not_live_closeHandle

theorem Serving.closeShared (h : Serving cfg s) (hs : s.sharedStream ≠ none) :
    Serving cfg s.closeShared := by
  obtain ⟨i, -, heq⟩ := closeShared_cases hs
  rw [heq]
  exact h.closeHandle

theorem frame_closeShared (hs : s.sharedStream ≠ none) :
    s.closeShared.sharedStream = s.sharedStream ∧
      s.closeShared.subscriptions = s.subscriptions := by
  obtain ⟨i, -, heq⟩ := closeShared_cases hs
  rw [heq]
  exact ⟨rfl, rfl⟩

-- What must hold when `resolve` or `retry` gives up: nothing is cut short.
def Resolves (cfg : ControllerConfig) (s : StreamController) : Prop :=
  ∀ i, s.fanout = .awaiting i →
    (s.statusOf i = some .dropped → s.sharedStreamFilter = none ∨ cfg.maxReconnectAttempts = 0 →
      Room cfg s) ∧
    (s.statusOf i = some .ended ∨ s.statusOf i = some .closed → Ends cfg s)

def Retries (cfg : ControllerConfig) (s : StreamController) : Prop :=
  ∀ base n, s.fanout = .reconnecting base n none → cfg.maxReconnectAttempts ≤ n → Ends cfg s

theorem serving_resolve (h : Serving cfg s) (ht : s.Told) (hok : Resolves cfg s) :
    Serving cfg (s.resolve cfg) ∧ (s.resolve cfg).Told := by
  cases hf : s.fanout with
  | idle => simpa [resolve, hf] using ⟨h, ht⟩
  | consuming j => simpa [resolve, hf] using ⟨h, ht⟩
  | reconnecting base n opened => simpa [resolve, hf] using ⟨h, ht⟩
  | awaiting i =>
    obtain ⟨hdropped, hended⟩ := hok i hf
    have hs : s.sharedStream ≠ none := by
      obtain ⟨j, hs⟩ := h.tracked.shared_of_busy (by simp [hf])
      simp [hs]
    obtain ⟨hshared, hsubs⟩ := frame_closeShared hs
    have hclosed : Serving cfg s.closeShared := h.closeShared hs
    have hroom : Room cfg s → Room cfg s.closeShared := by
      intro hroom u hu
      rw [hsubs] at hu
      exact hroom u hu
    cases hstatus : s.statusOf i with
    | none => simpa [resolve, hf, hstatus] using ⟨h, ht⟩
    | some status =>
      cases status with
      | connecting => simpa [resolve, hf, hstatus] using ⟨h, ht⟩
      | ready => simpa [resolve, hf, hstatus] using ⟨h, ht⟩
      | ended =>
        obtain ⟨hr, hd⟩ := hended (.inl hstatus)
        simpa [resolve, hf, hstatus] using ⟨h.terminate hr hd, told_terminate hr⟩
      | closed =>
        obtain ⟨hr, hd⟩ := hended (.inr hstatus)
        simpa [resolve, hf, hstatus] using ⟨h.terminate hr hd, told_terminate hr⟩
      | dropped =>
        cases hfilter : s.sharedStreamFilter with
        | none =>
          have hr : Room cfg s.closeShared := hroom (hdropped hstatus (.inl hfilter))
          simpa [resolve, hf, hstatus, hfilter] using
            ⟨hclosed.terminate hr (sharedAlive_closeShared hs), told_terminate hr⟩
        | some base =>
          have hr : cfg.maxReconnectAttempts ≤ 0 → Room cfg s.closeShared := by
            intro hzero
            exact hroom (hdropped hstatus (.inr (by omega)))
          have hend : cfg.maxReconnectAttempts ≤ 0 →
              Room cfg s.closeShared ∧ s.closeShared.sharedAlive = false :=
            fun hzero => ⟨hr hzero, sharedAlive_closeShared hs⟩
          have hs' : s.closeShared.sharedStream ≠ none := by
            rw [hshared]
            exact hs
          have hnext : Serving cfg (s.closeShared.attempt cfg base 0) := hclosed.attempt hs' hend
          have htold : (s.closeShared.attempt cfg base 0).Told := told_attempt hr
          simpa [resolve, hf, hstatus, hfilter] using ⟨hnext, htold⟩

theorem serving_retry (h : Serving cfg s) (ht : s.Told) (hok : Retries cfg s) :
    Serving cfg (s.retry cfg) ∧ (s.retry cfg).Told := by
  simp only [retry]
  split
  · rename_i base n hf
    have hs : s.sharedStream ≠ none := by
      obtain ⟨j, hs⟩ := h.tracked.shared_of_busy (by simp [hf])
      simp [hs]
    exact ⟨h.attempt hs (hok base n hf), told_attempt fun hle => (hok base n hf hle).1⟩
  · exact ⟨h, ht⟩

theorem serving_exhausted (h : Serving cfg s) (ht : s.Told) :
    Serving cfg s.exhausted ∧ s.exhausted.Told := by
  simp only [exhausted]
  split
  · rename_i i hf
    split
    · exact ⟨h, ht⟩
    · rename_i hdead
      obtain ⟨j, hs⟩ := h.tracked.shared_of_busy (by simp [hf])
      have hnot : ∀ hd, ¬ s.Live i hd := by
        rintro hd ⟨hget, halive⟩
        simp [statusOf, hget, halive] at hdead
      refine ⟨h.leaveHandle hs hnot, told_of_busy ?_⟩
      rw [leaveHandle_cases hs]
      split <;> simp
  · exact ⟨h, ht⟩

theorem Serving.fromReady {i : Nat} {status : StreamStatus} (h : Serving cfg s)
    (hdead : status.alive = false) : Serving cfg (s.fromReady i status) := by
  simp only [StreamController.fromReady]
  split
  · refine h.setStatus fun halive => ?_
    rw [hdead] at halive
    cases halive
  · exact h

theorem Told.fromReady {i : Nat} {status : StreamStatus} (ht : s.Told) :
    (s.fromReady i status).Told := by
  simp only [StreamController.fromReady]
  split
  · exact ht
  · exact ht

theorem Told.closed (ht : s.Told) (i : Nat) : (s.closed i).Told := by
  simp only [StreamController.closed]
  split
  · exact ht
  · exact ht

end Endings

end StreamController

end Sdk

end LangGraph

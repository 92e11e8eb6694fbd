import LangGraph.Sdk.Subscription

namespace LangGraph

open Collections

namespace Sdk

section Union

-- What the fold over the subscriptions has gathered.
structure UnionState.Gathered (subs : List SubscribeParams) (u : UnionState) : Prop where
  channels : ∀ ch, ch ∈ u.channels ↔ ∃ sub ∈ subs, ch ∈ sub.channels
  wildcard : u.wildcardNamespaces = true ↔ ∃ sub ∈ subs, sub.namespaces = none
  diagonal : ∀ k v, u.namespaceMap.get? k = some v → v = k
  namespaces : u.wildcardNamespaces = false → ∀ ns, ns ∈ u.namespaceMap.keys ↔
    ∃ sub ∈ subs, ∃ nss, sub.namespaces = some nss ∧ ns ∈ nss
  unbounded : u.unboundedDepth = true ↔ ∃ sub ∈ subs, sub.depth = none
  depth : u.unboundedDepth = false → ∀ sub ∈ subs, ∀ d, sub.depth = some d → d ≤ u.maxDepth

theorem UnionState.gathered_start : start.Gathered [] where
  channels ch := by simp [start]
  wildcard := by simp [start]
  diagonal k v h := by simp [start] at h
  namespaces _ ns := by simp [start, Dict.mem_keys]
  unbounded := by simp [start]
  depth _ sub h := absurd h List.not_mem_nil

theorem UnionState.gathered_addChannels {subs : List SubscribeParams} {u : UnionState}
    (h : u.Gathered subs) (sub : SubscribeParams) (ch : String) :
    ch ∈ u.channels ∪ sub.channels.toFinset ↔ ∃ s ∈ subs ++ [sub], ch ∈ s.channels := by
  simp [h.channels, or_and_right, exists_or]

theorem UnionState.addNamespaces_frame (u : UnionState) (nss : Option (List Namespace)) :
    (u.addNamespaces nss).channels = u.channels ∧
      (u.addNamespaces nss).unboundedDepth = u.unboundedDepth ∧
      (u.addNamespaces nss).maxDepth = u.maxDepth := by
  cases nss with
  | none => exact ⟨rfl, rfl, rfl⟩
  | some nss =>
    rw [addNamespaces]
    split
    · exact ⟨rfl, rfl, rfl⟩
    · exact ⟨rfl, rfl, rfl⟩

theorem UnionState.addDepth_frame (u : UnionState) (depth : Option Int) :
    (u.addDepth depth).channels = u.channels ∧
      (u.addDepth depth).wildcardNamespaces = u.wildcardNamespaces ∧
      (u.addDepth depth).namespaceMap = u.namespaceMap := by
  cases depth with
  | none => exact ⟨rfl, rfl, rfl⟩
  | some d =>
    rw [addDepth]
    split
    · exact ⟨rfl, rfl, rfl⟩
    · exact ⟨rfl, rfl, rfl⟩

theorem UnionState.wildcard_addNamespaces (u : UnionState) (nss : Option (List Namespace)) :
    (u.addNamespaces nss).wildcardNamespaces = (u.wildcardNamespaces || nss.isNone) := by
  cases nss with
  | none => exact (Bool.or_true _).symm
  | some nss =>
    rw [addNamespaces]
    split
    · exact (Bool.or_false _).symm
    · exact (Bool.or_false _).symm

theorem UnionState.keys_addNamespaces {u : UnionState} (hu : u.wildcardNamespaces = false)
    (nss : List Namespace) (ns : Namespace) :
    ns ∈ (u.addNamespaces (some nss)).namespaceMap.keys ↔
      ns ∈ u.namespaceMap.keys ∨ ns ∈ nss := by
  rw [addNamespaces, hu, if_neg Bool.false_ne_true, Dict.mem_keys_update]
  simp

theorem UnionState.diagonal_addNamespaces {u : UnionState}
    (h : ∀ k v, u.namespaceMap.get? k = some v → v = k) (nss : Option (List Namespace)) :
    ∀ k v, (u.addNamespaces nss).namespaceMap.get? k = some v → v = k := by
  cases nss with
  | none => exact h
  | some nss =>
    rw [addNamespaces]
    split
    · exact h
    · intro k v hk
      rcases Dict.mem_items_update (Dict.get?_eq_some.mp hk) with hmem | hnew
      · exact h k v (Dict.get?_eq_some.mpr hmem)
      · obtain ⟨ns, -, heq⟩ := List.mem_map.mp hnew
        obtain ⟨rfl, rfl⟩ := Prod.mk.inj heq
        rfl

theorem UnionState.unbounded_addDepth (u : UnionState) (depth : Option Int) :
    (u.addDepth depth).unboundedDepth = (u.unboundedDepth || depth.isNone) := by
  cases depth with
  | none => exact (Bool.or_true _).symm
  | some d =>
    rw [addDepth]
    split
    · exact (Bool.or_false _).symm
    · exact (Bool.or_false _).symm

theorem UnionState.maxDepth_addDepth {u : UnionState} (hu : u.unboundedDepth = false) (d : Int) :
    (u.addDepth (some d)).maxDepth = max u.maxDepth d := by
  rw [addDepth, hu]
  simp only [Bool.not_false, Bool.true_and, decide_eq_true_eq]
  split
  · dsimp only
    omega
  · omega

theorem UnionState.Gathered.add {subs : List SubscribeParams} {u : UnionState}
    (h : u.Gathered subs) (sub : SubscribeParams) : (u.add sub).Gathered (subs ++ [sub]) := by
  obtain ⟨v, hv⟩ : ∃ v : UnionState, v = { u with channels := u.channels ∪ sub.channels.toFinset } :=
    ⟨_, rfl⟩
  have hadd : u.add sub = (v.addNamespaces sub.namespaces).addDepth sub.depth := by
    rw [hv]
    rfl
  obtain ⟨hchannels, hwildcard, hmap⟩ := addDepth_frame (v.addNamespaces sub.namespaces) sub.depth
  obtain ⟨hchannels', hunbounded', hmax'⟩ := addNamespaces_frame v sub.namespaces
  have hw : (u.add sub).wildcardNamespaces = (u.wildcardNamespaces || sub.namespaces.isNone) := by
    rw [hadd, hwildcard, wildcard_addNamespaces, hv]
  have hub : (u.add sub).unboundedDepth = (u.unboundedDepth || sub.depth.isNone) := by
    rw [hadd, unbounded_addDepth, hunbounded', hv]
  refine ⟨fun ch => ?_, ?_, ?_, fun hfalse ns => ?_, ?_, fun hfalse s hs d hd => ?_⟩
  · rw [hadd, hchannels, hchannels', hv]
    exact gathered_addChannels h sub ch
  · rw [hw, Bool.or_eq_true, h.wildcard]
    simp [or_and_right, exists_or]
  · rw [hadd, hmap]
    exact diagonal_addNamespaces (by rw [hv]; exact h.diagonal) _
  · rw [hw, Bool.or_eq_false_iff] at hfalse
    obtain ⟨hu, hnone⟩ := hfalse
    obtain ⟨nss, hnss⟩ := Option.isSome_iff_exists.mp (Option.isNone_eq_false_iff.mp hnone)
    rw [hadd, hmap, hnss, keys_addNamespaces (by rw [hv]; exact hu), hv]
    simp [h.namespaces hu, or_and_right, exists_or, hnss]
  · rw [hub, Bool.or_eq_true, h.unbounded]
    simp [or_and_right, exists_or]
  · rw [hub, Bool.or_eq_false_iff] at hfalse
    obtain ⟨hu, hnone⟩ := hfalse
    obtain ⟨d', hd'⟩ := Option.isSome_iff_exists.mp (Option.isNone_eq_false_iff.mp hnone)
    have hmax : (u.add sub).maxDepth = max u.maxDepth d' := by
      rw [hadd, hd', maxDepth_addDepth (by rw [hunbounded', hv]; exact hu), hmax', hv]
    rw [hmax]
    rcases List.mem_append.mp hs with hold | hnew
    · exact (h.depth hu s hold d hd).trans (le_max_left _ _)
    · rw [List.mem_singleton.mp hnew, hd'] at hd
      exact Option.some.inj hd ▸ le_max_right _ _

theorem UnionState.gathered_foldl (subs : List SubscribeParams) :
    (subs.foldl UnionState.add start).Gathered subs := by
  induction subs using List.reverseRecOn with
  | nil => exact gathered_start
  | append_singleton subs sub ih =>
    rw [List.foldl_append]
    exact ih.add sub

variable {subscriptions : List SubscribeParams} {s : SubscribeParams}

theorem computeUnionFilter_eq (h : subscriptions ≠ []) : ∃ u : UnionState,
    u.Gathered subscriptions ∧ computeUnionFilter subscriptions = u.result := by
  cases subscriptions with
  | nil => exact absurd rfl h
  | cons sub rest => exact ⟨_, UnionState.gathered_foldl (sub :: rest), rfl⟩

theorem UnionState.Gathered.mem_values {u : UnionState} (h : u.Gathered subscriptions)
    (hw : u.wildcardNamespaces = false) {ns : Namespace} : ns ∈ u.namespaceMap.values ↔
      ∃ sub ∈ subscriptions, ∃ nss, sub.namespaces = some nss ∧ ns ∈ nss := by
  rw [← h.namespaces hw ns, Dict.mem_values, Dict.mem_keys]
  constructor
  · rintro ⟨k, hk⟩
    obtain rfl := h.diagonal k ns hk
    exact ⟨ns, hk⟩
  · rintro ⟨v, hv⟩
    obtain rfl := h.diagonal ns v hv
    exact ⟨v, hv⟩

theorem UnionState.Gathered.result_namespaces {u : UnionState} (h : u.Gathered subscriptions) :
    u.result.namespaces = none ∧ ((∃ sub ∈ subscriptions, sub.namespaces = none) ∨
        ∀ sub ∈ subscriptions, sub.namespaces = some []) ∨
      u.result.namespaces = some u.namespaceMap.values ∧ u.wildcardNamespaces = false ∧
        u.namespaceMap.values ≠ [] := by
  cases hw : u.wildcardNamespaces with
  | true => exact Or.inl ⟨by simp [result, hw], Or.inl (h.wildcard.mp hw)⟩
  | false =>
    by_cases hitems : u.namespaceMap.items = []
    · refine Or.inl ⟨by simp [result, hw, hitems], Or.inr (fun sub hsub => ?_)⟩
      have hnone : ¬ ∃ sub ∈ subscriptions, sub.namespaces = none := by
        rw [← h.wildcard, hw]
        exact Bool.false_ne_true
      cases hnss : sub.namespaces with
      | none => exact absurd ⟨sub, hsub, hnss⟩ hnone
      | some nss =>
        cases nss with
        | nil => rfl
        | cons ns rest =>
          have hmem := (h.mem_values hw).mpr ⟨sub, hsub, _, hnss, List.mem_cons_self⟩
          rw [Dict.values, hitems] at hmem
          cases hmem
    · refine Or.inr ⟨by simp [result, hw, hitems], rfl, ?_⟩
      exact fun hnil => hitems (List.map_eq_nil_iff.mp hnil)

theorem filterCovers_union (hs : s ∈ subscriptions) :
    filterCovers (computeUnionFilter subscriptions) s = true := by
  obtain ⟨u, h, heq⟩ := computeUnionFilter_eq (List.ne_nil_of_mem hs)
  rw [heq]
  have hchannels : s.channels.all (fun ch => ch ∈ u.result.channels) = true := by
    refine List.all_eq_true.mpr (fun ch hch => decide_eq_true ?_)
    exact (Finset.mem_sort _).mpr ((h.channels ch).mpr ⟨s, hs, hch⟩)
  have hdepth : u.result.depth = none ∨
      ∃ d, s.depth = some d ∧ u.result.depth = some u.maxDepth ∧ d ≤ u.maxDepth := by
    cases hu : u.unboundedDepth with
    | true => exact Or.inl (by simp [UnionState.result, hu])
    | false =>
      cases hd : s.depth with
      | none =>
        have htrue := h.unbounded.mpr ⟨s, hs, hd⟩
        rw [hu] at htrue
        cases htrue
      | some d => exact Or.inr ⟨d, rfl, by simp [UnionState.result, hu], h.depth hu s hs d hd⟩
  rw [filterCovers, hchannels, Bool.true_and]
  rcases h.result_namespaces with ⟨hnone, -⟩ | ⟨hsome, hw, -⟩
  · rw [hnone]
    rcases hdepth with hd | ⟨d, hsd, hd, hle⟩
    · simp only [hd]
    · simp only [hd, hsd]
      exact decide_eq_true hle
  · cases hnss : s.namespaces with
    | none =>
      have htrue := h.wildcard.mpr ⟨s, hs, hnss⟩
      rw [hw] at htrue
      cases htrue
    | some nss =>
      rw [hsome]
      refine List.all_eq_true.mpr (fun tp htp => List.any_eq_true.mpr ⟨tp, ?_, ?_⟩)
      · exact (h.mem_values hw).mpr ⟨s, hs, nss, hnss, htp⟩
      · rw [isPrefixMatch_refl, Bool.true_and]
        rcases hdepth with hd | ⟨d, hsd, hd, hle⟩
        · simp only [hd, absorbs]
        · simp only [hd, hsd, absorbs]
          exact decide_eq_true (by omega)

theorem unscoped_union (h : subscriptions ≠ []) : (computeUnionFilter subscriptions).Unscoped ↔
    (∃ sub ∈ subscriptions, sub.namespaces = none) ∨
      (∀ sub ∈ subscriptions, sub.namespaces = some []) ∨
      (∃ sub ∈ subscriptions, sub.depth = none) ∧
        ∃ sub ∈ subscriptions, ∃ nss, sub.namespaces = some nss ∧ [] ∈ nss := by
  obtain ⟨u, hu, heq⟩ := computeUnionFilter_eq h
  rw [heq, SubscribeParams.Unscoped]
  rcases hu.result_namespaces with ⟨hnone, hwhy⟩ | ⟨hsome, hw, hne⟩
  · exact iff_of_true (Or.inl hnone) (or_assoc.mp (Or.inl hwhy))
  · have hdepth : u.result.depth = none ↔ ∃ sub ∈ subscriptions, sub.depth = none := by
      rw [← hu.unbounded, UnionState.result]
      cases u.unboundedDepth <;> simp
    have hscoped : ¬ ∃ sub ∈ subscriptions, sub.namespaces = none := by
      rw [← hu.wildcard, hw]
      exact Bool.false_ne_true
    obtain ⟨ns, hns⟩ := List.exists_mem_of_ne_nil _ hne
    obtain ⟨sub, hsub, nss, hnss, hmem⟩ := (hu.mem_values hw).mp hns
    have hsomeNonempty : ¬ ∀ sub ∈ subscriptions, sub.namespaces = some [] := by
      intro hall
      rw [hall sub hsub] at hnss
      rw [← Option.some.inj hnss] at hmem
      cases hmem
    rw [hsome, hdepth]
    simp only [reduceCtorEq, Option.some.injEq, hne, hscoped, hsomeNonempty, false_or,
      exists_eq_left', hu.mem_values hw]

end Union

section Deliveries

-- The channels that some event is mapped to.
def Inferable (channel : String) : Prop :=
  channel ∈ directMethods ∨ channel = "custom" ∨ channel = "input" ∨
    ∃ name, name ≠ "" ∧ channel = "custom:" ++ name

def SubscribeParams.Deliverable (d : SubscribeParams) : Prop := ∃ ch ∈ d.channels, Inferable ch

theorem inferChannel_inferable {event : ProtocolEvent} {channel : String}
    (h : inferChannel event = some channel) : Inferable channel := by
  unfold inferChannel at h
  split at h
  · cases h
  · split_ifs at h with hdirect hcustom hinput
    · exact Or.inl (Option.some.inj h ▸ hdirect)
    · unfold inferCustom at h
      split at h
      · exact Or.inr (Or.inl (Option.some.inj h).symm)
      · split_ifs at h with hname
        · exact Or.inr (Or.inl (Option.some.inj h).symm)
        · exact Or.inr (Or.inr (Or.inr ⟨_, hname, (Option.some.inj h).symm⟩))
    · exact Or.inr (Or.inr (Or.inl (Option.some.inj h).symm))

theorem exists_event {channel : String} (h : Inferable channel) (ns : Namespace) :
    ∃ event : ProtocolEvent, inferChannel event = some channel ∧
      (event.params.bind EventParams.eventNamespace).getD [] = ns := by
  rcases h with hdirect | rfl | rfl | ⟨name, hname, rfl⟩
  · exact ⟨⟨some channel, some ⟨some ns, none⟩⟩, by simp [inferChannel, hdirect], rfl⟩
  · exact ⟨⟨some "custom", some ⟨some ns, none⟩⟩, by rfl, rfl⟩
  · exact ⟨⟨some "input.requested", some ⟨some ns, none⟩⟩, by rfl, rfl⟩
  · refine ⟨⟨some "custom", some ⟨some ns, some name⟩⟩, ?_, rfl⟩
    have hcustom : "custom" ∉ directMethods := by decide
    simp [inferChannel, hcustom, inferCustom, hname]

theorem matchesSubscription_iff {event : ProtocolEvent} {d : SubscribeParams} :
    matchesSubscription event d = true ↔
      ∃ channel, inferChannel event = some channel ∧ channelListed channel d.channels = true ∧
        namespaceMatches ((event.params.bind EventParams.eventNamespace).getD []) d.namespaces
          d.depth = true := by
  unfold matchesSubscription
  cases inferChannel event with
  | none => simp
  | some channel => simp

theorem deliverable_of_match {event : ProtocolEvent} {d : SubscribeParams}
    (h : matchesSubscription event d = true) : d.Deliverable := by
  obtain ⟨channel, hinfer, hlisted, -⟩ := matchesSubscription_iff.mp h
  simp only [channelListed, Bool.or_eq_true, Bool.and_eq_true, decide_eq_true_eq] at hlisted
  rcases hlisted with hmem | ⟨-, hmem⟩
  · exact ⟨channel, hmem, inferChannel_inferable hinfer⟩
  · exact ⟨"custom", hmem, Or.inr (Or.inl rfl)⟩

-- A filter that lists a wildcard's channels gets all its events just when it is unscoped.
theorem wildcard_delivered_iff {s d : SubscribeParams} (hs : s.namespaces = some [])
    (hchannels : ∀ ch ∈ s.channels, ch ∈ d.channels) :
    (∀ event, matchesSubscription event s = true → matchesSubscription event d = true) ↔
      (s.Deliverable → d.Unscoped) := by
  constructor
  · rintro h ⟨ch, hch, hinferable⟩
    refine SubscribeParams.unscoped_iff.mpr (fun ns => ?_)
    obtain ⟨event, hinfer, rfl⟩ := exists_event hinferable ns
    have hmatch : matchesSubscription event s = true :=
      matchesSubscription_iff.mpr ⟨ch, hinfer, by simp [channelListed, hch], by rw [hs]; rfl⟩
    obtain ⟨-, -, -, hns⟩ := matchesSubscription_iff.mp (h event hmatch)
    exact hns
  · intro h event hmatch
    have hunscoped := SubscribeParams.unscoped_iff.mp (h (deliverable_of_match hmatch))
    obtain ⟨channel, hinfer, hlisted, -⟩ := matchesSubscription_iff.mp hmatch
    exact matchesSubscription_iff.mpr
      ⟨channel, hinfer, channelListed_mono hchannels hlisted, hunscoped _⟩

theorem delivered_of_covers {c s : SubscribeParams} (h : filterCovers c s = true)
    (hs : s.namespaces ≠ some []) (event : ProtocolEvent)
    (hmatch : matchesSubscription event s = true) : matchesSubscription event c = true := by
  obtain ⟨channel, hinfer, hlisted, hns⟩ := matchesSubscription_iff.mp hmatch
  exact matchesSubscription_iff.mpr ⟨channel, hinfer,
    channelListed_mono (filterCovers_channels h) hlisted, namespaceMatches_of_covers h hs hns⟩

theorem filterCovers_wildcard {c s : SubscribeParams} (hs : s.namespaces = some [])
    (hc : c.namespaces ≠ none) :
    filterCovers c s = true ↔ ∀ ch ∈ s.channels, ch ∈ c.channels := by
  refine ⟨filterCovers_channels, fun h => ?_⟩
  cases hcn : c.namespaces with
  | none => exact absurd hcn hc
  | some cs =>
    rw [filterCovers, hcn, hs]
    refine Bool.and_eq_true_iff.mpr ⟨?_, rfl⟩
    exact List.all_eq_true.mpr (fun ch hch => decide_eq_true (h ch hch))

theorem wildcard_covers_iff {c s : SubscribeParams} (hs : s.namespaces = some []) :
    (filterCovers c s = true → ∀ event, matchesSubscription event s = true →
        matchesSubscription event c = true) ↔
      (s.Deliverable → (∀ ch ∈ s.channels, ch ∈ c.channels) → c.Unscoped) := by
  constructor
  · intro h hdeliverable hchannels
    by_cases hc : c.namespaces = none
    · exact Or.inl hc
    · exact (wildcard_delivered_iff hs hchannels).mp
        (h ((filterCovers_wildcard hs hc).mpr hchannels)) hdeliverable
  · intro h hcovers
    have hchannels := filterCovers_channels hcovers
    exact (wildcard_delivered_iff hs hchannels).mpr (fun hd => h hd hchannels)

theorem filters_sound_iff (c : SubscribeParams) {subscriptions : List SubscribeParams}
    {s : SubscribeParams} (hs : s ∈ subscriptions) :
    (∀ event : ProtocolEvent,
        (filterCovers c s = true → matchesSubscription event s = true →
          matchesSubscription event c = true) ∧
        (matchesSubscription event s = true →
          matchesSubscription event (computeUnionFilter subscriptions) = true) ∧
        filterCovers (computeUnionFilter subscriptions) s = true) ↔
      (s.namespaces = some [] → s.Deliverable →
        ((∀ ch ∈ s.channels, ch ∈ c.channels) → c.Unscoped) ∧
        ((∃ sub ∈ subscriptions, sub.namespaces = none) ∨
          (∀ sub ∈ subscriptions, sub.namespaces = some []) ∨
          (∃ sub ∈ subscriptions, sub.depth = none) ∧
            ∃ sub ∈ subscriptions, ∃ nss, sub.namespaces = some nss ∧ [] ∈ nss)) := by
  have hunion := filterCovers_union hs
  by_cases hwild : s.namespaces = some []
  · have hkept := (wildcard_delivered_iff hwild (filterCovers_channels hunion)).trans
      (forall_congr' (fun _ => unscoped_union (List.ne_nil_of_mem hs)))
    have hcovers := @wildcard_covers_iff c s hwild
    constructor
    · intro h _ hdeliverable
      exact ⟨hcovers.mp (fun hc event => (h event).1 hc) hdeliverable,
        hkept.mp (fun event => (h event).2.1) hdeliverable⟩
    · intro h event
      exact ⟨fun hc => hcovers.mpr (fun hd => (h hwild hd).1) hc event,
        hkept.mpr (fun hd => (h hwild hd).2) event, hunion⟩
  · refine iff_of_true (fun event => ⟨fun hc => ?_, ?_, hunion⟩) (fun h => absurd h hwild)
    · exact delivered_of_covers hc hwild event
    · exact delivered_of_covers hunion hwild event

theorem scoped_filters_sound :
    let fetcher : SubscribeParams := ⟨["values"], some [["fetcher"]], some 1⟩
    let values : SubscribeParams := ⟨["values", "custom"], some [[]], none⟩
    fetcher ∈ [fetcher, values] ∧
      (∀ event, (filterCovers values fetcher = true → matchesSubscription event fetcher = true →
          matchesSubscription event values = true) ∧
        (matchesSubscription event fetcher = true →
          matchesSubscription event (computeUnionFilter [fetcher, values]) = true) ∧
        filterCovers (computeUnionFilter [fetcher, values]) fetcher = true) := by
  intro fetcher values
  have hmem : fetcher ∈ [fetcher, values] := List.mem_cons_self
  exact ⟨hmem, (filters_sound_iff values hmem).mpr (fun h => by simp [fetcher] at h)⟩

-- The empty list of namespaces asks for everything and is dropped from the union.
theorem wildcard_dropped :
    ¬ ∀ (c : SubscribeParams) (subscriptions : List SubscribeParams), ∀ s ∈ subscriptions,
      ∀ event : ProtocolEvent,
        (filterCovers c s = true → matchesSubscription event s = true →
          matchesSubscription event c = true) ∧
        (matchesSubscription event s = true →
          matchesSubscription event (computeUnionFilter subscriptions) = true) ∧
        filterCovers (computeUnionFilter subscriptions) s = true := by
  intro h
  obtain ⟨hcovers, -, -⟩ := h ⟨["values"], some [["fetcher"]], none⟩
    [⟨["values"], some [], none⟩, ⟨["values"], some [["fetcher"]], none⟩]
    ⟨["values"], some [], none⟩ List.mem_cons_self ⟨some "values", some ⟨some ["other"], none⟩⟩
  exact Bool.false_ne_true (hcovers (by decide) (by decide))

end Deliveries

end Sdk

end LangGraph

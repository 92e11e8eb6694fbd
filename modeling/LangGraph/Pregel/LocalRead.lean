import LangGraph.Pregel.SnapshotValues

namespace LangGraph

open Collections

def Channel.refusal (c : Channel) (vs : List Value) : Option UpdateError :=
  match (c.update vs).2 with
  | .error e => some e
  | .ok _ => none

namespace InputKeys

-- The managed values of a selection are read apart, where it is a list.
def managedKeys (managed : Dict String Value) : InputKeys → List String
  | .single _ => []
  | .many select => select.filter (· ∈ managed.keys)

def channelKeys (managed : Dict String Value) : InputKeys → InputKeys
  | .single chan => .single chan
  | .many select => .many (select.filter (· ∉ managed.keys))

def selects (managed : Dict String Value) (chan : String) : InputKeys → Bool
  | .single select => chan = select
  | .many select => chan ∈ select ∧ chan ∉ managed.keys

end InputKeys

def withManaged (managed : Dict String Value) (keys : List String) : Value → Value
  | .dict values => .dict ((Dict.ofList values).update
      (keys.filterMap (fun k => (managed.get? k).map (fun v => (k, v))))).items
  | v => v

-- The first channel that refuses its update stops the loop over the channels.
def localRead (managed : Dict String Value) (channels : Dict String Channel)
    (task : PregelTaskWrites) (select : InputKeys) (fresh : Bool) : Except UpdateError Value :=
  let updated := fun chan => if select.selects managed chan then writesTo chan task.writes else []
  let read := fun channels =>
    withManaged managed (select.managedKeys managed)
      (readChannels channels (select.channelKeys managed))
  if fresh then
    match channels.items.findSome? (fun e => e.2.refusal (updated e.1)) with
    | some e => .error e
    | none =>
        .ok (read (channels.filterMap (fun chan c => some (c.update (updated chan)).1)))
  else .ok (read channels)

variable {Ver : Type} {managed : Dict String Value} {channels : Dict String Channel}
  {task : PregelTaskWrites} {select : InputKeys} {chan : String} {c : Channel} {vs : List Value}

def Refuses (channels : Dict String Channel) (task : PregelTaskWrites) (chan : String) : Prop :=
  ∃ c, channels.get? chan = some c ∧ c.refusal (writesTo chan task.writes) ≠ none

-- `consume` and `finish` leave the channel as it is.
def Undisturbed (channels : Dict String Channel) (task : PregelTaskWrites) (chan : String) : Prop :=
  ∀ c, channels.get? chan = some c →
    consumedChannel channels [task] chan c = c ∧
      (c.update (writesTo chan task.writes)).1.finish.1 =
        (c.update (writesTo chan task.writes)).1

namespace Channel

theorem refusal_nil (c : Channel) : c.refusal [] = none := by
  cases c with
  | anyValue c =>
    obtain ⟨_ | v⟩ := c
    · rfl
    · rfl
  | ephemeralValue c =>
    obtain ⟨key, guard, _ | v⟩ := c
    · rfl
    · rfl
  | topic c =>
    obtain ⟨_ | _, _ | ⟨v, vs⟩⟩ := c
    · rfl
    · rfl
    · rfl
    · rfl
  | _ => rfl

theorem refusal_addNames (key : String) (names : Finset Value) (vs : List Value)
    (seen seen' : Finset Value) (b b' : Bool) :
    (∃ e, (addNames key names vs seen b).2 = .error e ∧
        (addNames key names vs seen' b').2 = .error e) ∨
      ∃ r r', (addNames key names vs seen b).2 = .ok r ∧ (addNames key names vs seen' b').2 = .ok r' := by
  induction vs generalizing seen seen' b b' with
  | nil => exact Or.inr ⟨b, b', rfl, rfl⟩
  | cons v vs ih =>
    simp only [addNames]
    split
    · split
      · split
        · exact ih _ _ _ _
        · exact ih _ _ _ _
      · split
        · exact ih _ _ _ _
        · exact ih _ _ _ _
    · exact Or.inl ⟨_, rfl, rfl⟩

theorem refusal_of_addNames {c c' : Channel} {key : String} {names seen seen' : Finset Value}
    (h : (c.update vs).2 = (addNames key names vs seen false).2)
    (h' : (c'.update vs).2 = (addNames key names vs seen' false).2) :
    c.refusal vs = c'.refusal vs := by
  unfold refusal
  rw [h, h']
  rcases refusal_addNames key names vs seen seen' false false with ⟨e, he, he'⟩ | ⟨r, r', hr, hr'⟩
  · rw [he, he']
  · rw [hr, hr']

theorem refusal_consume (c : Channel) (vs : List Value) : c.consume.1.refusal vs = c.refusal vs := by
  cases c with
  | lastValueAfterFinish c =>
    have hnone (d : LastValueAfterFinish) : (Channel.lastValueAfterFinish d).refusal vs = none := by
      change (match (d.update vs).2 with | .error e => some e | .ok _ => none) = none
      unfold LastValueAfterFinish.update
      cases vs.getLast? with
      | none => rfl
      | some v => rfl
    exact (hnone c.consume.1).trans (hnone c).symm
  | namedBarrierValue c =>
    change (Channel.namedBarrierValue c.consume.1).refusal vs = _
    unfold NamedBarrierValue.consume
    split
    · exact refusal_of_addNames rfl rfl
    · rfl
  | namedBarrierValueAfterFinish c =>
    change (Channel.namedBarrierValueAfterFinish c.consume.1).refusal vs = _
    unfold NamedBarrierValueAfterFinish.consume
    split
    · exact refusal_of_addNames rfl rfl
    · rfl
  | _ => rfl

theorem stepped_nil (c : Channel) : c.stepped false = (c.update []).1 := by
  unfold stepped
  split
  · rfl
  · rename_i hoff
    cases c with
    | anyValue c =>
      obtain ⟨_ | v⟩ := c
      · rfl
      · exact absurd rfl hoff
    | ephemeralValue c =>
      obtain ⟨key, guard, _ | v⟩ := c
      · rfl
      · exact absurd rfl hoff
    | topic c =>
      obtain ⟨accumulate, _ | ⟨v, vs⟩⟩ := c
      · cases accumulate with
        | true => rfl
        | false => rfl
      · exact absurd rfl hoff
    | _ => rfl

theorem stepped_topic_kept (c : Topic) (hvs : flatten vs = []) :
    (Channel.topic (c.update vs).1).stepped false = .topic (c.update vs).1 := by
  rw [stepped_nil]
  change Channel.topic ((c.update vs).1.update []).1 = _
  rw [Topic.update_fst, Topic.update_fst, hvs]
  obtain ⟨accumulate, values⟩ := c
  cases accumulate with
  | true => simp [Topic.kept, flatten]
  | false => rfl

theorem stepped_update (c : Channel) (hvs : vs ≠ []) :
    (c.update vs).1.stepped (c.freshened vs) = (c.update vs).1 := by
  have hempty : vs.isEmpty = false := by simpa using hvs
  have hstepped (d : Channel) : d.stepped true = d := by simp [stepped]
  cases c with
  | anyValue c =>
    have hfresh : (Channel.anyValue c).freshened vs = true := by simp [freshened, hempty]
    rw [hfresh, hstepped]
  | ephemeralValue c =>
    have hfresh : (Channel.ephemeralValue c).freshened vs = true := by simp [freshened, hempty]
    rw [hfresh, hstepped]
  | topic c =>
    cases hflat : flatten vs with
    | nil =>
      have hfresh : (Channel.topic c).freshened vs = false := by simp [freshened, hflat]
      rw [hfresh]
      exact stepped_topic_kept c hflat
    | cons v flat =>
      have hfresh : (Channel.topic c).freshened vs = true := by simp [freshened, hflat]
      rw [hfresh, hstepped]
  | _ => exact stepped_of_kind (by rw [kind_update]; simp [kind]) _

theorem stepped_written (c : Channel) (vs : List Value) :
    (c.written vs).1.stepped (c.freshened vs) = (c.update vs).1 := by
  unfold written
  split
  · rename_i hnil
    rw [hnil, freshened_nil]
    exact c.stepped_nil
  · rename_i hvs
    exact c.stepped_update hvs

theorem shown_undisturbed (hfinish : (c.update vs).1.finish.1 = (c.update vs).1) (finish : Bool) :
    c.shown vs (c.freshened vs) finish = (c.update vs).1.get := by
  unfold shown
  simp only [stepped_written]
  cases finish with
  | true => exact congrArg get hfinish
  | false => rfl

end Channel

theorem selects_single {managed : Dict String Value} {chan : String} :
    (InputKeys.single chan).selects managed chan = true := by
  simp [InputKeys.selects]

theorem readChannels_congr {channels' : Dict String Channel}
    (h : ∀ chan, select.selects managed chan = true →
      readChannel channels chan = readChannel channels' chan) :
    readChannels channels (select.channelKeys managed) =
      readChannels channels' (select.channelKeys managed) := by
  cases select with
  | single chan =>
    have hread := h chan selects_single
    simp only [InputKeys.channelKeys, readChannels, hread]
  | many keys =>
    have hread : ∀ chan ∈ keys.filter (· ∉ managed.keys),
        (readChannel channels chan).map (fun v => (chan, v)) =
          (readChannel channels' chan).map (fun v => (chan, v)) := by
      intro chan hchan
      have hselects : (InputKeys.many keys).selects managed chan = true := by
        simpa [InputKeys.selects] using hchan
      rw [h chan hselects]
    simp only [InputKeys.channelKeys, readChannels, List.filterMap_congr hread]

def updatesOf (managed : Dict String Value) (task : PregelTaskWrites) (select : InputKeys)
    (chan : String) : List Value :=
  if select.selects managed chan then writesTo chan task.writes else []

theorem updatesOf_selected (h : select.selects managed chan = true) :
    updatesOf managed task select chan = writesTo chan task.writes := if_pos h

def refused (managed : Dict String Value) (channels : Dict String Channel)
    (task : PregelTaskWrites) (select : InputKeys) : Option UpdateError :=
  channels.items.findSome? (fun e => e.2.refusal (updatesOf managed task select e.1))

theorem localRead_stale : localRead managed channels task select false =
    .ok (withManaged managed (select.managedKeys managed)
      (readChannels channels (select.channelKeys managed))) := rfl

theorem localRead_refused {e : UpdateError} (h : refused managed channels task select = some e) :
    localRead managed channels task select true = .error e := by
  change (match refused managed channels task select with
    | some e => _
    | none => _) = _
  rw [h]

theorem localRead_accepted (h : refused managed channels task select = none) :
    localRead managed channels task select true =
      .ok (withManaged managed (select.managedKeys managed)
        (readChannels (channels.filterMap (fun chan c =>
          some (c.update (updatesOf managed task select chan)).1))
          (select.channelKeys managed))) := by
  change (match refused managed channels task select with
    | some e => _
    | none => _) = _
  rw [h]
  rfl

theorem refuses_of_refused {e : UpdateError} (h : refused managed channels task select = some e) :
    ∃ chan c, select.selects managed chan = true ∧ channels.get? chan = some c ∧
      c.refusal (writesTo chan task.writes) = some e := by
  obtain ⟨⟨chan, c⟩, hmem, hrefusal⟩ := List.exists_of_findSome?_eq_some h
  cases hselects : select.selects managed chan with
  | false =>
    rw [updatesOf, hselects] at hrefusal
    exact absurd (c.refusal_nil.symm.trans hrefusal) (by simp)
  | true =>
    rw [updatesOf_selected hselects] at hrefusal
    exact ⟨chan, c, hselects, Dict.get?_eq_some.mpr hmem, hrefusal⟩

theorem refused_isSome_iff : (∃ e, refused managed channels task select = some e) ↔
    ∃ chan, select.selects managed chan = true ∧ Refuses channels task chan := by
  constructor
  · rintro ⟨e, h⟩
    obtain ⟨chan, c, hselects, hc, hrefusal⟩ := refuses_of_refused h
    refine ⟨chan, hselects, c, hc, ?_⟩
    rw [hrefusal]
    exact Option.some_ne_none e
  · rintro ⟨chan, hselects, c, hc, hrefusal⟩
    refine Option.isSome_iff_exists.mp (List.findSome?_isSome_iff.mpr ⟨(chan, c), ?_, ?_⟩)
    · exact Dict.get?_eq_some.mp hc
    · rw [updatesOf_selected hselects]
      exact Option.isSome_iff_ne_none.mpr hrefusal

section Apply

variable {checkpoint : Checkpoint Ver} {triggerToNodes : Dict String (List String)}
  {getNextVersion : GetNextVersion Ver}

theorem batchOf_single (hi : chan ∉ ignoredWrites) (hc : channels.get? chan = some c) :
    batchOf channels [task] chan = writesTo chan task.writes := by
  rw [batchOf, pendingWritesByChannel,
    getD_groupWrites hi (Dict.mem_keys.mpr ⟨c, hc⟩)]
  simp

theorem errorOf_single (hi : chan ∉ ignoredWrites) (hc : channels.get? chan = some c) :
    errorOf channels [task] chan = c.refusal (writesTo chan task.writes) := by
  have hrefusal : (consumedChannel channels [task] chan c).refusal (writesTo chan task.writes) =
      c.refusal (writesTo chan task.writes) := by
    unfold consumedChannel
    split
    · exact c.refusal_consume _
    · rfl
  rw [← hrefusal, errorOf, hc, batchOf_single hi hc, Option.map_some, Channel.refusal]
  cases ((consumedChannel channels [task] chan c).update (writesTo chan task.writes)).2 with
  | error e => rfl
  | ok b => rfl

theorem mem_pending_of_refusal {e : UpdateError} (hi : chan ∉ ignoredWrites)
    (hc : channels.get? chan = some c)
    (hrefusal : c.refusal (writesTo chan task.writes) = some e) :
    chan ∈ (pendingWritesByChannel channels [task]).keys := by
  by_contra hmem
  have hnil : writesTo chan task.writes = [] := by
    rw [← batchOf_single hi hc]
    exact batchOf_of_not_mem hmem
  rw [hnil, c.refusal_nil] at hrefusal
  cases hrefusal

variable [LinearOrder Ver]

theorem applied_error_of_refusal {e : UpdateError} (hi : chan ∉ ignoredWrites)
    (hc : channels.get? chan = some c)
    (hrefusal : c.refusal (writesTo chan task.writes) = some e) :
    ∃ e' chan' c', (applyWrites checkpoint channels [task] (some getNextVersion)
        triggerToNodes).2.2 = .error e' ∧ channels.get? chan' = some c' ∧
      c'.refusal (writesTo chan' task.writes) = some e' := by
  have hmem := mem_pending_of_refusal hi hc hrefusal
  have herror : errorOf channels [task] chan = some e := (errorOf_single hi hc).trans hrefusal
  have hsome : ((pendingWritesByChannel channels [task]).keys.findSome?
      (errorOf channels [task])).isSome = true := by
    rw [List.findSome?_isSome_iff]
    exact ⟨chan, hmem, by rw [herror]; rfl⟩
  obtain ⟨e', hfirst⟩ := Option.isSome_iff_exists.mp hsome
  obtain ⟨chan', hmem', herror'⟩ := List.exists_of_findSome?_eq_some hfirst
  obtain ⟨hi', hkeys', -⟩ := mem_keys_groupWrites.mp hmem'
  obtain ⟨c', hc'⟩ := Dict.mem_keys.mp hkeys'
  refine ⟨e', chan', c', ?_, hc', (errorOf_single hi' hc').symm.trans herror'⟩
  exact (error_applyWrites checkpoint channels [task] (some getNextVersion) triggerToNodes e').mpr
    hfirst

theorem refused_none_of_applied
    (hnames : ∀ chan, select.selects managed chan = true → chan ∉ ignoredWrites)
    (hok : ∀ e, (applyWrites checkpoint channels [task] (some getNextVersion)
      triggerToNodes).2.2 ≠ .error e) : refused managed channels task select = none := by
  cases hrefused : refused managed channels task select with
  | none => rfl
  | some e =>
    obtain ⟨chan, c, hselects, hc, hrefusal⟩ := refuses_of_refused hrefused
    obtain ⟨e', -, -, herror, -, -⟩ := @applied_error_of_refusal Ver _ _ _ _ checkpoint
      triggerToNodes getNextVersion _ e (hnames chan hselects) hc hrefusal
    exact absurd herror (hok e')

theorem readChannel_undisturbed (hi : chan ∉ ignoredWrites) (htriggers : task.triggers ≠ [])
    (hok : ∀ e, (applyWrites checkpoint channels [task] (some getNextVersion)
      triggerToNodes).2.2 ≠ .error e) (hstill : Undisturbed channels task chan) :
    readChannel (applyWrites checkpoint channels [task] (some getNextVersion) triggerToNodes).2.1
        chan =
      (channels.get? chan).bind (fun c => (c.update (writesTo chan task.writes)).1.get) := by
  have hsort : sortTasks [task] = [task] := rfl
  have hbump : bumpStep [task] = true := by simpa [bumpStep] using htriggers
  rw [(readChannel_applyWrites hok chan).2, hsort]
  cases hc : channels.get? chan with
  | none => rfl
  | some c =>
    obtain ⟨hconsumed, hfinish⟩ := hstill c hc
    have hfresh : freshens channels [task] chan = c.freshened (writesTo chan task.writes) := by
      rw [freshens, hc, Option.map_some, hconsumed, batchOf_single hi hc]
      rfl
    simp only [Option.bind_some, readAfter, hbump, if_true, hconsumed, hfresh, Option.isSome_some,
      Bool.true_and, batchOf_single hi hc]
    exact Channel.shown_undisturbed hfinish _

theorem readChannel_updated (hselects : select.selects managed chan = true) :
    readChannel (channels.filterMap (fun chan c =>
        some (c.update (updatesOf managed task select chan)).1)) chan =
      (channels.get? chan).bind (fun c => (c.update (writesTo chan task.writes)).1.get) := by
  rw [readChannel, Dict.get?_filterMap]
  cases channels.get? chan with
  | none => rfl
  | some c => simp only [Option.bind_some, updatesOf_selected hselects]

theorem localRead_error_iff {e : UpdateError} :
    localRead managed channels task select true = .error e ↔
      refused managed channels task select = some e := by
  cases h : refused managed channels task select with
  | none => simp [localRead_accepted h]
  | some e' => simp [localRead_refused h]

theorem localRead_applied
    (hnames : ∀ chan, select.selects managed chan = true → chan ∉ ignoredWrites)
    (htriggers : task.triggers ≠ []) :
    let applied := applyWrites checkpoint channels [task] (some getNextVersion) triggerToNodes
    ((∀ e, applied.2.2 ≠ .error e) →
        (∀ chan, select.selects managed chan = true → Undisturbed channels task chan) →
        localRead managed channels task select true =
          localRead managed applied.2.1 task select false) ∧
      ((∃ e, localRead managed channels task select true = .error e) ↔
        ∃ chan, select.selects managed chan = true ∧ Refuses channels task chan) ∧
      ∀ e, localRead managed channels task select true = .error e →
        ∃ e', applied.2.2 = .error e' ∧
          ((∀ chan chan', Refuses channels task chan → Refuses channels task chan' →
            chan = chan') → e' = e) := by
  refine ⟨fun hok hstill => ?_, ?_, fun e hread => ?_⟩
  · rw [localRead_accepted (refused_none_of_applied hnames hok), localRead_stale]
    congr 2
    refine readChannels_congr (fun chan hselects => ?_)
    rw [readChannel_updated hselects,
      readChannel_undisturbed (hnames chan hselects) htriggers hok (hstill chan hselects)]
  · simp only [localRead_error_iff]
    exact refused_isSome_iff
  · obtain ⟨chan, c, hselects, hc, hrefusal⟩ := refuses_of_refused (localRead_error_iff.mp hread)
    obtain ⟨e', chan', c', herror, hc', hrefusal'⟩ := @applied_error_of_refusal Ver _ _ _ _
      checkpoint triggerToNodes getNextVersion _ e (hnames chan hselects) hc hrefusal
    refine ⟨e', herror, fun hone => ?_⟩
    have hchan : chan' = chan := by
      refine hone chan' chan ⟨c', hc', ?_⟩ ⟨c, hc, ?_⟩
      · rw [hrefusal']
        exact Option.some_ne_none e'
      · rw [hrefusal]
        exact Option.some_ne_none e
    subst hchan
    obtain rfl := Option.some.inj (hc.symm.trans hc')
    exact Option.some.inj (hrefusal'.symm.trans hrefusal)

end Apply

def lastChannel (chan : String) : String × Channel := (chan, .lastValue ⟨chan, none⟩)

def writesTask (writes : List Write) (triggers : List String) : PregelTaskWrites :=
  ⟨[], "node", writes, triggers⟩

def appliedTo (channels : Dict String Channel) (task : PregelTaskWrites) :
    Dict String Channel × Except UpdateError (Finset String) :=
  (applyWrites (emptyCheckpoint "id") channels [task] (some successor) ∅).2

theorem localRead_applied_value :
    localRead (Dict.ofList [("left", .int 9)]) (Dict.ofList [lastChannel "a", lastChannel "b"])
        (writesTask [("b", .int 3)] ["start"]) (.many ["b", "left"]) true =
      localRead (Dict.ofList [("left", .int 9)])
        (appliedTo (Dict.ofList [lastChannel "a", lastChannel "b"])
          (writesTask [("b", .int 3)] ["start"])).1
        (writesTask [("b", .int 3)] ["start"]) (.many ["b", "left"]) false := by
  have hselects (chan : String) : (InputKeys.many ["b", "left"]).selects
      (Dict.ofList [("left", Value.int 9)]) chan = true → chan = "b" := by
    intro h
    obtain ⟨hmem, hmanaged⟩ := of_decide_eq_true h
    rcases List.mem_pair.mp hmem with rfl | rfl
    · rfl
    · exact absurd (by decide) hmanaged
  refine (@localRead_applied Nat (Dict.ofList [("left", .int 9)])
    (Dict.ofList [lastChannel "a", lastChannel "b"]) (writesTask [("b", .int 3)] ["start"])
    (.many ["b", "left"]) (emptyCheckpoint "id") ∅ successor _ (fun chan h => ?_)
    (by decide)).1 (fun e h => ?_) (fun chan h => ?_)
  · obtain rfl := hselects chan h
    decide
  · have hok : (appliedTo (Dict.ofList [lastChannel "a", lastChannel "b"])
        (writesTask [("b", .int 3)] ["start"])).2 = .ok {"b"} := by decide +kernel
    cases hok.symm.trans h
  · obtain rfl := hselects chan h
    intro c hc
    obtain rfl := Option.some.inj (hc.symm.trans (by rfl : _ = some (lastChannel "b").2))
    exact ⟨by rfl, by rfl⟩

theorem localRead_ignores_refusal :
    localRead ∅ (Dict.ofList [lastChannel "a", lastChannel "b"])
        (writesTask [("a", .int 1), ("a", .int 2), ("b", .int 3)] ["start"]) (.single "b") true =
      .ok (.int 3) ∧
    (appliedTo (Dict.ofList [lastChannel "a", lastChannel "b"])
        (writesTask [("a", .int 1), ("a", .int 2), ("b", .int 3)] ["start"])).2 =
      .error (.onlyOneValue "a") ∧
    localRead ∅ (Dict.ofList [lastChannel "a", lastChannel "b"])
        (writesTask [("b", .int 1), ("b", .int 2), ("a", .int 3), ("a", .int 4)] ["start"])
        (.many ["a", "b"]) true = .error (.onlyOneValue "a") ∧
    (appliedTo (Dict.ofList [lastChannel "a", lastChannel "b"])
        (writesTask [("b", .int 1), ("b", .int 2), ("a", .int 3), ("a", .int 4)] ["start"])).2 =
      .error (.onlyOneValue "b") ∧
    localRead ∅ (Dict.ofList [("a", .ephemeralValue ⟨"a", true, some (.int 1)⟩)])
        (writesTask [] []) (.single "a") true = .ok Value.none ∧
    readChannels (appliedTo (Dict.ofList [("a", .ephemeralValue ⟨"a", true, some (.int 1)⟩)])
        (writesTask [] [])).1 (.single "a") = .int 1 ∧
    localRead ∅ (Dict.ofList [lastChannel Key.returned])
        (writesTask [(Key.returned, .int 1)] ["start"]) (.single Key.returned) true =
      .ok (.int 1) ∧
    readChannels (appliedTo (Dict.ofList [lastChannel Key.returned])
        (writesTask [(Key.returned, .int 1)] ["start"])).1 (.single Key.returned) = Value.none := by
  decide +kernel

end LangGraph

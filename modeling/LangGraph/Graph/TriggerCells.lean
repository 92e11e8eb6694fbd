import LangGraph.Graph.Compile

namespace LangGraph

open Collections

variable {Ver : Type}

namespace Cell

variable {v : Ver} {x : Cell Channel Ver} {chan : String} {st : Stage Channel} {c : Channel}

theorem touch_changed (h : x.result chan st = some (c, .ok true)) :
    x.touch (some v) chan st =
      ⟨some c, some v, x.updated || (st.mark && BaseChannel.isAvailable c)⟩ := by
  simp only [touch, h]

theorem touch_unchanged (hc : x.channel = some c) (h : x.result chan st = some (c, .ok false)) :
    x.touch (some v) chan st = x := by
  obtain ⟨channel, version, updated⟩ := x
  subst hc
  simp only [touch, h]

end Cell

section Plan

variable {channels : Dict String Channel} {versions : ChannelVersions Ver} {v : Ver}
  {tasks : List PregelTaskWrites} {chan : String}

def written (channels : Dict String Channel) (tasks : List PregelTaskWrites) (chan : String) :
    List Value :=
  (pendingWritesByChannel channels tasks).getD chan []

-- What an apply leaves of an `EphemeralValue`.
def ephemeralCell (e : EphemeralValue) (version : Option Ver) (v : Ver) (vs : List Value)
    (bump : Bool) : Cell Channel Ver :=
  match vs.getLast? with
  | some w => ⟨some (.ephemeralValue { e with value := some w }), some v, true⟩
  | none =>
      if bump && e.value.isSome then
        ⟨some (.ephemeralValue { e with value := none }), some v, false⟩
      else ⟨some (.ephemeralValue e), version, false⟩

def barrierSeen (b : NamedBarrierValue) (consumed : Bool) : Finset Value :=
  if consumed && b.isAvailable then ∅ else b.seen

-- And of a `NamedBarrierValue`, when every value written to it is one of its names.
def barrierCell (b : NamedBarrierValue) (version : Option Ver) (v : Ver) (vs : List Value)
    (consumed : Bool) : Cell Channel Ver :=
  let seen := barrierSeen b consumed
  { channel := some (.namedBarrierValue { b with seen := seen ∪ vs.toFinset })
    version := if (consumed && b.isAvailable) ∨ ¬ vs.toFinset ⊆ seen then some v else version
    updated := decide (¬ vs.toFinset ⊆ seen ∧ seen ∪ vs.toFinset = b.names) }

theorem run_finish_ephemeral (e : EphemeralValue) (version : Option Ver) (u finish : Bool) :
    (⟨some (.ephemeralValue e), version, u⟩ : Cell Channel Ver).run (some v) chan
      (if finish then [⟨true, .finish⟩] else []) = ⟨some (.ephemeralValue e), version, u⟩ := by
  cases finish with
  | false => rfl
  | true =>
    rw [if_pos rfl, Cell.run, Cell.touch_unchanged rfl rfl]
    rfl

theorem mem_keys_pending :
    chan ∈ (pendingWritesByChannel channels tasks).keys ↔ written channels tasks chan ≠ [] := by
  constructor
  · intro hmem
    obtain ⟨hignored, hkey, v, hv⟩ := mem_keys_groupWrites.mp hmem
    have hvalues : written channels tasks chan =
        writesTo chan (tasks.flatMap PregelTaskWrites.writes) := getD_groupWrites hignored hkey _
    rw [hvalues, writesTo]
    exact List.ne_nil_of_mem (List.mem_map_of_mem (List.mem_filter.mpr ⟨hv, decide_eq_true rfl⟩))
  · intro hne
    cases hget : (pendingWritesByChannel channels tasks).get? chan with
    | none => exact absurd (Dict.getD_of_none hget) hne
    | some vs => exact Dict.mem_keys.mpr ⟨vs, hget⟩

theorem ephemeral_emptied {e : EphemeralValue} {version : Option Ver} {finish : Bool} :
    (⟨some (.ephemeralValue e), version, false⟩ : Cell Channel Ver).run (some v) chan
        ((if bumpStep tasks then [⟨true, .updateEmpty⟩] else []) ++
          (if finish then [⟨true, .finish⟩] else [])) =
      ephemeralCell e version v [] (bumpStep tasks) := by
  obtain ⟨key, guard, value⟩ := e
  rw [Cell.run_append]
  cases bumpStep tasks with
  | false => exact run_finish_ephemeral ⟨key, guard, value⟩ version false finish
  | true =>
    cases value with
    | none =>
      rw [if_pos rfl, Cell.run, Cell.touch_unchanged rfl rfl]
      exact run_finish_ephemeral ⟨key, guard, none⟩ version false finish
    | some w =>
      rw [if_pos rfl, Cell.run, Cell.touch_changed rfl]
      exact run_finish_ephemeral ⟨key, guard, none⟩ (some v) false finish

theorem ephemeral_run {e : EphemeralValue} {version : Option Ver} {finish : Bool}
    (hguard : e.guard = true → (written channels tasks chan).length ≤ 1) :
    (⟨some (.ephemeralValue e), version, false⟩ : Cell Channel Ver).run (some v) chan
        (plan channels tasks finish chan) =
      ephemeralCell e version v (written channels tasks chan) (bumpStep tasks) := by
  have hconsume : (⟨some (.ephemeralValue e), version, false⟩ : Cell Channel Ver).run (some v) chan
      (if chan ∈ consumedChannels channels tasks then [⟨false, .consume⟩] else []) =
        ⟨some (.ephemeralValue e), version, false⟩ := by
    split
    · rw [Cell.run, Cell.touch_unchanged rfl rfl]
      rfl
    · rfl
  rw [plan, Cell.run_append, hconsume, Cell.run_append]
  by_cases hmem : chan ∈ (pendingWritesByChannel channels tasks).keys
  · have hne := mem_keys_pending.mp hmem
    obtain ⟨w, hw⟩ : ∃ w, (written channels tasks chan).getLast? = some w :=
      ⟨_, List.getLast?_eq_some_getLast hne⟩
    have hone : ¬ ((written channels tasks chan).length ≠ 1 ∧ e.guard = true) := by
      rintro ⟨hlength, hg⟩
      have hle := hguard hg
      have hpos := List.length_pos_iff.mpr hne
      omega
    have hupdate : (⟨some (.ephemeralValue e), version, false⟩ : Cell Channel Ver).result chan
        ⟨true, .update (pendingWritesByChannel channels tasks)⟩ =
          some (.ephemeralValue { e with value := some w }, .ok true) := by
      rw [Cell.result_update rfl]
      change some ((e.update (written channels tasks chan)).map Channel.ephemeralValue id) = _
      rw [EphemeralValue.update, hw]
      simp only [if_neg hone]
      rfl
    rw [if_pos hmem, Cell.run, Cell.touch_changed hupdate, Cell.run, ephemeralCell, hw,
      Cell.run_append]
    have hempty : (⟨some (.ephemeralValue { e with value := some w }), some v, true⟩ :
        Cell Channel Ver).run (some v) chan
          (if bumpStep tasks then [⟨true, .updateEmpty⟩] else []) =
        ⟨some (.ephemeralValue { e with value := some w }), some v, true⟩ := by
      split
      · rw [Cell.run, Cell.touch_unchanged rfl rfl]
        rfl
      · rfl
    have hmark : (false || ((⟨true, .update (pendingWritesByChannel channels tasks)⟩ :
        Stage Channel).mark && BaseChannel.isAvailable (Channel.ephemeralValue
          { e with value := some w }))) = true := rfl
    rw [hmark, hempty]
    exact run_finish_ephemeral _ _ _ finish
  · have hnil : written channels tasks chan = [] := not_not.mp (fun h => hmem (mem_keys_pending.mpr h))
    rw [if_neg hmem, Cell.run, hnil]
    exact ephemeral_emptied

theorem addNames_known {key : String} {names : Finset Value} {vs : List Value}
    (h : ∀ v ∈ vs, v ∈ names) (seen : Finset Value) (b : Bool) :
    addNames key names vs seen b =
      (seen ∪ vs.toFinset, .ok (b || decide (¬ vs.toFinset ⊆ seen))) := by
  induction vs generalizing seen b with
  | nil => simp [addNames]
  | cons w vs ih =>
    obtain ⟨hw, hvs⟩ := List.forall_mem_cons.mp h
    rw [addNames, if_pos hw, List.toFinset_cons]
    by_cases hs : w ∈ seen
    · rw [if_pos hs, ih hvs, Finset.union_insert, Finset.insert_eq_of_mem
        (Finset.mem_union_left _ hs)]
      simp [hs, Finset.insert_subset_iff]
    · rw [if_neg hs, ih hvs, Finset.insert_union, Finset.union_insert]
      simp [hs, Finset.insert_subset_iff]

theorem barrier_touch_consume (b : NamedBarrierValue) (version : Option Ver) (consumed : Bool) :
    (⟨some (.namedBarrierValue b), version, false⟩ : Cell Channel Ver).run (some v) chan
        (if consumed then [⟨false, .consume⟩] else []) =
      ⟨some (.namedBarrierValue { b with seen := barrierSeen b consumed }),
        if consumed && b.isAvailable then some v else version, false⟩ := by
  cases consumed with
  | false => rfl
  | true =>
    have hresult : (⟨some (.namedBarrierValue b), version, false⟩ : Cell Channel Ver).result chan
        ⟨false, .consume⟩ = some (.namedBarrierValue b.consume.1, .ok b.consume.2) := rfl
    rw [if_pos rfl, Cell.run, Cell.run]
    unfold NamedBarrierValue.consume at hresult
    cases ha : b.isAvailable with
    | true =>
      rw [ha] at hresult
      rw [Cell.touch_changed hresult, barrierSeen, ha]
      rfl
    | false =>
      rw [ha] at hresult
      rw [Cell.touch_unchanged rfl hresult, barrierSeen, ha]
      rfl

theorem barrier_unmoved (b : NamedBarrierValue) (version : Option Ver) (u bump finish : Bool) :
    (⟨some (.namedBarrierValue b), version, u⟩ : Cell Channel Ver).run (some v) chan
        ((if bump then [⟨true, .updateEmpty⟩] else []) ++
          (if finish then [⟨true, .finish⟩] else [])) =
      ⟨some (.namedBarrierValue b), version, u⟩ := by
  have hempty : (⟨some (.namedBarrierValue b), version, u⟩ : Cell Channel Ver).result chan
      ⟨true, .updateEmpty⟩ = some (.namedBarrierValue b, .ok false) := by
    rw [Cell.result_updateEmpty rfl]
    split
    · rfl
    · rfl
  rw [Cell.run_append]
  have hbump : (⟨some (.namedBarrierValue b), version, u⟩ : Cell Channel Ver).run (some v) chan
      (if bump then [⟨true, .updateEmpty⟩] else []) = ⟨some (.namedBarrierValue b), version, u⟩ := by
    split
    · rw [Cell.run, Cell.touch_unchanged rfl hempty]
      rfl
    · rfl
  rw [hbump]
  split
  · rw [Cell.run, Cell.touch_unchanged rfl rfl]
    rfl
  · rfl

theorem barrier_run {b : NamedBarrierValue} {version : Option Ver} {finish : Bool}
    (hnames : ∀ w ∈ written channels tasks chan, w ∈ b.names) :
    (⟨some (.namedBarrierValue b), version, false⟩ : Cell Channel Ver).run (some v) chan
        (plan channels tasks finish chan) =
      barrierCell b version v (written channels tasks chan)
        (decide (chan ∈ consumedChannels channels tasks)) := by
  obtain ⟨consumed, hconsumed⟩ : ∃ consumed, consumed =
    decide (chan ∈ consumedChannels channels tasks) := ⟨_, rfl⟩
  have hstage : (if chan ∈ consumedChannels channels tasks then
      [(⟨false, .consume⟩ : Stage Channel)] else []) = if consumed then [⟨false, .consume⟩] else [] := by
    simp [hconsumed]
  rw [plan, Cell.run_append, hstage, barrier_touch_consume, Cell.run_append, ← hconsumed,
    barrierCell]
  by_cases hmem : chan ∈ (pendingWritesByChannel channels tasks).keys
  · have hupdate (version : Option Ver) : (⟨some (.namedBarrierValue
        { b with seen := barrierSeen b consumed }), version, false⟩ : Cell Channel Ver).result chan
        ⟨true, .update (pendingWritesByChannel channels tasks)⟩ =
          some (.namedBarrierValue { b with
            seen := barrierSeen b consumed ∪ (written channels tasks chan).toFinset },
            .ok (decide (¬ (written channels tasks chan).toFinset ⊆ barrierSeen b consumed))) := by
      rw [Cell.result_update rfl]
      change some ((NamedBarrierValue.update _ (written channels tasks chan)).map
        Channel.namedBarrierValue id) = _
      rw [NamedBarrierValue.update, addNames_known hnames, Bool.false_or]
      rfl
    rw [if_pos hmem, Cell.run, Cell.run]
    by_cases hsub : (written channels tasks chan).toFinset ⊆ barrierSeen b consumed
    · have hunion := Finset.union_eq_left.mpr hsub
      simp only [hsub, hunion, not_true_eq_false, decide_false] at hupdate
      rw [Cell.touch_unchanged rfl (hupdate _), barrier_unmoved]
      simp [hsub, hunion]
    · simp only [hsub, not_false_eq_true, decide_true] at hupdate
      rw [Cell.touch_changed (hupdate _), barrier_unmoved]
      simp [hsub, BaseChannel.isAvailable, Channel.isAvailable, NamedBarrierValue.isAvailable]
  · have hnil : written channels tasks chan = [] :=
      not_not.mp (fun h => hmem (mem_keys_pending.mpr h))
    rw [if_neg hmem, Cell.run, hnil, barrier_unmoved]
    simp

end Plan

end LangGraph

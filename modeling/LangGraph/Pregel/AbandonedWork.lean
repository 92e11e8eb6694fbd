import LangGraph.Pregel.SnapshotScheduling
import LangGraph.Pregel.Streaming
import LangGraph.Pregel.UntrackedLoop

namespace LangGraph

open Collections Transition

section Kept

variable {Ver : Type} {v : Ver} {channels : Dict String Channel} {s : ApplyState Channel Ver}
  {chan k : String} {mark : Bool} {op : ChannelOp Channel}

def ChannelOp.Quiet (op : ChannelOp Channel) : Prop :=
  ∀ chan updated c, (op chan updated c).1.isAvailable = true → c.isAvailable = true

namespace ApplyState

-- A channel that was not available becomes so only by being reported.
def Announced (channels : Dict String Channel) (chan : String) (s : ApplyState Channel Ver) :
    Prop :=
  Graph.Offered s.channels chan → Graph.Offered channels chan ∨ chan ∈ s.updated

theorem Announced.touch (hop : op.Inert) (hmark : mark = true ∨ op.Quiet)
    (h : Announced channels chan s) (hok : (s.touch (some v) mark op k).2 = none) :
    Announced channels chan (s.touch (some v) mark op k).1 := by
  unfold ApplyState.touch at hok ⊢
  cases hc : s.channels.get? k with
  | none => exact h
  | some c =>
    simp only [hc] at hok ⊢
    have hinert := hop k (decide (k ∈ s.updated)) c
    rcases hr : op k (decide (k ∈ s.updated)) c with ⟨c', e | _ | _⟩
    · rw [hr] at hok
      cases hok
    · rw [hr] at hinert
      have hsame : c' = c := hinert rfl
      simp only [hsame, Dict.set_of_get? hc]
      exact h
    · rintro ⟨c₁, hc₁, ha⟩
      have hgrow (hin : chan ∈ s.updated) : chan ∈
          if mark && BaseChannel.isAvailable c' then insert k s.updated else s.updated := by
        split
        · exact Finset.mem_insert_of_mem hin
        · exact hin
      by_cases hk : chan = k
      · subst hk
        obtain rfl : c' = c₁ := Option.some.inj ((Dict.get?_set_self _ _ _).symm.trans hc₁)
        rcases hmark with rfl | hquiet
        · have ha' : BaseChannel.isAvailable c' = true := ha
          exact Or.inr (by simp [ha'])
        · have hbefore := hquiet chan (decide (chan ∈ s.updated)) c
          rw [hr] at hbefore
          exact (h ⟨c, hc, hbefore ha⟩).imp id hgrow
      · rw [Dict.get?_set_ne _ hk] at hc₁
        exact (h ⟨c₁, hc₁, ha⟩).imp id hgrow

theorem Announced.sweep (hop : op.Inert) (hmark : mark = true ∨ op.Quiet) {ks : List String}
    (h : Announced channels chan s)
    (hok : (Collections.sweep (ApplyState.touch (some v) mark op) ks s).2 = none) :
    Announced channels chan (Collections.sweep (ApplyState.touch (some v) mark op) ks s).1 :=
  Sweep.invariant_ok (fun _ _ ht => ht.touch hop hmark) hok h

end ApplyState

variable {triggerToNodes : Dict String (List String)} {versions : ChannelVersions Ver}
  {tasks : List PregelTaskWrites}

theorem ApplyState.Announced.bumpPhases (h : Announced channels chan s)
    (hok : (bumpPhases (some v) triggerToNodes s).2 = none) :
    Announced channels chan (LangGraph.bumpPhases (some v) triggerToNodes s).1 := by
  obtain ⟨hempty, heq⟩ := andThen_ok hok
  have hrest : LangGraph.bumpPhases (some v) triggerToNodes s = _ := heq
  rw [hrest] at hok ⊢
  have hkept := h.sweep ChannelOp.inert_updateEmpty (Or.inl rfl) hempty
  unfold finishPhase at hok ⊢
  split
  · exact hkept
  · rename_i hnone
    rw [if_neg hnone] at hok
    exact hkept.sweep ChannelOp.inert_finish (Or.inl rfl) hok

theorem announced_applyChannels
    (hok : (applyChannels channels versions (some v) tasks triggerToNodes).2 = none) :
    ApplyState.Announced channels chan
      (applyChannels channels versions (some v) tasks triggerToNodes).1 := by
  obtain ⟨hconsume, heq⟩ := andThen_ok hok
  have hrest : applyChannels channels versions (some v) tasks triggerToNodes = _ := heq
  rw [hrest] at hok ⊢
  have hstart : ApplyState.Announced channels chan ⟨versions, channels, ∅⟩ := Or.inl
  have hconsumed := hstart.sweep ChannelOp.inert_consume
    (Or.inr (fun _ _ _ => Channel.available_of_consume)) hconsume
  obtain ⟨hupdate, heq⟩ := andThen_ok hok
  have hphases : updatePhases (some v) triggerToNodes (pendingWritesByChannel channels tasks)
    (bumpStep tasks) _ = _ := heq
  rw [hphases] at hok ⊢
  have hupdated := hconsumed.sweep (ChannelOp.inert_update _) (Or.inl rfl) hupdate
  cases hb : bumpStep tasks with
  | true =>
    rw [hb] at hok
    exact hupdated.bumpPhases hok
  | false => exact hupdated

end Kept

section Marked

variable {Ver : Type} {v : Ver} {chan : String} {st : Stage Channel} {x : Cell Channel Ver}

namespace Cell

-- A channel reported as updated has the new version and is available.
def Reported (v : Ver) (x : Cell Channel Ver) : Prop :=
  x.updated = true → x.version = some v ∧ ∃ c, x.channel = some c ∧ c.isAvailable = true

theorem reported_touch (h : x.updated = false) : Reported v (x.touch (some v) chan st) := by
  unfold touch
  rcases hr : x.result chan st with _ | ⟨c, e | _ | _⟩
  · intro hu
    rw [h] at hu
    cases hu
  · intro hu
    rw [h] at hu
    cases hu
  · intro hu
    rw [h] at hu
    cases hu
  · intro hu
    simp only [h, Bool.false_or, Bool.and_eq_true] at hu
    exact ⟨rfl, c, rfl, hu.2⟩

theorem updated_consume (h : x.updated = false) :
    (x.touch (some v) chan ⟨false, .consume⟩).updated = false := by
  unfold touch
  rcases hr : x.result chan ⟨false, .consume⟩ with _ | ⟨c, e | _ | _⟩ <;> simp [h]

theorem Reported.updateEmpty (h : Reported v x) :
    Reported v (x.touch (some v) chan ⟨true, .updateEmpty⟩) := by
  cases hu : x.updated with
  | false => exact reported_touch hu
  | true =>
    obtain ⟨hversion, c, hc, ha⟩ := h hu
    have hresult := result_updateEmpty hc chan
    rw [hu, Bool.not_true, Bool.and_false, if_neg Bool.false_ne_true] at hresult
    unfold touch
    rw [hresult]
    exact fun _ => ⟨hversion, c, rfl, ha⟩

theorem Reported.finish (h : Reported v x) :
    Reported v (x.touch (some v) chan ⟨true, .finish⟩) := by
  cases hu : x.updated with
  | false => exact reported_touch hu
  | true =>
    obtain ⟨hversion, c, hc, ha⟩ := h hu
    have hresult := result_finish hc chan
    unfold touch
    rw [hresult]
    cases hf : c.finish.2 with
    | true => exact fun _ => ⟨rfl, _, rfl, Channel.finish_available hf⟩
    | false => exact fun _ => ⟨hversion, _, rfl, by rw [Channel.finish_false hf]; exact ha⟩

theorem reported_plan (channels : Dict String Channel) (tasks : List PregelTaskWrites)
    (finish : Bool) (h : x.updated = false) :
    Reported v (x.run (some v) chan (plan channels tasks finish chan)) := by
  have hstart : ∀ y : Cell Channel Ver, y.updated = false → Reported v y := by
    intro y hy hu
    rw [hy] at hu
    cases hu
  have hconsumed : (x.run (some v) chan (if chan ∈ consumedChannels channels tasks then
      [⟨false, .consume⟩] else [])).updated = false := by
    split
    · exact updated_consume h
    · exact h
  unfold plan
  rw [run_append, run_append, run_append]
  generalize x.run (some v) chan (if chan ∈ consumedChannels channels tasks then
      [⟨false, .consume⟩] else []) = y at hconsumed
  have hwritten : Reported v (y.run (some v) chan
      (if chan ∈ (pendingWritesByChannel channels tasks).keys then
        [⟨true, .update (pendingWritesByChannel channels tasks)⟩] else [])) := by
    split
    · exact reported_touch hconsumed
    · exact hstart y hconsumed
  generalize y.run (some v) chan (if chan ∈ (pendingWritesByChannel channels tasks).keys then
      [⟨true, .update (pendingWritesByChannel channels tasks)⟩] else []) = z at hwritten
  have hnotified : Reported v (z.run (some v) chan
      (if bumpStep tasks then [⟨true, .updateEmpty⟩] else [])) := by
    split
    · exact hwritten.updateEmpty
    · exact hwritten
  split
  · exact hnotified.finish
  · exact hnotified

end Cell

end Marked

section Reported

variable {Ver : Type} [LinearOrder Ver] [OrderBot Ver] {checkpoint : Checkpoint Ver}
  {channels : Dict String Channel} {tasks : List PregelTaskWrites} {next : GetNextVersion Ver}
  {triggerToNodes : Dict String (List String)} {u : Finset String} {chan : String}

omit [OrderBot Ver] in
theorem reported_applyWrites
    (hok : (applyWrites checkpoint channels tasks (some next) triggerToNodes).2.2 = .ok u)
    (hmem : chan ∈ u) :
    (applyWrites checkpoint channels tasks (some next) triggerToNodes).1.channelVersions.get?
        chan = some (next (maxVersion checkpoint.channelVersions)) ∧
      Graph.Offered (applyWrites checkpoint channels tasks (some next) triggerToNodes).2.1 chan := by
  obtain ⟨hnone, rfl⟩ := applyWrites_spec hok
  obtain ⟨finish, hcell⟩ := applyChannels_cell hnone
  have hreported := @Cell.reported_plan _ (next (maxVersion checkpoint.channelVersions)) chan
    ⟨channels.get? chan, checkpoint.channelVersions.get? chan, false⟩ channels (sortTasks tasks)
    finish rfl
  rw [← hcell chan] at hreported
  exact hreported (decide_eq_true hmem)

omit [OrderBot Ver] in
theorem announced_applyWrites
    (hok : (applyWrites checkpoint channels tasks (some next) triggerToNodes).2.2 = .ok u)
    (hoffered : Graph.Offered
      (applyWrites checkpoint channels tasks (some next) triggerToNodes).2.1 chan) :
    Graph.Offered channels chan ∨ chan ∈ u := by
  obtain ⟨hnone, rfl⟩ := applyWrites_spec hok
  exact announced_applyChannels hnone hoffered

end Reported

namespace Graph

variable {C Ver : Type} [BaseChannel C] [LinearOrder Ver] [OrderBot Ver] {g : Graph C}
  {checkpoint : Checkpoint Ver} {channels : Dict String C} {step : Int} {name : String}
  {proc : PregelNode} {t : PregelTask} {u : Finset String}

omit [BaseChannel C] [LinearOrder Ver] [OrderBot Ver] in
theorem mem_candidateNodes (hindex : g.triggerToNodes = LangGraph.triggerToNodes g.nodes)
    (hproc : g.nodes.get? name = some proc) (htriggers : proc.triggers ≠ []) (hu : u ≠ ∅) :
    name ∈ g.candidateNodes checkpoint (some g.triggerToNodes) (some u) ↔
      ∃ chan ∈ proc.triggers, chan ∈ u := by
  have hindexed : g.triggerToNodes.items ≠ [] := by
    obtain ⟨chan, hchan⟩ := List.exists_mem_of_ne_nil _ htriggers
    obtain ⟨names, hnames⟩ := Dict.mem_keys.mp (mem_keys_triggerToNodes hproc hchan)
    rw [hindex]
    exact List.ne_nil_of_mem (Dict.get?_eq_some.mp hnames)
  have hmem (chan : String) (names : List String) (he : (chan, names) ∈ g.triggerToNodes.items) :
      name ∈ names ↔ chan ∈ proc.triggers := by
    have hget := Dict.get?_eq_some.mpr he
    have hiff := @mem_triggerToNodes g.nodes name chan
    rw [← hindex, Dict.getD, hget, Option.getD_some, hproc] at hiff
    simpa using hiff
  have hperm := List.perm_insertionSort (· ≤ ·)
    ((g.triggerToNodes.items.filter (fun e => e.1 ∈ u)).flatMap Prod.snd).dedup
  unfold candidateNodes
  simp only [if_pos (And.intro hu hindexed)]
  rw [hperm.mem_iff, List.mem_dedup, List.mem_flatMap]
  constructor
  · rintro ⟨⟨chan, names⟩, he, hname⟩
    obtain ⟨he, hchan⟩ := List.mem_filter.mp he
    exact ⟨chan, (hmem chan names he).mp hname, of_decide_eq_true hchan⟩
  · rintro ⟨chan, hchan, hin⟩
    obtain ⟨names, hnames⟩ := Dict.mem_keys.mp (mem_keys_triggerToNodes hproc hchan)
    rw [← hindex] at hnames
    have he := Dict.get?_eq_some.mp hnames
    exact ⟨(chan, names), List.mem_filter.mpr ⟨he, decide_eq_true hin⟩, (hmem chan names he).mpr hchan⟩

theorem prepared_pull {index : Option (Dict String (List String))} {updated : Option (Finset String)}
    (ht : t ∈ (g.prepareNextTasks checkpoint channels step true index updated).values)
    (hpath : t.path = [.str Key.pull, .str name]) :
    name ∈ g.candidateNodes checkpoint index updated ∧ ∃ proc, g.nodes.get? name = some proc ∧
      Fires checkpoint channels name proc ∧ proc.hasNode = true ∧ t.name = name ∧
      t.triggers = sortedTriggers proc := by
  obtain ⟨id, hid⟩ := Dict.mem_values.mp ht
  obtain ⟨-, hpush | ⟨other, hother, cache, hpull⟩⟩ := mem_prepareNextTasks (Dict.get?_eq_some.mp hid)
  · obtain ⟨idx, v, -, hv⟩ := mem_pushTasks hpush
    rw [path_pushTask hv] at hpath
    simp at hpath
  · have hname := (path_preparePull hpull).1
    rw [hpath] at hname
    obtain rfl : name = other := by simpa using hname
    obtain ⟨proc, hproc, hfires, -, hnode, hname, htriggers⟩ := preparePull_some hpull
    exact ⟨hother, proc, hproc, hfires, hnode, hname, htriggers⟩

theorem exists_prepared {index : Option (Dict String (List String))}
    {updated : Option (Finset String)} (hproc : g.nodes.get? name = some proc)
    (hnode : proc.hasNode = true) (hfires : Fires checkpoint channels name proc)
    (hcandidate : name ∈ g.candidateNodes checkpoint index updated)
    (hread : (g.readInput channels proc.channels).isSome = true)
    (hids : ((g.pushTasks checkpoint.id channels step true ++
      g.preparePulls checkpoint channels step true (g.candidateNodes checkpoint index updated)
        []).map PregelTask.id).Nodup) :
    ∃ t ∈ (g.prepareNextTasks checkpoint channels step true index updated).values,
      t.path = [.str Key.pull, .str name] := by
  obtain ⟨pre, post, hnames⟩ := List.append_of_mem hcandidate
  have hsame : FiresMore g channels checkpoint checkpoint := ⟨rfl, fun _ _ h => h⟩
  obtain ⟨t, ht, hpath⟩ := @exists_preparePulls _ _ _ _ _ g checkpoint checkpoint channels step
    name proc [] hsame [] pre post hproc hnode hfires (Or.inl hread) (fun key h => by simp at h)
  rw [← hnames] at ht
  have hitems : (((g.pushTasks checkpoint.id channels step true ++
      g.preparePulls checkpoint channels step true (g.candidateNodes checkpoint index updated)
        []).map (fun t => (t.id, t))).map Prod.fst).Nodup := by
    rw [List.map_map]
    exact hids
  refine ⟨t, Dict.mem_values.mpr ⟨t.id, Dict.get?_eq_some.mpr ?_⟩, hpath⟩
  rw [prepareNextTasks, Dict.items_ofList hitems]
  exact List.mem_map_of_mem (List.mem_append_right _ ht)

end Graph

namespace PregelLoop

section Entered

variable {Ver : Type} [LinearOrder Ver] [OrderBot Ver] {g : Graph Channel}
  {l l' n : PregelLoop Channel Ver} {next : GetNextVersion Ver} {u : Finset String}
  {name chan : String} {proc : PregelNode} {writes : List Write} {t : PregelTask}

def entering (g : Graph Channel) (next : GetNextVersion Ver) (writes : List Write)
    (n : PregelLoop Channel Ver) :
    Checkpoint Ver × Dict String Channel × Except UpdateError (Finset String) :=
  applyWrites n.checkpoint n.channels (n.discardTasks g none ++ [⟨[], Key.input, writes, []⟩])
    (some next) g.triggerToNodes

structure Entered (g : Graph Channel) (next : GetNextVersion Ver) (writes : List Write)
    (u : Finset String) (n l' : PregelLoop Channel Ver) : Prop where
  ok : (n.entering g next writes).2.2 = .ok u
  seen : l'.checkpoint.versionsSeen = (n.entering g next writes).1.versionsSeen
  versions : ∀ chan v, (n.entering g next writes).1.channelVersions.get? chan = some v →
    ∃ v', l'.checkpoint.channelVersions.get? chan = some v' ∧ v ≤ v'
  channels : l'.channels = (n.entering g next writes).2.1
  updated : l'.updatedChannels = some u

theorem entered_first (hn : StrictlyIncreasing next) {inputKeys : InputKeys} {input : Input}
    {sameRun : Bool} {nextNull : GetNextVersion Ver} {newId : String}
    (hok : (l.first g inputKeys input sameRun nextNull next newId).2 = none)
    (hres : l.isResuming input sameRun = false) :
    ∃ v u, input = .value v ∧ Entered g next (mapInput inputKeys v) u (l.nulled g input nextNull)
      (l.first g inputKeys input sameRun nextNull next newId).1 := by
  obtain ⟨updated, writes, u, ⟨v, rfl, rfl⟩, happlied, heq⟩ := first_input hok hres
  refine ⟨v, u, rfl, ?_⟩
  have hok' := applied_ok happlied
  obtain ⟨hcheckpoint, hchannels⟩ := @frame_inputApplied _ _ _ g (l.nulled g (.value v) nextNull)
    next updated (mapInput inputKeys v)
  generalize l.nulled g (.value v) nextNull = n at *
  obtain ⟨hdelta, hkept, -, -⟩ := frame_putDeltaInput g (mapInput inputKeys v)
    (n.inputApplied g next updated (mapInput inputKeys v)).1
  have hdelta := hdelta.trans hcheckpoint
  have hkept := hkept.trans hchannels
  rw [heq]
  generalize (n.inputApplied g next updated (mapInput inputKeys v)).1.putDeltaInput g
    (mapInput inputKeys v) = m at *
  obtain ⟨hadvances, -⟩ := advances_putCheckpoint hn newId "input"
    { m with updatedChannels := some u }
  obtain ⟨hseen, hupdated, -⟩ := seen_putCheckpoint next newId "input"
    { m with updatedChannels := some u }
  obtain ⟨hput, -, -, -⟩ := channels_putCheckpoint next newId "input"
    { m with updatedChannels := some u }
  refine ⟨hok', ?_, ?_, ?_, hupdated⟩
  · rw [hseen]
    exact congrArg Checkpoint.versionsSeen hdelta
  · intro chan w hw
    refine hadvances.versions chan w ?_
    change m.checkpoint.channelVersions.get? chan = some w
    rw [hdelta]
    exact hw
  · rw [hput]
    exact hkept

-- A channel offered anew: available, with a version above the one it had.
def OfferedAnew (n l' : PregelLoop Channel Ver) (chan : String) : Prop :=
  Graph.Offered l'.channels chan ∧
    n.checkpoint.channelVersions.getD chan ⊥ < l'.checkpoint.channelVersions.getD chan ⊥

theorem Entered.reported (h : Entered g next writes u n l') (hchan : chan ∈ u) : Graph.Offered l'.channels chan ∧
      ∃ v, l'.checkpoint.channelVersions.get? chan = some v ∧
        next (maxVersion n.checkpoint.channelVersions) ≤ v := by
  obtain ⟨hversion, hoffered⟩ := reported_applyWrites h.ok hchan
  rw [h.channels]
  exact ⟨hoffered, h.versions chan _ hversion⟩

theorem Entered.offeredAnew (h : Entered g next writes u n l') (hn : StrictlyIncreasing next)
    (hchan : chan ∈ u) : OfferedAnew n l' chan := by
  obtain ⟨hoffered, v, hv, hle⟩ := h.reported hchan
  refine ⟨hoffered, ?_⟩
  rw [Dict.getD_of_get? hv]
  refine lt_of_lt_of_le ?_ hle
  cases hold : n.checkpoint.channelVersions.get? chan with
  | none =>
    rw [Dict.getD_of_none hold]
    exact bot_lt_next hn _
  | some w =>
    rw [Dict.getD_of_get? hold]
    exact lt_next_of_get? hn hold

theorem Entered.fires (h : Entered g next writes u n l') (hn : StrictlyIncreasing next)
    (hs : Sane n.checkpoint) (hmem : chan ∈ proc.triggers) (hchan : chan ∈ u) :
    Graph.Fires l'.checkpoint l'.channels name proc := by
  obtain ⟨hoffered, v, hv, hle⟩ := h.reported hchan
  refine Graph.fires_iff.mpr ⟨List.ne_nil_of_mem (Dict.get?_eq_some.mp hv), chan, hmem, hoffered, ?_⟩
  intro seen hseen
  rw [h.seen] at hseen
  rw [Dict.getD_of_get? hv]
  refine lt_of_lt_of_le ?_ hle
  cases hw : seen.get? chan with
  | none =>
    rw [Dict.getD_of_none hw]
    exact bot_lt_next hn _
  | some w =>
    obtain ⟨old, hold, hwold⟩ := seen_applyWrites_le hs.bounded hseen hw
    rw [Dict.getD_of_get? hw]
    exact lt_of_le_of_lt hwold (lt_next_of_get? hn hold)

def nextTasks (g : Graph Channel) (l : PregelLoop Channel Ver) : List PregelTask :=
  g.pushTasks l.checkpoint.id l.channels l.step true ++
    g.preparePulls l.checkpoint l.channels l.step true
      (g.candidateNodes l.checkpoint (some g.triggerToNodes) l.updatedChannels) []

def Scheduled (g : Graph Channel) (l : PregelLoop Channel Ver) (name : String) : Prop :=
  ∃ t ∈ (l.preparedTasks g).values, t.path = [.str Key.pull, .str name]

-- The node has a task among those that an input discards.
def Pending (g : Graph Channel) (n : PregelLoop Channel Ver) (name : String) : Prop :=
  ∃ t ∈ (g.prepareNextTasks n.checkpoint n.channels n.step true none none).values,
    t.path = [.str Key.pull, .str name]

def pulledNode : List PathPart → Option String
  | [.str kind, .str name] => if kind = Key.pull then some name else none
  | _ => none

theorem pulledNode_eq_some {path : List PathPart} :
    pulledNode path = some name ↔ path = [.str Key.pull, .str name] := by
  constructor
  · intro h
    unfold pulledNode at h
    split at h
    · split at h
      · rename_i hkind
        rw [hkind, Option.some.inj h]
      · cases h
    · cases h
  · rintro rfl
    simp [pulledNode]

instance : Decidable (l.Scheduled g name) :=
  decidable_of_iff (∃ t ∈ (l.preparedTasks g).values, pulledNode t.path = some name)
    (by simp only [pulledNode_eq_some]; rfl)

instance : Decidable (n.Pending g name) :=
  decidable_of_iff (∃ t ∈ (g.prepareNextTasks n.checkpoint n.channels n.step true none none).values,
      pulledNode t.path = some name)
    (by simp only [pulledNode_eq_some]; rfl)

def SentBy (g : Graph Channel) (l : PregelLoop Channel Ver) (sends : List Value)
    (t : PregelTask) : Prop :=
  ∃ idx v, sends[idx]? = some v ∧ g.pushTask l.checkpoint.id l.step true idx v = some t

structure OfInput (g : Graph Channel) (updated : Finset String) (l : PregelLoop Channel Ver) :
    Prop where
  triggered : ∀ name, l.Scheduled g name → ∃ proc, g.nodes.get? name = some proc ∧
    proc.hasNode = true ∧ ∃ chan ∈ proc.triggers, chan ∈ updated
  scheduled : ∀ name proc, g.nodes.get? name = some proc → proc.hasNode = true →
    (∃ chan ∈ proc.triggers, chan ∈ updated) →
    (g.readInput l.channels proc.channels).isSome = true → l.Scheduled g name

theorem Entered.ofInput (h : Entered g next writes u n l') (hn : StrictlyIncreasing next)
    (hs : Sane n.checkpoint) (hindex : g.triggerToNodes = LangGraph.triggerToNodes g.nodes)
    (hids : ((l'.nextTasks g).map PregelTask.id).Nodup) (hu : u ≠ ∅) : OfInput g u l' := by
  constructor
  · rintro name ⟨t, ht, hpath⟩
    obtain ⟨hcandidate, proc, hproc, hfires, hnode, -⟩ := Graph.prepared_pull ht hpath
    obtain ⟨-, chan, hchan, -⟩ := Graph.fires_iff.mp hfires
    rw [h.updated, Graph.mem_candidateNodes hindex hproc (List.ne_nil_of_mem hchan) hu]
      at hcandidate
    exact ⟨proc, hproc, hnode, hcandidate⟩
  · rintro name proc hproc hnode ⟨chan, hmem, hchan⟩ hread
    refine Graph.exists_prepared hproc hnode (h.fires hn hs hmem hchan) ?_ hread hids
    rw [h.updated, Graph.mem_candidateNodes hindex hproc (List.ne_nil_of_mem hmem) hu]
    exact ⟨chan, hmem, hchan⟩

theorem Entered.seen_pending (h : Entered g next writes u n l')
    (ht : t ∈ (g.prepareNextTasks n.checkpoint n.channels n.step true none none).values)
    (hname : t.name = name) (hchan : chan ∈ t.triggers) :
    ∃ seen, l'.checkpoint.versionsSeen.get? name = some seen ∧
      n.checkpoint.channelVersions.getD chan ⊥ ≤ seen.getD chan ⊥ := by
  have hmem : t.taskWrites ∈ sortTasks (n.discardTasks g none ++ [⟨[], Key.input, writes, []⟩]) :=
    mem_sortTasks.mpr (List.mem_append_left _ (List.mem_map_of_mem ht))
  obtain ⟨seen, hseen⟩ := Dict.mem_keys.mp ((keys_foldl_seeVersions n.checkpoint.channelVersions
    _ n.checkpoint.versionsSeen name).mpr (Or.inr ⟨_, hmem, hname⟩))
  refine ⟨seen, ?_, ?_⟩
  · rw [h.seen]
    exact hseen
  · have hget := @seen_of_foldl _ _ _ _ _ chan _ hseen
    rw [if_pos ⟨_, hmem, hname, hchan⟩] at hget
    cases hold : n.checkpoint.channelVersions.get? chan with
    | none =>
      rw [Dict.getD_of_none hold]
      exact bot_le
    | some v =>
      rw [hold, Option.some_or] at hget
      rw [Dict.getD_of_get? hold, Dict.getD_of_get? hget]

theorem Entered.anew (h : Entered g next writes u n l') (hpending : n.Pending g name)
    (hscheduled : l'.Scheduled g name) :
    ∃ proc, g.nodes.get? name = some proc ∧ ∃ chan ∈ proc.triggers, OfferedAnew n l' chan := by
  obtain ⟨t, ht, hpath⟩ := hscheduled
  obtain ⟨t₀, ht₀, hpath₀⟩ := hpending
  obtain ⟨-, proc, hproc, hfires, -⟩ := Graph.prepared_pull ht hpath
  obtain ⟨-, proc₀, hproc₀, -, -, hname, htriggers⟩ := Graph.prepared_pull ht₀ hpath₀
  obtain rfl := Option.some.inj (hproc.symm.trans hproc₀)
  obtain ⟨-, chan, hchan, hoffered, hlt⟩ := Graph.fires_iff.mp hfires
  have hperm : (Graph.sortedTriggers proc).Perm proc.triggers := List.perm_insertionSort _ _
  have hsorted : chan ∈ t₀.triggers := by
    rw [htriggers]
    exact hperm.mem_iff.mpr hchan
  obtain ⟨seen, hseen, hle⟩ := h.seen_pending ht₀ hname hsorted
  exact ⟨proc, hproc, chan, hchan, hoffered, lt_of_le_of_lt hle (hlt seen hseen)⟩

theorem Entered.offered_before (h : Entered g next writes u n l') (hu : u = ∅)
    (hoffered : Graph.Offered l'.channels chan) : Graph.Offered n.channels chan := by
  rw [h.channels] at hoffered
  refine (announced_applyWrites h.ok hoffered).resolve_right ?_
  rw [hu]
  exact Finset.notMem_empty chan

theorem Entered.read_before (h : Entered g next writes u n l') (hu : u = ∅) {chans : NodeChannels}
    (hread : (g.readInput l'.channels chans).isSome = true) :
    (g.readInput n.channels chans).isSome = true := by
  cases chans with
  | many chans => rfl
  | single chan =>
    unfold Graph.readInput at hread ⊢
    have hoffered : Graph.Offered l'.channels chan := by
      cases hc : l'.channels.get? chan with
      | none => simp [hc] at hread
      | some c =>
        refine ⟨c, hc, ?_⟩
        by_contra hno
        have ha : BaseChannel.isAvailable c = false := eq_false_of_ne_true hno
        simp [hc, ha] at hread
    obtain ⟨c, hc, ha⟩ := h.offered_before hu hoffered
    have ha' : BaseChannel.isAvailable c = true := ha
    simp only [hc, ha', if_true]
    exact Channel.get_isSome ha

theorem Entered.seen_le (h : Entered g next writes u n l') (hs : Sane n.checkpoint)
    {seen : ChannelVersions Ver} (hseen : n.checkpoint.versionsSeen.get? name = some seen)
    (chan : String) : ∃ seen', l'.checkpoint.versionsSeen.get? name = some seen' ∧
      seen.getD chan ⊥ ≤ seen'.getD chan ⊥ := by
  obtain ⟨seen', hseen'⟩ := Dict.mem_keys.mp ((keys_foldl_seeVersions n.checkpoint.channelVersions
    (sortTasks (n.discardTasks g none ++ [⟨[], Key.input, writes, []⟩]))
    n.checkpoint.versionsSeen name).mpr (Or.inl (Dict.mem_keys.mpr ⟨seen, hseen⟩)))
  refine ⟨seen', h.seen ▸ hseen', ?_⟩
  have hget := @seen_of_foldl _ _ _ _ _ chan _ hseen'
  rw [Dict.getD_of_get? hseen] at hget
  cases hw : seen.get? chan with
  | none =>
    rw [Dict.getD_of_none hw]
    exact bot_le
  | some w =>
    obtain ⟨v, hv, hle⟩ := hs.bounded name seen chan w hseen hw
    rw [hw, hv, Option.some_or] at hget
    rw [Dict.getD_of_get? hw]
    split at hget
    · rw [Dict.getD_of_get? hget]
      exact hle
    · rw [Dict.getD_of_get? hget]

theorem Entered.anew_of_scanned (h : Entered g next writes u n l') (hs : Sane n.checkpoint)
    (hu : u = ∅) (hstarted : n.checkpoint.channelVersions.items ≠ [])
    (hids : ((g.scanned n.checkpoint n.channels n.step).map PregelTask.id).Nodup)
    (hproc : g.nodes.get? name = some proc)
    (hread : (g.readInput l'.channels proc.channels).isSome = true)
    (hscheduled : l'.Scheduled g name) : ∃ chan ∈ proc.triggers, OfferedAnew n l' chan := by
  obtain ⟨t, ht, hpath⟩ := id hscheduled
  obtain ⟨-, proc', hproc', hfires, hnode, -⟩ := Graph.prepared_pull ht hpath
  obtain rfl := Option.some.inj (hproc.symm.trans hproc')
  obtain ⟨-, chan, hchan, hoffered, hlt⟩ := Graph.fires_iff.mp hfires
  by_cases hraised : n.checkpoint.channelVersions.getD chan ⊥ <
      l'.checkpoint.channelVersions.getD chan ⊥
  · exact ⟨chan, hchan, hoffered, hraised⟩
  · have hbefore : Graph.Fires n.checkpoint n.channels name proc := by
      refine Graph.fires_iff.mpr ⟨hstarted, chan, hchan, h.offered_before hu hoffered, ?_⟩
      intro seen hseen
      obtain ⟨seen', hseen', hle⟩ := h.seen_le hs hseen chan
      exact lt_of_le_of_lt hle (lt_of_lt_of_le (hlt seen' hseen') (le_of_not_gt hraised))
    have hcandidate : name ∈ g.candidateNodes n.checkpoint none none := by
      rw [Graph.candidateNodes_full hbefore]
      exact Dict.mem_keys.mpr ⟨proc, hproc⟩
    have hpending : n.Pending g name :=
      Graph.exists_prepared hproc hnode hbefore hcandidate (h.read_before hu hread) hids
    obtain ⟨proc', hproc', hanew⟩ := h.anew hpending hscheduled
    obtain rfl := Option.some.inj (hproc.symm.trans hproc')
    exact hanew

theorem Entered.scanned_of_anew (h : Entered g next writes u n l') (hs : Sane n.checkpoint)
    (hu : u = ∅) (hids : ((l'.nextTasks g).map PregelTask.id).Nodup)
    (hproc : g.nodes.get? name = some proc) (hnode : proc.hasNode = true)
    (hread : (g.readInput l'.channels proc.channels).isSome = true)
    (hchan : chan ∈ proc.triggers) (hanew : OfferedAnew n l' chan) : l'.Scheduled g name := by
  obtain ⟨hoffered, hraised⟩ := hanew
  have hversions : l'.checkpoint.channelVersions.items ≠ [] := by
    intro hnil
    rw [Dict.getD_of_none (Graph.items_eq_nil_iff.mp hnil chan)] at hraised
    exact absurd hraised not_lt_bot
  have hfires : Graph.Fires l'.checkpoint l'.channels name proc := by
    refine Graph.fires_iff.mpr ⟨hversions, chan, hchan, hoffered, ?_⟩
    intro seen hseen
    refine lt_of_le_of_lt ?_ hraised
    cases hw : seen.get? chan with
    | none =>
      rw [Dict.getD_of_none hw]
      exact bot_le
    | some w =>
      obtain ⟨v, hv, hle⟩ := seen_applyWrites_le hs.bounded (h.seen ▸ hseen) hw
      rw [Dict.getD_of_get? hw, Dict.getD_of_get? hv]
      exact hle
  refine Graph.exists_prepared hproc hnode hfires ?_ hread hids
  rw [h.updated, hu]
  unfold Graph.candidateNodes
  simp only [ne_eq, not_true_eq_false, false_and, if_false, if_neg hversions]
  exact Dict.mem_keys.mpr ⟨proc, hproc⟩

theorem flatMap_of_perm {α β : Type} {f : α → List β} {pre l : List α} {x : α}
    (hperm : l.Perm (pre ++ [x])) (hnil : ∀ y ∈ pre, f y = []) : l.flatMap f = f x := by
  obtain ⟨a, b, rfl⟩ := List.append_of_mem (hperm.mem_iff.mpr (by simp : x ∈ pre ++ [x]))
  have hrest : (a ++ b).Perm pre := by
    refine List.Perm.cons_inv (List.perm_middle.symm.trans (hperm.trans ?_))
    exact List.perm_append_comm
  have hempty (c : List α) (hc : c ⊆ a ++ b) : c.flatMap f = [] :=
    List.flatMap_eq_nil_iff.mpr (fun y hy => hnil y (hrest.mem_iff.mp (hc hy)))
  rw [List.flatMap_append, List.flatMap_cons, hempty a (List.subset_append_left _ _),
    hempty b (List.subset_append_right _ _), List.nil_append, List.append_nil]

theorem sendsOf_input :
    sendsOf (sortTasks (n.discardTasks g none ++ [⟨[], Key.input, writes, []⟩])) =
      flatten (writesTo Key.tasks writes) := by
  refine congrArg flatten (flatMap_of_perm (List.perm_insertionSort _ _) ?_)
  intro t ht
  rw [writes_discardTasks ht]
  rfl

theorem Entered.sends (h : Entered g next writes u n l') (htopic : SendTopic n.channels) :
    Graph.pendingSends l'.channels = flatten (writesTo Key.tasks writes) ∨
      ∀ checkpointId step, g.pushTasks checkpointId l'.channels step true = [] := by
  obtain ⟨vs, hvs⟩ := htopic
  have happlied := tasks_applyWrites hvs h.ok
  rw [sendsOf_input] at happlied
  have hpending := pendingSends_topic (h.channels ▸ happlied)
  have hold : Graph.pendingSends n.channels = vs := pendingSends_topic hvs
  generalize htasks : n.discardTasks g none ++ [⟨[], Key.input, writes, []⟩] = tasks at hpending
  have hbump := discard_or_no_sends g n ⟨[], Key.input, writes, []⟩
  rw [htasks] at hbump
  cases hb : bumpStep (sortTasks tasks) with
  | true => exact Or.inl (by simpa [keptValues, appendedValues, hb] using hpending)
  | false =>
    cases hw : writesTasks (sortTasks tasks) with
    | true => exact Or.inl (by simpa [keptValues, appendedValues, hb, hw] using hpending)
    | false =>
      have hnone : writesTo Key.tasks writes = [] := by
        refine List.map_eq_nil_iff.mpr (List.filter_eq_nil_iff.mpr ?_)
        intro w hmem htrue
        have hin : ⟨[], Key.input, writes, []⟩ ∈ sortTasks tasks := by
          rw [← htasks]
          exact mem_sortTasks.mpr (by simp)
        have hany : writesTasks (sortTasks tasks) = true :=
          List.any_eq_true.mpr ⟨_, hin, List.any_eq_true.mpr ⟨w, hmem, htrue⟩⟩
        rw [hw] at hany
        cases hany
      have hkept : Graph.pendingSends l'.channels = Graph.pendingSends n.channels := by
        rw [hold]
        simpa [keptValues, appendedValues, hb, hw, hnone, flatten] using hpending
      refine Or.inr (fun checkpointId step => ?_)
      rw [Graph.pushTasks, hkept]
      exact (hbump.resolve_left (by rw [hb]; exact Bool.false_ne_true)) checkpointId step

theorem Entered.sent (h : Entered g next writes u n l') (htopic : SendTopic n.channels)
    (ht : t ∈ (l'.preparedTasks g).values) :
    (∃ name, t.path = [.str Key.pull, .str name]) ∨
      l'.SentBy g (flatten (writesTo Key.tasks writes)) t := by
  obtain ⟨id, hid⟩ := Dict.mem_values.mp ht
  obtain ⟨-, hpush | ⟨name, -, cache, hpull⟩⟩ :=
    Graph.mem_prepareNextTasks (Dict.get?_eq_some.mp hid)
  · right
    rcases h.sends htopic with hsends | hnil
    · obtain ⟨idx, v, hv, hpush⟩ := Graph.mem_pushTasks hpush
      exact ⟨idx, v, hsends ▸ hv, hpush⟩
    · rw [hnil] at hpush
      cases hpush
  · exact Or.inl ⟨name, (Graph.path_preparePull hpull).1⟩

end Entered

end PregelLoop

section Run

variable {Ver : Type} [LinearOrder Ver] [OrderBot Ver] {g : Graph Channel}

-- What is left of the work of `n` once `l'` was given an input with these Sends.
structure Abandons (g : Graph Channel) (sends : List Value) (n l' : PregelLoop Channel Ver) :
    Prop where
  updated : ∃ updated, l'.updatedChannels = some updated ∧
    (∀ chan ∈ updated, n.OfferedAnew l' chan) ∧ (updated ≠ ∅ → l'.OfInput g updated) ∧
    (updated = ∅ → n.checkpoint.channelVersions.items ≠ [] → ∀ name proc,
      g.nodes.get? name = some proc → proc.hasNode = true →
      (g.readInput l'.channels proc.channels).isSome = true →
      (l'.Scheduled g name ↔ ∃ chan ∈ proc.triggers, n.OfferedAnew l' chan))
  pending : ∀ name, n.Pending g name → l'.Scheduled g name →
    ∃ proc, g.nodes.get? name = some proc ∧ ∃ chan ∈ proc.triggers, n.OfferedAnew l' chan
  sent : ∀ t ∈ (l'.preparedTasks g).values,
    (∃ name, t.path = [.str Key.pull, .str name]) ∨ l'.SentBy g sends t

theorem first_abandons {inputKeys : InputKeys} {events : List (Event Ver)}
    {l : PregelLoop Channel Ver} {v : Value} {sameRun : Bool}
    {nextNull next : GetNextVersion Ver} {newId : String} (hg : g.Validated)
    (hindex : g.triggerToNodes = triggerToNodes g.nodes)
    (he : ∀ e ∈ events, ∀ n ∈ e.nexts, StrictlyIncreasing n)
    (hnull : StrictlyIncreasing nextNull) (hn : StrictlyIncreasing next)
    (hl : (run (Thread.step g inputKeys) Thread.fresh events).loop = some l)
    (hres : l.isResuming (.value v) sameRun = false)
    (hok : (l.first g inputKeys (.value v) sameRun nextNull next newId).2 = none)
    (hids : ((g.scanned (l.nulled g (.value v) nextNull).checkpoint
      (l.nulled g (.value v) nextNull).channels (l.nulled g (.value v) nextNull).step).map
        PregelTask.id).Nodup)
    (hids' : (((l.first g inputKeys (.value v) sameRun nextNull next newId).1.nextTasks g).map
      PregelTask.id).Nodup) :
    Abandons g (flatten (writesTo Key.tasks (mapInput inputKeys v)))
      (l.nulled g (.value v) nextNull)
      (l.first g inputKeys (.value v) sameRun nextNull next newId).1 := by
  obtain ⟨s, hsane⟩ := Thread.sane_run hg he hl
  obtain ⟨v', u, hv, hentered⟩ := PregelLoop.entered_first hn hok hres
  obtain rfl := Input.value.inj hv
  have hnulled := (PregelLoop.sane_nulled hg hsane hnull (.value v)).2
  refine ⟨⟨u, hentered.updated, fun chan hchan => hentered.offeredAnew hn hchan,
    hentered.ofInput hn hnulled.checkpoint hindex hids', ?_⟩, fun name => hentered.anew,
    fun t => hentered.sent hnulled.topic⟩
  intro hu hstarted name proc hproc hnode hread
  constructor
  · exact hentered.anew_of_scanned hnulled.checkpoint hu hstarted hids hproc hread
  · rintro ⟨chan, hchan, hanew⟩
    exact hentered.scanned_of_anew hnulled.checkpoint hu hids' hproc hnode hread hchan hanew

def interruptedEvents : List (Event Nat) :=
  [.enter (LoopConfig.plain .sync) none "0" none,
    .first (.value (.int 7)) false successor successor "1", .tick,
    .commit "1w0w__pregel_pulli" ⟨[("d", .int 5)], none⟩, .afterTick successor "2",
    .enter (LoopConfig.plain .sync) none "3" none]

theorem nexts_interruptedEvents : ∀ e ∈ interruptedEvents, ∀ n ∈ e.nexts,
    StrictlyIncreasing n := by
  simp [interruptedEvents, Event.nexts, strictlyIncreasing_successor]

-- Node `n` was to run next when the run was given up; the new input schedules `w` alone.
theorem unfinished_reader_abandoned :
    ∃ l, (run (Thread.step logGraph (.single "i")) Thread.fresh interruptedEvents).loop = some l ∧
      (l.nulled logGraph (.value (.int 8)) successor).Pending logGraph "n" ∧
      (l.first logGraph (.single "i") (.value (.int 8)) false successor successor
        "4").1.Scheduled logGraph "w" ∧
      ¬ (l.first logGraph (.single "i") (.value (.int 8)) false successor successor
        "4").1.Scheduled logGraph "n" := by
  generalize hs : run (Thread.step logGraph (.single "i")) Thread.fresh interruptedEvents = th
  have hfacts : th.loop.any (fun l =>
      decide (l.isResuming (.value (.int 8)) false = false) &&
      decide ((l.first logGraph (.single "i") (.value (.int 8)) false successor successor
        "4").2 = none) &&
      decide (((logGraph.scanned (l.nulled logGraph (.value (.int 8)) successor).checkpoint
        (l.nulled logGraph (.value (.int 8)) successor).channels
        (l.nulled logGraph (.value (.int 8)) successor).step).map PregelTask.id).Nodup) &&
      decide (((l.first logGraph (.single "i") (.value (.int 8)) false successor successor
        "4").1.nextTasks logGraph).map PregelTask.id).Nodup &&
      decide ((l.first logGraph (.single "i") (.value (.int 8)) false successor successor
        "4").1.updatedChannels = some {"i"}) &&
      decide ((l.nulled logGraph (.value (.int 8)) successor).Pending logGraph "n") &&
      decide ((l.first logGraph (.single "i") (.value (.int 8)) false successor successor
        "4").1.Scheduled logGraph "w")) = true := by
    subst hs
    decide +kernel
  obtain ⟨l, hl, hl'⟩ := (Option.any_eq_true _ _).mp hfacts
  simp only [Bool.and_eq_true, decide_eq_true_eq] at hl'
  obtain ⟨⟨⟨⟨⟨⟨hres, hok⟩, hids⟩, hids'⟩, hupdated⟩, hpending⟩, hscheduled⟩ := hl'
  obtain ⟨⟨u, hu, -, hinput, -⟩, -, -⟩ := first_abandons validated_logGraph rfl
    nexts_interruptedEvents strictlyIncreasing_successor strictlyIncreasing_successor
    (by rw [hs]; exact hl) hres hok hids hids'
  obtain rfl := Option.some.inj (hupdated.symm.trans hu)
  refine ⟨l, hl, hpending, hscheduled, fun h => ?_⟩
  obtain ⟨proc, hproc, -, chan, hchan, hin⟩ := (hinput (Finset.singleton_ne_empty "i")).triggered "n" h
  obtain rfl := Option.some.inj (hproc.symm.trans (rfl : logGraph.nodes.get? "n" = some
    ⟨.single "d", ["d"], none, none, none, none, true⟩))
  obtain rfl := List.mem_singleton.mp hchan
  exact absurd (Finset.mem_singleton.mp hin) (by decide)

def addInts (a b : Value) : Except UpdateError Value :=
  match a, b with
  | .scalar (.int a), .scalar (.int b) => .ok (.int (a + b))
  | _, _ => .ok a

-- Node `b` subscribes to a channel with a value from the start, node `s` to a barrier.
def tallyGraph : Graph Channel :=
  { Graph.ofSpecs (Dict.ofList
      [("j", .namedBarrierValue ⟨"j", {.str "x", .str "y"}, ∅⟩),
        ("total", .binaryOperatorAggregate ⟨addInts, some (.int 0), some (.int 0), by decide⟩),
        (Key.tasks, .topic ⟨false, []⟩)]) with
    nodes := Dict.ofList [("s", ⟨.single "j", ["j"], none, none, none, none, true⟩),
      ("b", ⟨.single "total", ["total"], none, none, none, none, true⟩)]
    triggerToNodes := Dict.ofList [("j", ["s"]), ("total", ["b"])] }

-- The first input of the thread leaves the barrier short, and every node is scanned.
theorem untouched_node_scheduled :
    ∃ l, (run (Thread.step tallyGraph (.many ["j"])) (Thread.fresh : Thread Channel Nat)
        [.enter (LoopConfig.plain .sync) none "0" none]).loop = some l ∧
      l.isResuming (.value (.dict [("j", .str "x")])) false = false ∧
      (l.first tallyGraph (.many ["j"]) (.value (.dict [("j", .str "x")])) false successor
        (successor : GetNextVersion Nat) "1").2 = none ∧
      (l.first tallyGraph (.many ["j"]) (.value (.dict [("j", .str "x")])) false successor
        successor "1").1.Scheduled tallyGraph "b" ∧
      ∀ proc, tallyGraph.nodes.get? "b" = some proc → ∀ chan ∈ proc.triggers,
        ¬ (l.nulled tallyGraph (.value (.dict [("j", .str "x")])) successor).OfferedAnew
          (l.first tallyGraph (.many ["j"]) (.value (.dict [("j", .str "x")])) false successor
            successor "1").1 chan := by
  generalize hs : run (Thread.step tallyGraph (.many ["j"])) (Thread.fresh : Thread Channel Nat)
    [.enter (LoopConfig.plain .sync) none "0" none] = th
  have hfacts : th.loop.any (fun l =>
      decide (l.isResuming (.value (.dict [("j", .str "x")])) false = false) &&
      decide ((l.first tallyGraph (.many ["j"]) (.value (.dict [("j", .str "x")])) false successor
        (successor : GetNextVersion Nat) "1").2 = none) &&
      decide ((l.first tallyGraph (.many ["j"]) (.value (.dict [("j", .str "x")])) false successor
        successor "1").1.Scheduled tallyGraph "b") &&
      decide ((l.first tallyGraph (.many ["j"]) (.value (.dict [("j", .str "x")])) false
        successor successor "1").1.checkpoint.channelVersions.get? "total" = none)) = true := by
    subst hs
    decide +kernel
  obtain ⟨l, hl, hl'⟩ := (Option.any_eq_true _ _).mp hfacts
  simp only [Bool.and_eq_true, decide_eq_true_eq] at hl'
  obtain ⟨⟨⟨hres, hok⟩, hscheduled⟩, hversion⟩ := hl'
  refine ⟨l, hl, hres, hok, hscheduled, ?_⟩
  rintro proc hproc chan hchan ⟨-, hraised⟩
  obtain rfl := Option.some.inj (hproc.symm.trans (rfl : tallyGraph.nodes.get? "b" = some
    ⟨.single "total", ["total"], none, none, none, none, true⟩))
  obtain rfl := List.mem_singleton.mp hchan
  rw [Dict.getD_of_none hversion] at hraised
  exact absurd hraised not_lt_bot

end Run

end LangGraph

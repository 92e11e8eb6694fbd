import LangGraph.Pregel.FailedSuperstep
import LangGraph.Pregel.Lookahead
import LangGraph.Pregel.SendTasks

namespace LangGraph

open Collections

variable {Ver : Type}

section Index

def triggerToNodes (nodes : Dict String PregelNode) : Dict String (List String) :=
  (nodes.items.flatMap (fun e => e.2.triggers.map (fun trigger => (trigger, e.1)))).foldl
    (fun index p => index.set p.1 (index.getD p.1 [] ++ [p.2])) ∅

theorem mem_foldl_index {name chan : String} (pairs : List (String × String))
    (index : Dict String (List String)) :
    name ∈ (pairs.foldl (fun (index : Dict String (List String)) p =>
        index.set p.1 (index.getD p.1 [] ++ [p.2])) index).getD chan [] ↔
      name ∈ index.getD chan [] ∨ (chan, name) ∈ pairs := by
  induction pairs generalizing index with
  | nil => simp
  | cons p pairs ih =>
    obtain ⟨chan', name'⟩ := p
    rw [List.foldl_cons, ih, Dict.getD, Dict.get?_set]
    by_cases hchan : chan = chan'
    · subst hchan
      simp [Dict.getD, or_assoc]
    · simp [hchan, Dict.getD]

theorem mem_triggerToNodes {nodes : Dict String PregelNode} {name chan : String} :
    name ∈ (triggerToNodes nodes).getD chan [] ↔
      ∃ proc, nodes.get? name = some proc ∧ chan ∈ proc.triggers := by
  rw [triggerToNodes, mem_foldl_index]
  constructor
  · rintro (hnil | hmem)
    · cases hnil
    · obtain ⟨⟨name', proc⟩, hitem, htriggers⟩ := List.mem_flatMap.mp hmem
      obtain ⟨trigger, htrigger, heq⟩ := List.mem_map.mp htriggers
      obtain ⟨rfl, rfl⟩ := Prod.mk.inj heq
      exact ⟨proc, Dict.get?_eq_some.mpr hitem, htrigger⟩
  · rintro ⟨proc, hproc, hchan⟩
    refine Or.inr (List.mem_flatMap.mpr ⟨(name, proc), Dict.get?_eq_some.mp hproc, ?_⟩)
    exact List.mem_map_of_mem (f := fun trigger => (trigger, name)) hchan

theorem mem_keys_triggerToNodes {nodes : Dict String PregelNode} {name chan : String}
    {proc : PregelNode} (hproc : nodes.get? name = some proc) (hchan : chan ∈ proc.triggers) :
    chan ∈ (triggerToNodes nodes).keys := by
  have hmem := mem_triggerToNodes.mpr ⟨proc, hproc, hchan⟩
  cases hget : (triggerToNodes nodes).get? chan with
  | none =>
    rw [Dict.getD, hget] at hmem
    cases hmem
  | some names => exact Dict.mem_keys.mpr ⟨names, hget⟩

end Index

section Bounded

variable [LinearOrder Ver]

-- No node has seen a version of a channel later than the current one.
def SeenBounded (checkpoint : Checkpoint Ver) : Prop :=
  ∀ name seen chan w, checkpoint.versionsSeen.get? name = some seen → seen.get? chan = some w →
    ∃ v, checkpoint.channelVersions.get? chan = some v ∧ w ≤ v

theorem applyWrites_spec {checkpoint : Checkpoint Ver} {channels : Dict String Channel}
    {tasks : List PregelTaskWrites} {next : GetNextVersion Ver}
    {triggerToNodes : Dict String (List String)} {updated : Finset String}
    (hok : (applyWrites checkpoint channels tasks (some next) triggerToNodes).2.2 = .ok updated) :
    (applyChannels channels checkpoint.channelVersions
        (some (next (maxVersion checkpoint.channelVersions))) (sortTasks tasks)
        triggerToNodes).2 = none ∧
      updated = (applyChannels channels checkpoint.channelVersions
        (some (next (maxVersion checkpoint.channelVersions))) (sortTasks tasks)
        triggerToNodes).1.updated := by
  simp only [applyWrites] at hok
  split at hok
  · cases hok
  · rename_i hnone
    exact ⟨hnone, (Except.ok.inj hok).symm⟩

theorem mem_sortTasks {t : PregelTaskWrites} {tasks : List PregelTaskWrites} :
    t ∈ sortTasks tasks ↔ t ∈ tasks :=
  (List.perm_insertionSort _ tasks).mem_iff

omit [LinearOrder Ver] in
theorem keys_foldl_seeVersions (versions : ChannelVersions Ver) (tasks : List PregelTaskWrites)
    (versionsSeen : Dict String (ChannelVersions Ver)) (name : String) :
    name ∈ (tasks.foldl (seeVersions versions) versionsSeen).keys ↔
      name ∈ versionsSeen.keys ∨ ∃ t ∈ tasks, t.name = name := by
  induction tasks generalizing versionsSeen with
  | nil => simp
  | cons t tasks ih =>
    rw [List.foldl_cons, ih, seeVersions, Dict.mem_keys_set]
    constructor
    · rintro ((rfl | hkey) | ⟨t', ht', hname⟩)
      · exact Or.inr ⟨t, List.mem_cons_self, rfl⟩
      · exact Or.inl hkey
      · exact Or.inr ⟨t', List.mem_cons_of_mem t ht', hname⟩
    · rintro (hkey | ⟨t', ht', hname⟩)
      · exact Or.inl (Or.inr hkey)
      · rcases List.mem_cons.mp ht' with rfl | ht'
        · exact Or.inl (Or.inl hname.symm)
        · exact Or.inr ⟨t', ht', hname⟩

-- What a node has seen after an apply.
omit [LinearOrder Ver] in
theorem seen_of_foldl {versions : ChannelVersions Ver} {tasks : List PregelTaskWrites}
    {versionsSeen : Dict String (ChannelVersions Ver)} {name chan : String}
    {seen : ChannelVersions Ver}
    (h : (tasks.foldl (seeVersions versions) versionsSeen).get? name = some seen) :
    seen.get? chan =
      if ∃ t ∈ tasks, t.name = name ∧ chan ∈ t.triggers then
        (versions.get? chan).or ((versionsSeen.getD name ∅).get? chan)
      else (versionsSeen.getD name ∅).get? chan := by
  rw [← get?_foldl_seeVersions, Dict.getD, h, Option.getD_some]

theorem seen_applyWrites_le {checkpoint : Checkpoint Ver} {next : Option (GetNextVersion Ver)}
    (h : SeenBounded checkpoint) {channels : Dict String Channel} {tasks : List PregelTaskWrites}
    {triggerToNodes : Dict String (List String)} {name chan : String}
    {seen : ChannelVersions Ver} {w : Ver}
    (hname : (applyWrites checkpoint channels tasks next triggerToNodes).1.versionsSeen.get? name =
      some seen) (hw : seen.get? chan = some w) :
    ∃ v, checkpoint.channelVersions.get? chan = some v ∧ w ≤ v := by
  have hseen := @seen_of_foldl _ _ _ _ _ chan _ hname
  have hbefore (hb : (checkpoint.versionsSeen.getD name ∅).get? chan = some w) :
      ∃ v, checkpoint.channelVersions.get? chan = some v ∧ w ≤ v := by
    cases hs : checkpoint.versionsSeen.get? name with
    | none =>
      rw [Dict.getD, hs] at hb
      cases hb
    | some s =>
      rw [Dict.getD, hs] at hb
      exact h name s chan w hs hb
  rw [hw] at hseen
  split at hseen
  · cases hv : checkpoint.channelVersions.get? chan with
    | none =>
      rw [hv] at hseen hbefore
      exact hbefore hseen.symm
    | some v =>
      rw [hv] at hseen
      exact ⟨v, rfl, le_of_eq (Option.some.inj hseen)⟩
  · exact hbefore hseen.symm

theorem seenBounded_applyWrites [OrderBot Ver] {checkpoint : Checkpoint Ver}
    {next : GetNextVersion Ver} (hn : StrictlyIncreasing next) (h : SeenBounded checkpoint)
    (channels : Dict String Channel) (tasks : List PregelTaskWrites)
    (triggerToNodes : Dict String (List String)) :
    SeenBounded (applyWrites checkpoint channels tasks (some next) triggerToNodes).1 := by
  intro name seen chan w hname hw
  obtain ⟨v, hv, hle⟩ := seen_applyWrites_le h hname hw
  rcases @version_applyChannels _ channels checkpoint.channelVersions
    (next (maxVersion checkpoint.channelVersions)) (sortTasks tasks) triggerToNodes chan with hsame | hbumped
  · exact ⟨v, hsame.trans hv, hle⟩
  · exact ⟨_, hbumped, hle.trans (le_of_lt (lt_next_of_get? hn hv))⟩

end Bounded

namespace Graph

variable {g : Graph Channel} {channels : Dict String Channel} {name chan : String}
  {proc : PregelNode}

section Due

variable [LinearOrder Ver] [OrderBot Ver] {checkpoint checkpoint' : Checkpoint Ver}
  {channels' : Dict String Channel}

def DueAt (checkpoint : Checkpoint Ver) (channels : Dict String Channel) (name chan : String) :
    Prop :=
  (∃ c, channels.get? chan = some c ∧ c.isAvailable = true) ∧
    ∃ v, checkpoint.channelVersions.get? chan = some v ∧
      ∀ seen, checkpoint.versionsSeen.get? name = some seen → seen.getD chan ⊥ < v

def Due (checkpoint : Checkpoint Ver) (channels : Dict String Channel) (name : String)
    (proc : PregelNode) : Prop :=
  ∃ chan ∈ proc.triggers, DueAt checkpoint channels name chan

def Offered (channels : Dict String Channel) (chan : String) : Prop :=
  ∃ c, channels.get? chan = some c ∧ c.isAvailable = true

theorem triggers_of_due (h : Due checkpoint channels name proc) :
    ∃ nullVersion, checkpointNullVersion checkpoint.channelVersions = some nullVersion ∧
      triggers channels checkpoint.channelVersions (checkpoint.versionsSeen.get? name)
        nullVersion proc = true := by
  obtain ⟨chan, hchan, ⟨c, hc, hav⟩, v, hv, hseen⟩ := h
  have hne : checkpoint.channelVersions.items ≠ [] := by
    intro hnil
    have hmem := Dict.get?_eq_some.mp hv
    rw [hnil] at hmem
    cases hmem
  refine ⟨⊥, by rw [checkpointNullVersion, if_neg hne], List.any_eq_true.mpr ⟨chan, hchan, ?_⟩⟩
  have hav' : BaseChannel.isAvailable c = true := hav
  cases hget : checkpoint.versionsSeen.get? name with
  | none => simp [hc, hav']
  | some seen =>
    have hlt := hseen seen hget
    simpa [hc, hav', Dict.getD, hv] using hlt

section Apply

variable {tasks : List PregelTaskWrites} {next : GetNextVersion Ver} {u : Finset String}
  {updated : Option (Finset String)}

omit [OrderBot Ver] in
theorem sends_applyWrites (ht : SendTopic channels)
    (hok : (applyWrites checkpoint channels tasks (some next) g.triggerToNodes).2.2 = .ok u)
    (hempty : bumpStep (sortTasks tasks) = true ∨
      pendingSends channels = [] ) (hsends : sendsOf (sortTasks tasks) = []) :
    pendingSends (applyWrites checkpoint channels tasks (some next) g.triggerToNodes).2.1 = [] := by
  obtain ⟨vs, hvs⟩ := ht
  have hafter := tasks_applyWrites hvs hok
  rw [pendingSends_topic hafter, hsends]
  have hkept : keptValues ⟨false, vs⟩ (bumpStep (sortTasks tasks))
      (writesTasks (sortTasks tasks)) = [] := by
    rcases hempty with hbump | hnone
    · simp [keptValues, hbump]
    · rw [pendingSends_topic hvs] at hnone
      simp [keptValues, hnone]
  rw [hkept]
  simp [appendedValues]

end Apply

end Due

end Graph

end LangGraph

import LangGraph.Pregel.Deferred

namespace LangGraph

open Collections

variable {Ver : Type}

section Still

-- An operation that reports no change makes none.
def ChannelOp.Inert (op : ChannelOp Channel) : Prop :=
  ∀ chan updated c, (op chan updated c).2 = .ok false → (op chan updated c).1 = c

theorem ChannelOp.inert_consume : (ChannelOp.consume : ChannelOp Channel).Inert := by
  intro chan updated c h
  exact Channel.consume_false (Except.ok.inj h)

theorem ChannelOp.inert_update (pending : Dict String (List Value)) :
    (ChannelOp.update pending : ChannelOp Channel).Inert := by
  intro chan updated c h
  exact Channel.update_false h

theorem ChannelOp.inert_updateEmpty : (ChannelOp.updateEmpty : ChannelOp Channel).Inert := by
  intro chan updated c h
  unfold ChannelOp.updateEmpty at h ⊢
  split at h
  · rename_i hav
    rw [if_pos hav]
    exact Channel.update_false h
  · rename_i hav
    rw [if_neg hav]

theorem ChannelOp.inert_finish : (ChannelOp.finish : ChannelOp Channel).Inert := by
  intro chan updated c h
  exact Channel.finish_false (Except.ok.inj h)

namespace ApplyState

variable {v : Ver} {s s' : ApplyState Channel Ver}

def Bumped (v : Ver) (s : ApplyState Channel Ver) : Prop := ∃ chan, s.versions.get? chan = some v

def Still (v : Ver) (s s' : ApplyState Channel Ver) : Prop := s' = s ∨ Bumped v s'

theorem Still.trans {s'' : ApplyState Channel Ver} (h : Still v s s')
    (h' : Still v s' s'') (hkeep : Bumped v s' → Bumped v s'') : Still v s s'' := by
  rcases h with rfl | hb
  · exact h'
  · exact Or.inr (hkeep hb)

theorem Bumped.touch (h : Bumped v s) (mark : Bool) (op : ChannelOp Channel) (chan : String) :
    Bumped v (s.touch (some v) mark op chan).1 := by
  obtain ⟨k, hk⟩ := h
  refine ⟨k, ?_⟩
  unfold ApplyState.touch
  split
  · exact hk
  · simp only
    split
    · exact hk
    · rename_i v' _ hv
      rw [← Option.some.inj hv, Dict.get?_set]
      split
      · rfl
      · exact hk
    · exact hk

theorem Bumped.sweep (h : Bumped v s) (mark : Bool) (op : ChannelOp Channel) (ks : List String) :
    Bumped v (sweep (ApplyState.touch (some v) mark op) ks s).1 :=
  Sweep.invariant (fun k _ ht => ht.touch mark op k) ks h

theorem still_touch {mark : Bool} {op : ChannelOp Channel} {chan : String} (hop : op.Inert)
    (hok : (s.touch (some v) mark op chan).2 = none) :
    Still v s (s.touch (some v) mark op chan).1 := by
  unfold ApplyState.touch at hok ⊢
  split
  · exact Or.inl rfl
  · rename_i c hc
    simp only [hc] at hok
    cases hr : (op chan (decide (chan ∈ s.updated)) c).2 with
    | error e =>
      rw [hr] at hok
      cases hok
    | ok b =>
      simp only [hr]
      cases b with
      | true => exact Or.inr ⟨chan, Dict.get?_set_self _ _ _⟩
      | false =>
        have hsame := hop chan _ c hr
        simp only [hsame, Dict.set_of_get? hc]
        exact Or.inl rfl

theorem still_sweep {mark : Bool} {op : ChannelOp Channel} (hop : op.Inert) {ks : List String}
    (hok : (sweep (ApplyState.touch (some v) mark op) ks s).2 = none) :
    Still v s (sweep (ApplyState.touch (some v) mark op) ks s).1 := by
  induction ks generalizing s with
  | nil => exact Or.inl rfl
  | cons k ks ih =>
    obtain ⟨hstep, heq⟩ := andThen_ok hok
    have hrest : sweep (ApplyState.touch (some v) mark op) (k :: ks) s =
        sweep (ApplyState.touch (some v) mark op) ks (s.touch (some v) mark op k).1 := heq
    rw [hrest] at hok ⊢
    exact (still_touch hop hstep).trans (ih hok) (fun hb => hb.sweep mark op ks)

end ApplyState

open ApplyState

variable {v : Ver} {triggerToNodes : Dict String (List String)} {s : ApplyState Channel Ver}

theorem ApplyState.Bumped.finishPhase (h : Bumped v s) :
    Bumped v (finishPhase (some v) triggerToNodes s).1 := by
  unfold LangGraph.finishPhase
  split
  · exact h
  · exact h.sweep true .finish _

theorem still_finishPhase (hok : (finishPhase (some v) triggerToNodes s).2 = none) :
    Still v s (finishPhase (some v) triggerToNodes s).1 := by
  unfold finishPhase at hok ⊢
  split
  · exact Or.inl rfl
  · rename_i hnone
    rw [if_neg hnone] at hok
    exact still_sweep ChannelOp.inert_finish hok

theorem ApplyState.Bumped.bumpPhases (h : Bumped v s) :
    Bumped v (bumpPhases (some v) triggerToNodes s).1 :=
  andThen_invariant (h.sweep true .updateEmpty _) (fun _ ht => ht.finishPhase)

theorem still_bumpPhases (hok : (bumpPhases (some v) triggerToNodes s).2 = none) :
    Still v s (bumpPhases (some v) triggerToNodes s).1 := by
  obtain ⟨hempty, heq⟩ := andThen_ok hok
  have hrest : bumpPhases (some v) triggerToNodes s = _ := heq
  rw [hrest] at hok ⊢
  exact (still_sweep ChannelOp.inert_updateEmpty hempty).trans (still_finishPhase hok)
    (fun hb => hb.finishPhase)

theorem ApplyState.Bumped.updatePhases (h : Bumped v s) (pending : Dict String (List Value)) (bump : Bool) :
    Bumped v (updatePhases (some v) triggerToNodes pending bump s).1 := by
  refine andThen_invariant (h.sweep true (.update pending) _) (fun t ht => ?_)
  cases bump with
  | true => exact ht.bumpPhases
  | false => exact ht

theorem still_updatePhases {pending : Dict String (List Value)} {bump : Bool}
    (hok : (updatePhases (some v) triggerToNodes pending bump s).2 = none) :
    Still v s (updatePhases (some v) triggerToNodes pending bump s).1 := by
  obtain ⟨hupdate, heq⟩ := andThen_ok hok
  have hrest : updatePhases (some v) triggerToNodes pending bump s = _ := heq
  rw [hrest] at hok ⊢
  have hfirst := still_sweep (ChannelOp.inert_update pending) hupdate
  cases bump with
  | true => exact hfirst.trans (still_bumpPhases hok) (fun hb => hb.bumpPhases)
  | false => exact hfirst

variable {channels : Dict String Channel} {versions : ChannelVersions Ver}
  {tasks : List PregelTaskWrites}

-- An apply either bumps a version or leaves everything as it is.
theorem applyChannels_still
    (hok : (applyChannels channels versions (some v) tasks triggerToNodes).2 = none) :
    Still v ⟨versions, channels, ∅⟩
      (applyChannels channels versions (some v) tasks triggerToNodes).1 := by
  obtain ⟨hconsume, heq⟩ := andThen_ok hok
  have hrest : applyChannels channels versions (some v) tasks triggerToNodes = _ := heq
  rw [hrest] at hok ⊢
  exact (still_sweep ChannelOp.inert_consume hconsume).trans (still_updatePhases hok)
    (fun hb => hb.updatePhases _ _)

end Still

section Moved

variable [LinearOrder Ver] [OrderBot Ver] {checkpoint checkpoint' : Checkpoint Ver}

theorem updatesSinceInterrupt_iff : updatesSinceInterrupt checkpoint = true ↔
    ∃ chan v, checkpoint.channelVersions.get? chan = some v ∧
      (checkpoint.versionsSeen.getD Key.interrupt ∅).getD chan ⊥ < v := by
  rw [updatesSinceInterrupt, List.any_eq_true]
  constructor
  · rintro ⟨⟨chan, v⟩, hmem, hlt⟩
    exact ⟨chan, v, Dict.get?_eq_some.mpr hmem, of_decide_eq_true hlt⟩
  · rintro ⟨chan, v, hv, hlt⟩
    exact ⟨(chan, v), Dict.get?_eq_some.mp hv, decide_eq_true hlt⟩

-- Versions only grow from the one checkpoint to the other.
structure Advances (checkpoint checkpoint' : Checkpoint Ver) : Prop where
  seen : ∀ chan, (checkpoint'.versionsSeen.getD Key.interrupt ∅).get? chan =
    (checkpoint.versionsSeen.getD Key.interrupt ∅).get? chan
  versions : ∀ chan v, checkpoint.channelVersions.get? chan = some v →
    ∃ v', checkpoint'.channelVersions.get? chan = some v' ∧ v ≤ v'

theorem Advances.moved (h : Advances checkpoint checkpoint')
    (hm : updatesSinceInterrupt checkpoint = true) :
    updatesSinceInterrupt checkpoint' = true := by
  obtain ⟨chan, v, hv, hlt⟩ := updatesSinceInterrupt_iff.mp hm
  obtain ⟨v', hv', hle⟩ := h.versions chan v hv
  refine updatesSinceInterrupt_iff.mpr ⟨chan, v', hv', ?_⟩
  rw [Dict.getD, h.seen chan]
  exact lt_of_lt_of_le hlt hle

-- What a node has seen lies below the versions.
theorem SeenBounded.getD_le (h : SeenBounded checkpoint) {name chan : String} {v : Ver}
    (hv : checkpoint.channelVersions.get? chan = some v) :
    (checkpoint.versionsSeen.getD name ∅).getD chan ⊥ ≤ v := by
  cases hs : checkpoint.versionsSeen.get? name with
  | none => simp [Dict.getD, hs]
  | some seen =>
    cases hw : seen.get? chan with
    | none => simp [Dict.getD, hs, hw]
    | some w =>
      obtain ⟨v', hv', hle⟩ := h name seen chan w hs hw
      obtain rfl := Option.some.inj (hv.symm.trans hv')
      simpa [Dict.getD, hs, hw] using hle

theorem Advances.moved_or_same (h : Advances checkpoint checkpoint')
    (hb : SeenBounded checkpoint) (hkeys : ∀ chan, checkpoint.channelVersions.get? chan = none →
      checkpoint'.channelVersions.get? chan = none) :
    updatesSinceInterrupt checkpoint' = true ∨
      ∀ chan, checkpoint'.channelVersions.get? chan = checkpoint.channelVersions.get? chan := by
  by_contra hno
  rw [not_or] at hno
  obtain ⟨hm, hne⟩ := hno
  refine hne (fun chan => ?_)
  cases hv : checkpoint.channelVersions.get? chan with
  | none => exact hkeys chan hv
  | some v =>
    obtain ⟨v', hv', hle⟩ := h.versions chan v hv
    rw [hv']
    rcases eq_or_lt_of_le hle with rfl | hlt
    · rfl
    · refine absurd (updatesSinceInterrupt_iff.mpr ⟨chan, v', hv', ?_⟩) hm
      rw [Dict.getD, h.seen chan]
      exact lt_of_le_of_lt (hb.getD_le hv) hlt

variable {tasks : List PregelTaskWrites}

-- The tasks named like the interrupt entry see no channel.
def Harmless (versions : ChannelVersions Ver) (tasks : List PregelTaskWrites) : Prop :=
  ∀ t ∈ tasks, t.name = Key.interrupt → ∀ chan ∈ t.triggers, versions.get? chan = none

omit [OrderBot Ver] in
theorem seen_applyWrites {channels : Dict String Channel} {next : Option (GetNextVersion Ver)}
    {triggerToNodes : Dict String (List String)}
    (ht : Harmless checkpoint.channelVersions tasks) (chan : String) :
    ((applyWrites checkpoint channels tasks next triggerToNodes).1.versionsSeen.getD
        Key.interrupt ∅).get? chan =
      (checkpoint.versionsSeen.getD Key.interrupt ∅).get? chan := by
  refine (get?_foldl_seeVersions checkpoint.channelVersions (sortTasks tasks)
    checkpoint.versionsSeen Key.interrupt chan).trans ?_
  split
  · rename_i h
    obtain ⟨t, hmem, hname, hchan⟩ := h
    rw [ht t (mem_sortTasks.mp hmem) hname chan hchan, Option.none_or]
  · rfl

theorem advances_applyWrites {next : GetNextVersion Ver} (hn : StrictlyIncreasing next)
    (ht : Harmless checkpoint.channelVersions tasks) (channels : Dict String Channel)
    (triggerToNodes : Dict String (List String)) :
    Advances checkpoint
      (applyWrites checkpoint channels tasks (some next) triggerToNodes).1 where
  seen := seen_applyWrites ht
  versions chan v hv := by
    rcases @version_applyChannels _ channels checkpoint.channelVersions
      (next (maxVersion checkpoint.channelVersions)) (sortTasks tasks) triggerToNodes chan with
      hsame | hbumped
    · exact ⟨v, hsame.trans hv, le_rfl⟩
    · exact ⟨_, hbumped, le_of_lt (lt_next_of_get? hn hv)⟩

theorem moved_of_bumped {next : GetNextVersion Ver} (hn : StrictlyIncreasing next)
    (hb : SeenBounded checkpoint) (hseen : ∀ chan,
      (checkpoint'.versionsSeen.getD Key.interrupt ∅).get? chan =
        (checkpoint.versionsSeen.getD Key.interrupt ∅).get? chan) {chan : String}
    (hv : checkpoint'.channelVersions.get? chan =
      some (next (maxVersion checkpoint.channelVersions))) :
    updatesSinceInterrupt checkpoint' = true := by
  refine updatesSinceInterrupt_iff.mpr ⟨chan, _, hv, ?_⟩
  rw [Dict.getD, hseen chan]
  cases hold : checkpoint.channelVersions.get? chan with
  | some v => exact lt_of_le_of_lt (hb.getD_le hold) (lt_next_of_get? hn hold)
  | none =>
    cases hs : checkpoint.versionsSeen.get? Key.interrupt with
    | none => simpa [Dict.getD, hs] using bot_lt_next hn _
    | some seen =>
      cases hw : seen.get? chan with
      | none => simpa [Dict.getD, hs, hw] using bot_lt_next hn _
      | some w =>
        obtain ⟨v, hv', -⟩ := hb _ seen chan w hs hw
        rw [hold] at hv'
        cases hv'

-- After an apply some version has moved since the last interrupt, or nothing has changed.
theorem moved_or_still {next : GetNextVersion Ver} (hn : StrictlyIncreasing next)
    (hb : SeenBounded checkpoint) (ht : Harmless checkpoint.channelVersions tasks)
    {channels : Dict String Channel} {triggerToNodes : Dict String (List String)}
    {updated : Finset String}
    (hok : (applyWrites checkpoint channels tasks (some next) triggerToNodes).2.2 = .ok updated) :
    updatesSinceInterrupt
        (applyWrites checkpoint channels tasks (some next) triggerToNodes).1 = true ∨
      (applyWrites checkpoint channels tasks (some next) triggerToNodes).1.channelVersions =
          checkpoint.channelVersions ∧
        (applyWrites checkpoint channels tasks (some next) triggerToNodes).2.1 = channels ∧
        updated = ∅ := by
  obtain ⟨hnone, hupdated⟩ := applyWrites_spec hok
  rcases applyChannels_still hnone with hsame | ⟨chan, hv⟩
  · refine Or.inr ⟨congrArg ApplyState.versions hsame, congrArg ApplyState.channels hsame, ?_⟩
    rw [hupdated, hsame]
  · exact Or.inl (moved_of_bumped hn hb (seen_applyWrites ht) hv)

end Moved

namespace Graph

section Due

variable {C Ver : Type} [BaseChannel C] [LinearOrder Ver] [OrderBot Ver] {g : Graph C}
  {checkpoint checkpoint' : Checkpoint Ver} {channels : Dict String C} {step step' : Int}
  {name : String} {proc : PregelNode} {cache cache' : InputCache} {t : PregelTask}

-- A trigger of the node is available and has a version the node has not seen.
def Fires (checkpoint : Checkpoint Ver) (channels : Dict String C) (name : String)
    (proc : PregelNode) : Prop :=
  ∃ nullVersion, checkpointNullVersion checkpoint.channelVersions = some nullVersion ∧
    triggers channels checkpoint.channelVersions (checkpoint.versionsSeen.get? name)
      nullVersion proc = true

def Cached (cache : InputCache) (key : InputCacheKey) : Prop := ∃ v, (key, v) ∈ cache

def Readable (g : Graph C) (channels : Dict String C) (proc : PregelNode)
    (cache : InputCache) : Prop :=
  Cached cache proc.inputCacheKey ∨ (g.readInput channels proc.channels).isSome = true

omit [LinearOrder Ver] [OrderBot Ver] in
theorem find?_cache (key : InputCacheKey) (cache : InputCache) :
    (cache.find? (fun e => e.1 = key)).isSome = true ↔ Cached cache key := by
  rw [List.find?_isSome]
  constructor
  · rintro ⟨⟨k, v⟩, hmem, hk⟩
    obtain rfl : k = key := of_decide_eq_true hk
    exact ⟨v, hmem⟩
  · rintro ⟨v, hmem⟩
    exact ⟨(key, v), hmem, decide_eq_true rfl⟩

theorem procInput_isSome (g : Graph C) (channels : Dict String C) (proc : PregelNode)
    (cache : InputCache) :
    (g.procInput channels true proc cache).1.isSome = true ↔ g.Readable channels proc cache := by
  have hfind := find?_cache proc.inputCacheKey cache
  unfold procInput Readable
  cases hf : cache.find? (fun e => e.1 = proc.inputCacheKey) with
  | some e =>
    rw [hf] at hfind
    simp [hfind.mp rfl]
  | none =>
    rw [hf] at hfind
    have hno : ¬ Cached cache proc.inputCacheKey := fun h => by simpa using hfind.mpr h
    cases hr : g.readInput channels proc.channels with
    | none => simp [hno]
    | some v => simp

theorem cached_procInput (g : Graph C) (channels : Dict String C) (proc : PregelNode)
    (cache : InputCache) (key : InputCacheKey) :
    Cached (g.procInput channels true proc cache).2 key ↔
      Cached cache key ∨ key = proc.inputCacheKey ∧ g.Readable channels proc cache := by
  have hfind := find?_cache proc.inputCacheKey cache
  unfold procInput Readable
  cases hf : cache.find? (fun e => e.1 = proc.inputCacheKey) with
  | some e =>
    rw [hf] at hfind
    constructor
    · exact Or.inl
    · rintro (h | ⟨rfl, -⟩)
      · exact h
      · exact hfind.mp rfl
  | none =>
    rw [hf] at hfind
    have hno : ¬ Cached cache proc.inputCacheKey := fun h => by simpa using hfind.mpr h
    cases hr : g.readInput channels proc.channels with
    | none => simp [hno]
    | some v => simp [Cached, exists_or, or_comm, Prod.ext_iff]

theorem preparePull_some (h : (g.preparePull checkpoint channels step true name cache).1 = some t) :
    ∃ proc, g.nodes.get? name = some proc ∧ Fires checkpoint channels name proc ∧
      g.Readable channels proc cache ∧ proc.hasNode = true ∧ t.name = name ∧
      t.triggers = sortedTriggers proc := by
  unfold preparePull at h
  split at h
  · rename_i proc nullVersion hproc hnull
    split at h
    · rename_i hfires
      have hread := procInput_isSome g channels proc cache
      split at h
      · cases h
      · rename_i input cache₁ hinput
        rw [hinput] at hread
        unfold pullTask at h
        simp only [if_true] at h
        split at h
        · rename_i hnode
          obtain rfl := Option.some.inj h
          exact ⟨proc, hproc, ⟨nullVersion, hnull, hfires⟩, hread.mp rfl, hnode, rfl, rfl⟩
        · cases h
    · cases h
  · cases h

variable (step cache) in
theorem exists_preparePull (hproc : g.nodes.get? name = some proc)
    (hfires : Fires checkpoint channels name proc) (hread : g.Readable channels proc cache)
    (hnode : proc.hasNode = true) :
    ∃ t, (g.preparePull checkpoint channels step true name cache).1 = some t ∧ t.name = name ∧
      t.triggers = sortedTriggers proc := by
  obtain ⟨nullVersion, hnull, hfires⟩ := hfires
  obtain ⟨input, hinput⟩ := Option.isSome_iff_exists.mp
    ((procInput_isSome g channels proc cache).mpr hread)
  obtain ⟨r, hr⟩ : ∃ r, g.procInput channels true proc cache = r := ⟨_, rfl⟩
  obtain ⟨i, cache₁⟩ := r
  rw [hr] at hinput
  obtain rfl : i = some input := hinput
  unfold preparePull
  simp only [hproc, hnull, hfires, if_true, hr]
  unfold pullTask
  simp only [if_true, hnode]
  exact ⟨_, rfl, rfl, rfl⟩

theorem cached_preparePull (key : InputCacheKey) :
    Cached (g.preparePull checkpoint channels step true name cache).2 key ↔
      Cached cache key ∨ ∃ proc, g.nodes.get? name = some proc ∧
        Fires checkpoint channels name proc ∧ key = proc.inputCacheKey ∧
        g.Readable channels proc cache := by
  unfold preparePull Fires
  cases hproc : g.nodes.get? name with
  | none => simp
  | some proc =>
    cases hnull : checkpointNullVersion checkpoint.channelVersions with
    | none => simp
    | some nullVersion =>
      have hcached := cached_procInput g channels proc cache key
      cases hf : triggers channels checkpoint.channelVersions (checkpoint.versionsSeen.get? name)
        nullVersion proc with
      | false => simp [hf]
      | true =>
        obtain ⟨r, hr⟩ : ∃ r, g.procInput channels true proc cache = r := ⟨_, rfl⟩
        obtain ⟨_ | input, cache₁⟩ := r
        · rw [hr] at hcached
          simpa [hf, hr] using hcached
        · rw [hr] at hcached
          simpa [hf, hr] using hcached

-- With fewer nodes firing on the same channels, no other node gets a task.
theorem preparePulls_sub
    (hf : ∀ name proc, g.nodes.get? name = some proc → Fires checkpoint' channels name proc →
      Fires checkpoint channels name proc) {names : List String}
    (hc : ∀ key, Cached cache' key → Cached cache key)
    (h : t ∈ g.preparePulls checkpoint' channels step' true names cache') :
    ∃ u ∈ g.preparePulls checkpoint channels step true names cache,
      u.name = t.name ∧ u.triggers = t.triggers := by
  induction names generalizing cache cache' with
  | nil => cases h
  | cons name names ih =>
    rcases List.mem_append.mp h with hhead | hrest
    · obtain ⟨proc, hproc, hfires, hread, hnode, hname, htriggers⟩ :=
        preparePull_some (Option.mem_toList.mp hhead)
      obtain ⟨u, hu, huname, hutriggers⟩ := exists_preparePull step cache
        hproc (hf name proc hproc hfires) (hread.imp (hc _) id) hnode
      refine ⟨u, List.mem_append_left _ (Option.mem_toList.mpr hu), ?_, ?_⟩
      · rw [huname, hname]
      · rw [hutriggers, htriggers]
    · have hcached (key : InputCacheKey)
          (hkey : Cached (g.preparePull checkpoint' channels step' true name cache').2 key) :
          Cached (g.preparePull checkpoint channels step true name cache).2 key := by
        rw [cached_preparePull] at hkey ⊢
        rcases hkey with hkey | ⟨proc, hproc, hfires, rfl, hread⟩
        · exact Or.inl (hc key hkey)
        · exact Or.inr ⟨proc, hproc, hf name proc hproc hfires, rfl, hread.imp (hc _) id⟩
      obtain ⟨u, hu, hsame⟩ := ih hcached hrest
      exact ⟨u, List.mem_append_right _ hu, hsame⟩

theorem mem_preparePulls_fires {names : List String}
    (h : t ∈ g.preparePulls checkpoint channels step true names cache) :
    ∃ proc, g.nodes.get? t.name = some proc ∧ Fires checkpoint channels t.name proc ∧
      t.triggers = sortedTriggers proc := by
  obtain ⟨name, -, cache', hpull⟩ := mem_preparePulls h
  obtain ⟨proc, hproc, hfires, -, -, rfl, htriggers⟩ := preparePull_some hpull
  exact ⟨proc, hproc, hfires, htriggers⟩

omit [LinearOrder Ver] [OrderBot Ver] in
theorem items_eq_nil_iff {versions : ChannelVersions Ver} :
    versions.items = [] ↔ ∀ chan, versions.get? chan = none := by
  constructor
  · intro h chan
    refine Dict.get?_eq_none.mpr (fun hk => ?_)
    rw [Dict.keys, h] at hk
    cases hk
  · intro h
    refine List.eq_nil_iff_forall_not_mem.mpr (fun e he => ?_)
    have hget := Dict.get?_eq_some.mpr (show (e.1, e.2) ∈ versions.items from he)
    rw [h e.1] at hget
    cases hget

theorem Fires.congr (hv : ∀ chan, checkpoint'.channelVersions.get? chan =
      checkpoint.channelVersions.get? chan)
    (hs : checkpoint'.versionsSeen.get? name = checkpoint.versionsSeen.get? name)
    (h : Fires checkpoint' channels name proc) : Fires checkpoint channels name proc := by
  obtain ⟨nullVersion, hnull, hfires⟩ := h
  have hitems : checkpoint'.channelVersions.items = [] ↔ checkpoint.channelVersions.items = [] := by
    simp only [items_eq_nil_iff, hv]
  refine ⟨nullVersion, ?_, ?_⟩
  · unfold checkpointNullVersion at hnull ⊢
    simpa only [hitems] using hnull
  · have hgetD (chan : String) : checkpoint'.channelVersions.getD chan nullVersion =
        checkpoint.channelVersions.getD chan nullVersion := by
      rw [Dict.getD, hv, Dict.getD]
    rw [hs] at hfires
    refine Eq.trans (congrArg proc.triggers.any (funext fun chan => ?_)) hfires
    rw [hgetD]

theorem Fires.of_seen {tasks : List PregelTaskWrites}
    (hv : checkpoint'.channelVersions = checkpoint.channelVersions)
    (hs : checkpoint'.versionsSeen =
      (sortTasks tasks).foldl (seeVersions checkpoint.channelVersions) checkpoint.versionsSeen)
    (h : Fires checkpoint' channels name proc) :
    Fires checkpoint channels name proc ∧
      ∀ t ∈ tasks, t.name = name → ¬ ∀ chan ∈ proc.triggers, chan ∈ t.triggers := by
  obtain ⟨nullVersion, hnull, hfires⟩ := h
  rw [hv] at hnull hfires
  obtain ⟨chan, hchan, htrue⟩ := List.any_eq_true.mp hfires
  rw [Bool.and_eq_true] at htrue
  obtain ⟨hav, hnew⟩ := htrue
  have hbot : nullVersion = ⊥ := by
    unfold checkpointNullVersion at hnull
    split at hnull
    · cases hnull
    · exact (Option.some.inj hnull).symm
  have hkeys := keys_foldl_seeVersions checkpoint.channelVersions (sortTasks tasks)
    checkpoint.versionsSeen name
  rw [← hs] at hkeys
  cases hseen' : checkpoint'.versionsSeen.get? name with
  | none =>
    have hno : name ∉ checkpoint'.versionsSeen.keys := Dict.get?_eq_none.mp hseen'
    rw [hkeys, not_or] at hno
    refine ⟨⟨nullVersion, hnull, List.any_eq_true.mpr ⟨chan, hchan, ?_⟩⟩, fun t ht hname => ?_⟩
    · rw [Dict.get?_eq_none.mpr hno.1, Bool.and_eq_true]
      exact ⟨hav, rfl⟩
    · exact (hno.2 ⟨t, mem_sortTasks.mpr ht, hname⟩).elim
  | some seen' =>
    rw [hseen'] at hnew
    have hlt := of_decide_eq_true hnew
    have hseen := @seen_of_foldl _ _ _ _ _ chan _ (hs ▸ hseen')
    cases hver : checkpoint.channelVersions.get? chan with
    | none =>
      rw [hbot, Dict.getD, Dict.getD, hver] at hlt
      exact absurd hlt not_lt_bot
    | some v =>
      rw [hver, Option.some_or] at hseen
      split at hseen
      · rw [Dict.getD, Dict.getD, hseen, hver] at hlt
        exact absurd hlt (lt_irrefl v)
      · rename_i hnot
        refine ⟨⟨nullVersion, hnull, List.any_eq_true.mpr ⟨chan, hchan, ?_⟩⟩,
          fun t ht hname hall => hnot ⟨t, mem_sortTasks.mpr ht, hname, hall chan hchan⟩⟩
        rw [Bool.and_eq_true]
        refine ⟨hav, ?_⟩
        cases hs₀ : checkpoint.versionsSeen.get? name with
        | none => rfl
        | some seen =>
          rw [Dict.getD, hs₀, Option.getD_some] at hseen
          rw [Dict.getD, hseen] at hlt
          exact decide_eq_true hlt

end Due

end Graph

end LangGraph

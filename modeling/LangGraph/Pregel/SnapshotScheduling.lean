import LangGraph.Pregel.SeenVersions

namespace LangGraph

open Collections Transition

namespace Graph

section Scan

variable {C Ver : Type} [BaseChannel C] [LinearOrder Ver] [OrderBot Ver] {g : Graph C}
  {checkpoint checkpoint' : Checkpoint Ver} {channels : Dict String C} {step : Int}
  {name : String} {proc : PregelNode} {cache : InputCache} {t : PregelTask}

-- A node of the scan that fires and whose input is read.
def Reads (g : Graph C) (checkpoint : Checkpoint Ver) (channels : Dict String C)
    (key : InputCacheKey) (name : String) : Prop :=
  ∃ proc, g.nodes.get? name = some proc ∧ Fires checkpoint channels name proc ∧
    proc.inputCacheKey = key ∧ (g.readInput channels proc.channels).isSome = true

-- The input of a node is read, or taken from a node before it in the scan.
def SeesInput (g : Graph C) (checkpoint : Checkpoint Ver) (channels : Dict String C)
    (before : List String) (proc : PregelNode) : Prop :=
  (g.readInput channels proc.channels).isSome = true ∨
    ∃ name ∈ before, g.Reads checkpoint channels proc.inputCacheKey name

theorem cached_scan {before : List String}
    (hc : ∀ key, Cached cache key ↔ ∃ name ∈ before, g.Reads checkpoint channels key name)
    (name : String) (key : InputCacheKey) :
    Cached (g.preparePull checkpoint channels step true name cache).2 key ↔
      ∃ other ∈ before ++ [name], g.Reads checkpoint channels key other := by
  rw [cached_preparePull, hc key]
  constructor
  · rintro (⟨other, hmem, hreads⟩ | ⟨proc, hproc, hfires, rfl, hread⟩)
    · exact ⟨other, List.mem_append_left _ hmem, hreads⟩
    · rcases hread with hcached | hread
      · obtain ⟨other, hmem, hreads⟩ := (hc _).mp hcached
        exact ⟨other, List.mem_append_left _ hmem, hreads⟩
      · exact ⟨name, by simp, proc, hproc, hfires, rfl, hread⟩
  · rintro ⟨other, hmem, hreads⟩
    rcases List.mem_append.mp hmem with hmem | hmem
    · exact Or.inl ⟨other, hmem, hreads⟩
    · obtain rfl := List.mem_singleton.mp hmem
      obtain ⟨proc, hproc, hfires, rfl, hread⟩ := hreads
      exact Or.inr ⟨proc, hproc, hfires, rfl, Or.inr hread⟩

-- What a second checkpoint adds: the same ids and versions seen, more nodes that fire.
structure FiresMore (g : Graph C) (channels : Dict String C)
    (checkpoint checkpoint' : Checkpoint Ver) : Prop where
  id : checkpoint'.id = checkpoint.id
  fires : ∀ name proc, Fires checkpoint channels name proc → Fires checkpoint' channels name proc

def Unnoticed (g : Graph C) (channels : Dict String C) (checkpoint checkpoint' : Checkpoint Ver)
    (before : List String) (name : String) : Prop :=
  ∀ proc, g.nodes.get? name = some proc → Fires checkpoint' channels name proc →
    ¬ Fires checkpoint channels name proc → ¬ g.SeesInput checkpoint channels before proc

theorem preparePull_of_fires (hproc : g.nodes.get? name = some proc)
    (hfires : Fires checkpoint channels name proc) :
    g.preparePull checkpoint channels step true name cache =
      match g.procInput channels true proc cache with
      | (none, cache) => (none, cache)
      | (some input, cache) => (g.pullTask checkpoint.id step true name proc input, cache) := by
  obtain ⟨nullVersion, hnull, hfires⟩ := hfires
  unfold preparePull
  rcases hinput : g.procInput channels true proc cache with ⟨_ | input, cache'⟩ <;>
    simp [hproc, hnull, hfires, hinput]

theorem preparePull_of_not_fires (hproc : g.nodes.get? name = some proc)
    (hfires : ¬ Fires checkpoint channels name proc) :
    g.preparePull checkpoint channels step true name cache = (none, cache) := by
  unfold preparePull
  split
  · rename_i proc' nullVersion hproc' hnull
    obtain rfl := Option.some.inj (hproc.symm.trans hproc')
    split
    · rename_i htrue
      exact absurd ⟨nullVersion, hnull, htrue⟩ hfires
    · rfl
  · rfl

theorem preparePull_of_none (hproc : g.nodes.get? name = none) :
    g.preparePull checkpoint channels step true name cache = (none, cache) := by
  unfold preparePull
  simp only [hproc]

theorem procInput_of_not_readable (h : ¬ g.Readable channels proc cache) :
    g.procInput channels true proc cache = (none, cache) := by
  have hread := procInput_isSome g channels proc cache
  have hfind : cache.find? (fun e => e.1 = proc.inputCacheKey) = none := by
    cases hf : cache.find? (fun e => e.1 = proc.inputCacheKey) with
    | none => rfl
    | some e =>
      refine absurd (Or.inl ((find?_cache _ cache).mp ?_)) h
      rw [hf]
      rfl
  unfold procInput at hread ⊢
  simp only [hfind] at hread ⊢
  cases hr : g.readInput channels proc.channels with
  | none => rfl
  | some v =>
    refine absurd (Or.inr ?_) h
    rw [hr]
    rfl

theorem preparePull_unnoticed (hm : FiresMore g channels checkpoint checkpoint')
    {before : List String}
    (hc : ∀ key, Cached cache key ↔ ∃ name ∈ before, g.Reads checkpoint channels key name)
    (hu : g.Unnoticed channels checkpoint checkpoint' before name) :
    g.preparePull checkpoint' channels step true name cache =
      g.preparePull checkpoint channels step true name cache := by
  cases hproc : g.nodes.get? name with
  | none => rw [preparePull_of_none hproc, preparePull_of_none hproc]
  | some proc =>
    by_cases hfires : Fires checkpoint channels name proc
    · rw [preparePull_of_fires hproc hfires, preparePull_of_fires hproc (hm.fires name proc hfires),
        hm.id]
    · rw [preparePull_of_not_fires hproc hfires]
      by_cases hnew : Fires checkpoint' channels name proc
      · have hread : ¬ g.Readable channels proc cache := by
          rintro (hcached | hread)
          · exact hu proc hproc hnew hfires (Or.inr ((hc _).mp hcached))
          · exact hu proc hproc hnew hfires (Or.inl hread)
        rw [preparePull_of_fires hproc hnew, procInput_of_not_readable hread]
      · exact preparePull_of_not_fires hproc hnew

theorem preparePulls_unnoticed (hm : FiresMore g channels checkpoint checkpoint')
    {before names : List String}
    (hc : ∀ key, Cached cache key ↔ ∃ name ∈ before, g.Reads checkpoint channels key name)
    (hu : ∀ pre name post, names = pre ++ name :: post →
      g.Unnoticed channels checkpoint checkpoint' (before ++ pre) name) :
    g.preparePulls checkpoint' channels step true names cache =
      g.preparePulls checkpoint channels step true names cache := by
  induction names generalizing before cache with
  | nil => rfl
  | cons name names ih =>
    have hhead := hu [] name names rfl
    rw [List.append_nil] at hhead
    simp only [preparePulls]
    rw [preparePull_unnoticed hm hc hhead]
    refine congrArg _ (ih (cached_scan hc name) (fun pre other post hsplit => ?_))
    have hrest := hu (name :: pre) other post (by rw [hsplit]; rfl)
    rwa [List.append_assoc]

theorem exists_preparePulls (hm : FiresMore g channels checkpoint checkpoint')
    {before pre post : List String} (hproc : g.nodes.get? name = some proc)
    (hnode : proc.hasNode = true) (hfires : Fires checkpoint' channels name proc)
    (hsees : g.SeesInput checkpoint channels (before ++ pre) proc)
    (hc : ∀ key, (∃ name ∈ before, g.Reads checkpoint channels key name) → Cached cache key) :
    ∃ t ∈ g.preparePulls checkpoint' channels step true (pre ++ name :: post) cache,
      t.path = [.str Key.pull, .str name] := by
  induction pre generalizing before cache with
  | nil =>
    rw [List.append_nil] at hsees
    have hread : g.Readable channels proc cache := by
      rcases hsees with hread | hreads
      · exact Or.inr hread
      · exact Or.inl (hc _ hreads)
    obtain ⟨t, ht, -⟩ := exists_preparePull step cache hproc hfires hread hnode
    exact ⟨t, List.mem_append_left _ (Option.mem_toList.mpr ht), (path_preparePull ht).1⟩
  | cons other pre ih =>
    have hcached (key : InputCacheKey)
        (h : ∃ name ∈ before ++ [other], g.Reads checkpoint channels key name) :
        Cached (g.preparePull checkpoint' channels step true other cache).2 key := by
      obtain ⟨name', hmem, hreads⟩ := h
      rw [cached_preparePull]
      rcases List.mem_append.mp hmem with hmem | hmem
      · exact Or.inl (hc key ⟨name', hmem, hreads⟩)
      · obtain rfl := List.mem_singleton.mp hmem
        obtain ⟨q, hq, hqf, rfl, hqread⟩ := hreads
        exact Or.inr ⟨q, hq, hm.fires _ _ hqf, rfl, Or.inr hqread⟩
    obtain ⟨t, ht, hpath⟩ := ih (by rwa [List.append_assoc]) hcached
    exact ⟨t, List.mem_append_right _ ht, hpath⟩

theorem fires_iff : Fires checkpoint channels name proc ↔
    checkpoint.channelVersions.items ≠ [] ∧ ∃ chan ∈ proc.triggers,
      (∃ c, channels.get? chan = some c ∧ BaseChannel.isAvailable c = true) ∧
      ∀ seen, checkpoint.versionsSeen.get? name = some seen →
        seen.getD chan ⊥ < checkpoint.channelVersions.getD chan ⊥ := by
  have havailable (chan : String) :
      ((channels.get? chan).map BaseChannel.isAvailable).getD false = true ↔
        ∃ c, channels.get? chan = some c ∧ BaseChannel.isAvailable c = true := by
    cases channels.get? chan with
    | none => simp
    | some c => simp
  unfold Fires checkpointNullVersion
  split
  · rename_i hnil
    simp [hnil]
  · rename_i hne
    simp only [Option.some.injEq, exists_eq_left', triggers, List.any_eq_true, Bool.and_eq_true,
      havailable, ne_eq, hne, not_false_eq_true, true_and]
    refine exists_congr (fun chan => and_congr_right (fun _ => and_congr_right (fun _ => ?_)))
    cases checkpoint.versionsSeen.get? name with
    | none => simp
    | some seen => simp

def fullScan (g : Graph C) (checkpoint : Checkpoint Ver) (channels : Dict String C)
    (step : Int) : Dict String PregelTask :=
  g.prepareNextTasks checkpoint channels step true none none

-- The tasks of a full scan, before they are collected by id.
def scanned (g : Graph C) (checkpoint : Checkpoint Ver) (channels : Dict String C)
    (step : Int) : List PregelTask :=
  g.pushTasks checkpoint.id channels step true ++
    g.preparePulls checkpoint channels step true (g.candidateNodes checkpoint none none) []

theorem fullScan_eq : g.fullScan checkpoint channels step =
    Dict.ofList ((g.scanned checkpoint channels step).map (fun t => (t.id, t))) := rfl

theorem candidateNodes_full (hfires : Fires checkpoint channels name proc) :
    g.candidateNodes checkpoint none none = g.nodes.keys := by
  obtain ⟨nullVersion, hnull, -⟩ := hfires
  unfold checkpointNullVersion at hnull
  unfold candidateNodes
  split at hnull
  · cases hnull
  · rename_i hne
    simp only [if_neg hne]

omit [BaseChannel C] [LinearOrder Ver] [OrderBot Ver] in
theorem candidateNodes_congr
    (hempty : checkpoint'.channelVersions.items = [] ↔ checkpoint.channelVersions.items = []) :
    g.candidateNodes checkpoint' none none = g.candidateNodes checkpoint none none := by
  unfold candidateNodes
  simp only [hempty]

theorem fullScan_same (hm : FiresMore g channels checkpoint checkpoint')
    (hempty : checkpoint'.channelVersions.items = [] ↔ checkpoint.channelVersions.items = [])
    (hu : ∀ pre name post, g.nodes.keys = pre ++ name :: post →
      g.Unnoticed channels checkpoint checkpoint' pre name) :
    g.fullScan checkpoint' channels step = g.fullScan checkpoint channels step := by
  have hpulls : g.preparePulls checkpoint' channels step true
      (g.candidateNodes checkpoint none none) [] =
        g.preparePulls checkpoint channels step true
          (g.candidateNodes checkpoint none none) [] := by
    refine @preparePulls_unnoticed _ _ _ _ _ g checkpoint checkpoint' channels step [] hm [] _
      (fun key => by simp [Cached]) ?_
    intro pre name post hsplit
    refine hu pre name post (Eq.trans ?_ hsplit)
    unfold candidateNodes at hsplit ⊢
    simp only at hsplit ⊢
    split
    · rename_i hnil
      simp [hnil] at hsplit
    · rfl
  rw [fullScan_eq, fullScan_eq, scanned, scanned, hm.id, candidateNodes_congr hempty, hpulls]

theorem fullScan_same_iff (hm : FiresMore g channels checkpoint checkpoint')
    (hempty : checkpoint'.channelVersions.items = [] ↔ checkpoint.channelVersions.items = [])
    (hrun : ∀ name proc, g.nodes.get? name = some proc → proc.hasNode = true)
    (hids : ((g.scanned checkpoint' channels step).map PregelTask.id).Nodup) :
    g.fullScan checkpoint' channels step = g.fullScan checkpoint channels step ↔
      ∀ pre name post, g.nodes.keys = pre ++ name :: post →
        g.Unnoticed channels checkpoint checkpoint' pre name := by
  constructor
  · intro hsame pre name post hkeys proc hproc hnew hold hsees
    obtain ⟨t, ht, hpath⟩ := @exists_preparePulls _ _ _ _ _ g checkpoint checkpoint' channels step
      name proc [] hm [] pre post hproc (hrun name proc hproc) hnew hsees
      (fun key h => by simp at h)
    have hmem : t ∈ g.scanned checkpoint' channels step := by
      refine List.mem_append_right _ ?_
      rw [candidateNodes_full hnew, hkeys]
      exact ht
    have hitem : (t.id, t) ∈ (g.fullScan checkpoint channels step).items := by
      have hnodup : (((g.scanned checkpoint' channels step).map (fun t => (t.id, t))).map
          Prod.fst).Nodup := by
        rw [List.map_map]
        exact hids
      rw [← hsame, fullScan_eq, Dict.items_ofList hnodup]
      exact List.mem_map_of_mem hmem
    obtain ⟨-, hpush | ⟨other, -, cache, hpull⟩⟩ := mem_prepareNextTasks hitem
    · obtain ⟨idx, v, -, hv⟩ := mem_pushTasks hpush
      rw [path_pushTask hv] at hpath
      simp at hpath
    · have hother : other = name := by
        have hpull' := (path_preparePull hpull).1
        rw [hpath] at hpull'
        simpa using hpull'.symm
      obtain ⟨q, hq, hfires, -⟩ := preparePull_some hpull
      rw [hother] at hq hfires
      obtain rfl := Option.some.inj (hproc.symm.trans hq)
      exact hold hfires
  · exact fullScan_same hm hempty

end Scan

end Graph

namespace PregelLoop

variable {Ver : Type} [LinearOrder Ver] [OrderBot Ver] {g : Graph Channel}
  {l : PregelLoop Channel Ver} {next : GetNextVersion Ver} {snapshot : Finset String}

def withSnapshot (next : GetNextVersion Ver) (id : String) (snapshot : Finset String)
    (l : PregelLoop Channel Ver) : Checkpoint Ver :=
  createCheckpoint l.checkpoint (some l.channels) id l.updatedChannels (some next) snapshot

-- The channels whose version `create_checkpoint` draws anew.
def Forced (l : PregelLoop Channel Ver) (snapshot : Finset String) (chan : String) : Prop :=
  chan ∈ l.channels.keys ∧ chan ∈ l.checkpoint.channelVersions.keys ∧ chan ∈ snapshot ∧
    chan ∉ l.updatedChannels.getD ∅

def Subscribes (l : PregelLoop Channel Ver) (snapshot : Finset String) (proc : PregelNode) : Prop :=
  ∃ chan ∈ proc.triggers, (∃ c, l.channels.get? chan = some c ∧ c.isAvailable = true) ∧
    l.Forced snapshot chan

omit [LinearOrder Ver] [OrderBot Ver] in
theorem version_withSnapshot (id chan : String) :
    (l.withSnapshot next id snapshot).channelVersions.get? chan =
      (l.checkpoint.channelVersions.get? chan).map (fun v =>
        if chan ∈ l.channels.keys ∧ chan ∈ snapshot ∧ chan ∉ l.updatedChannels.getD ∅ then
          next (some v) else v) :=
  get?_snapshotVersions l.channels l.updatedChannels next snapshot l.checkpoint.channelVersions chan

omit [LinearOrder Ver] [OrderBot Ver] in
theorem version_plain (id chan : String) :
    (l.withSnapshot next id ∅).channelVersions.get? chan =
      l.checkpoint.channelVersions.get? chan := by
  rw [version_withSnapshot]
  simp

omit [LinearOrder Ver] [OrderBot Ver] in
theorem versions_empty_iff (id : String) :
    (l.withSnapshot next id snapshot).channelVersions.items = [] ↔
      l.checkpoint.channelVersions.items = [] := by
  simp only [Graph.items_eq_nil_iff, version_withSnapshot, Option.map_eq_none_iff]

theorem fires_plain_iff (id name : String) (proc : PregelNode) :
    Graph.Fires (l.withSnapshot next id ∅) l.channels name proc ↔
      Graph.Fires l.checkpoint l.channels name proc :=
  ⟨Graph.Fires.congr (version_plain id) rfl,
    Graph.Fires.congr (fun chan => (version_plain id chan).symm) rfl⟩

theorem fires_withSnapshot_iff (hn : StrictlyIncreasing next) (hb : SeenBounded l.checkpoint)
    (id name : String) (proc : PregelNode) :
    Graph.Fires (l.withSnapshot next id snapshot) l.channels name proc ↔
      Graph.Fires l.checkpoint l.channels name proc ∨ l.Subscribes snapshot proc := by
  rw [Graph.fires_iff, Graph.fires_iff, ne_eq, versions_empty_iff]
  have hversion := @version_withSnapshot _ l next snapshot id
  have hseen : (l.withSnapshot next id snapshot).versionsSeen = l.checkpoint.versionsSeen := rfl
  rw [hseen]
  constructor
  · rintro ⟨hne, chan, hchan, havailable, hlt⟩
    by_cases hforced : l.Forced snapshot chan
    · exact Or.inr ⟨chan, hchan, havailable, hforced⟩
    · refine Or.inl ⟨hne, chan, hchan, havailable, fun seen hs => ?_⟩
      have hsame := hversion chan
      cases hv : l.checkpoint.channelVersions.get? chan with
      | none =>
        rw [hv, Option.map_none] at hsame
        have hold := hlt seen hs
        rwa [Dict.getD, Dict.getD, hsame, ← hv, ← Dict.getD, ← Dict.getD] at hold
      | some v =>
        have hnot : ¬ (chan ∈ l.channels.keys ∧ chan ∈ snapshot ∧
            chan ∉ l.updatedChannels.getD ∅) :=
          fun h => hforced ⟨h.1, Dict.mem_keys.mpr ⟨v, hv⟩, h.2⟩
        rw [hv, Option.map_some, if_neg hnot, ← hv] at hsame
        have hold := hlt seen hs
        rwa [Dict.getD, Dict.getD, hsame, ← Dict.getD, ← Dict.getD] at hold
  · rintro (⟨hne, chan, hchan, havailable, hlt⟩ | ⟨chan, hchan, havailable, hk, hver, hmem, hfresh⟩)
    · refine ⟨hne, chan, hchan, havailable, fun seen hs => lt_of_lt_of_le (hlt seen hs) ?_⟩
      have hsame := hversion chan
      cases hv : l.checkpoint.channelVersions.get? chan with
      | none => simp [Dict.getD, hv]
      | some v =>
        rw [hv, Option.map_some] at hsame
        rw [Dict.getD, Dict.getD, hsame, hv]
        simp only [Option.getD_some]
        split
        · exact le_of_lt (hn.some v)
        · exact le_rfl
    · obtain ⟨v, hv⟩ := Dict.mem_keys.mp hver
      have hbumped := hversion chan
      rw [hv, Option.map_some, if_pos ⟨hk, hmem, hfresh⟩] at hbumped
      refine ⟨fun hnil => ?_, chan, hchan, havailable, fun seen hs => ?_⟩
      · rw [Graph.items_eq_nil_iff.mp hnil chan] at hv
        cases hv
      · rw [Dict.getD, Dict.getD, hbumped, Option.getD_some]
        have hle := @SeenBounded.getD_le _ _ _ _ hb name _ _ hv
        have hrow : l.checkpoint.versionsSeen.getD name ∅ = seen := by
          rw [Dict.getD, hs]
          rfl
        rw [hrow, Dict.getD] at hle
        exact lt_of_le_of_lt hle (hn.some v)

theorem updates_withSnapshot_iff (hn : StrictlyIncreasing next) (hb : SeenBounded l.checkpoint)
    (id : String) :
    updatesSinceInterrupt (l.withSnapshot next id snapshot) = true ↔
      updatesSinceInterrupt l.checkpoint = true ∨ ∃ chan, l.Forced snapshot chan := by
  have hversion := @version_withSnapshot _ l next snapshot id
  have hseen : (l.withSnapshot next id snapshot).versionsSeen = l.checkpoint.versionsSeen := rfl
  simp only [updatesSinceInterrupt_iff, hseen]
  constructor
  · rintro ⟨chan, v', hv', hlt⟩
    rw [hversion] at hv'
    obtain ⟨v, hv, heq⟩ := Option.map_eq_some_iff.mp hv'
    split at heq
    · rename_i hforced
      exact Or.inr ⟨chan, hforced.1, Dict.mem_keys.mpr ⟨v, hv⟩, hforced.2⟩
    · exact Or.inl ⟨chan, v, hv, heq ▸ hlt⟩
  · rintro (⟨chan, v, hv, hlt⟩ | ⟨chan, hk, hver, hforced⟩)
    · refine ⟨chan, _, by rw [hversion, hv, Option.map_some], lt_of_lt_of_le hlt ?_⟩
      split
      · exact le_of_lt (hn.some v)
      · exact le_rfl
    · obtain ⟨v, hv⟩ := Dict.mem_keys.mp hver
      refine ⟨chan, next (some v), by rw [hversion, hv, Option.map_some, if_pos ⟨hk, hforced⟩], ?_⟩
      exact lt_of_le_of_lt (hb.getD_le hv) (hn.some v)

-- A snapshot that schedules nothing and answers no interrupt anew.
structure Invisible (g : Graph Channel) (id : String) (snapshot : Finset String)
    (nodes : NodeSet) (l : PregelLoop Channel Ver) : Prop where
  due : ∀ pre name post proc, g.nodes.keys = pre ++ name :: post →
    g.nodes.get? name = some proc → l.Subscribes snapshot proc →
      Graph.Fires l.checkpoint l.channels name proc ∨
        ¬ g.SeesInput l.checkpoint l.channels pre proc
  interrupt : updatesSinceInterrupt l.checkpoint = true ∨ (∀ chan, ¬ l.Forced snapshot chan) ∨
    ∀ t ∈ (g.fullScan { l.checkpoint with id := id } l.channels l.step).values,
      nodes.contains t.name = false

theorem fullScan_plain (id : String) :
    g.fullScan (l.withSnapshot next id ∅) l.channels l.step =
      g.fullScan { l.checkpoint with id := id } l.channels l.step := by
  have hfires (name : String) (proc : PregelNode) :
      Graph.Fires (l.withSnapshot next id ∅) l.channels name proc ↔
        Graph.Fires { l.checkpoint with id := id } l.channels name proc :=
    (fires_plain_iff id name proc).trans Iff.rfl
  refine Graph.fullScan_same ⟨rfl, fun name proc h => (hfires name proc).mpr h⟩
    (versions_empty_iff id) (fun pre name post _ proc _ hnew hold => ?_)
  exact absurd ((hfires name proc).mp hnew) hold

theorem sees_plain_iff (id : String) (before : List String) (proc : PregelNode) :
    g.SeesInput (l.withSnapshot next id ∅) l.channels before proc ↔
      g.SeesInput l.checkpoint l.channels before proc := by
  simp only [Graph.SeesInput, Graph.Reads, fires_plain_iff]

theorem scheduled_iff (hn : StrictlyIncreasing next) (hb : SeenBounded l.checkpoint) (id : String)
    (hrun : ∀ name proc, g.nodes.get? name = some proc → proc.hasNode = true)
    (hids : ((g.scanned (l.withSnapshot next id snapshot) l.channels l.step).map
      PregelTask.id).Nodup) :
    g.fullScan (l.withSnapshot next id snapshot) l.channels l.step =
        g.fullScan (l.withSnapshot next id ∅) l.channels l.step ↔
      ∀ pre name post proc, g.nodes.keys = pre ++ name :: post →
        g.nodes.get? name = some proc → l.Subscribes snapshot proc →
          Graph.Fires l.checkpoint l.channels name proc ∨
            ¬ g.SeesInput l.checkpoint l.channels pre proc := by
  have hmore : Graph.FiresMore g l.channels (l.withSnapshot next id ∅)
      (l.withSnapshot next id snapshot) := by
    refine ⟨rfl, fun name proc h => ?_⟩
    rw [fires_withSnapshot_iff hn hb]
    exact Or.inl ((fires_plain_iff id name proc).mp h)
  rw [Graph.fullScan_same_iff hmore ((versions_empty_iff id).trans (versions_empty_iff id).symm)
    hrun hids]
  have hnone (proc : PregelNode) : ¬ l.Subscribes ∅ proc := by
    simp [Subscribes, Forced]
  simp only [Graph.Unnoticed, fires_withSnapshot_iff hn hb, sees_plain_iff, hnone, or_false]
  constructor
  · intro h pre name post proc hkeys hproc hsub
    by_cases hfires : Graph.Fires l.checkpoint l.channels name proc
    · exact Or.inl hfires
    · exact Or.inr (h pre name post hkeys proc hproc (Or.inr hsub) hfires)
  · intro h pre name post hkeys proc hproc hnew hold
    rcases hnew with hfires | hsub
    · exact absurd hfires hold
    · exact (h pre name post proc hkeys hproc hsub).resolve_left hold

theorem interrupted_iff (hn : StrictlyIncreasing next) (hb : SeenBounded l.checkpoint)
    (id : String) (nodes : NodeSet) (tasks : List PregelTask) :
    shouldInterrupt (l.withSnapshot next id snapshot) nodes tasks =
        shouldInterrupt (l.withSnapshot next id ∅) nodes tasks ↔
      updatesSinceInterrupt l.checkpoint = true ∨ (∀ chan, ¬ l.Forced snapshot chan) ∨
        ∀ t ∈ tasks, nodes.contains t.name = false := by
  have hforced := @updates_withSnapshot_iff _ _ _ l next snapshot hn hb id
  have hplain : updatesSinceInterrupt (l.withSnapshot next id ∅) = true ↔
      updatesSinceInterrupt l.checkpoint = true := by
    rw [updates_withSnapshot_iff hn hb]
    simp [Forced]
  unfold shouldInterrupt
  by_cases hold : updatesSinceInterrupt l.checkpoint = true
  · rw [if_pos (hforced.mpr (Or.inl hold)), if_pos (hplain.mpr hold)]
    exact iff_of_true rfl (Or.inl hold)
  · rw [if_neg (fun h => hold (hplain.mp h))]
    by_cases hnew : ∃ chan, l.Forced snapshot chan
    · have hno : ¬ ∀ chan, ¬ l.Forced snapshot chan := fun h => hnew.elim h
      rw [if_pos (hforced.mpr (Or.inr hnew)), List.filter_eq_nil_iff]
      simp [hold, hno]
    · rw [if_neg (fun h => (hforced.mp h).elim hold hnew)]
      exact iff_of_true rfl (Or.inr (Or.inl (fun chan h => hnew ⟨chan, h⟩)))

end PregelLoop

section Run

variable {Ver : Type} [LinearOrder Ver] [OrderBot Ver] {g : Graph Channel}

theorem Thread.sane_run (hg : g.Validated) {inputKeys : InputKeys}
    {events : List (Event Ver)} (he : ∀ e ∈ events, ∀ n ∈ e.nexts, StrictlyIncreasing n)
    {l : PregelLoop Channel Ver}
    (hl : (run (Thread.step g inputKeys) Thread.fresh events).loop = some l) :
    ∃ s, l.core.SaneAt s := by
  have hfresh : (Thread.fresh : Thread Channel Ver).CoreHolds InMemorySaver.Sane Core.SaneAt :=
    ⟨fun _ _ h => (by cases h), fun _ h => (by cases h), fun _ h => (by cases h)⟩
  have heach : EachStep (Thread.step g inputKeys) (fun _ e => ∀ n ∈ e.nexts, StrictlyIncreasing n)
      Thread.fresh events := by
    intro p e hp
    exact he e (hp.subset (by simp))
  have hall : Always (Thread.step g inputKeys) (fun th : Thread Channel Ver =>
      th.CoreHolds InMemorySaver.Sane Core.SaneAt) Thread.fresh events :=
    always_of_eachStep (fun th e hth hok => hth.step (invariant_sane hg)
      ⟨hok, fun _ _ => trivial, fun _ _ _ _ _ => trivial, fun _ _ _ _ _ => trivial⟩)
      events hfresh heach
  exact ⟨_, (hall events List.prefix_rfl).loop l hl⟩

theorem Thread.seenBounded_run (hg : g.Validated) {inputKeys : InputKeys}
    {events : List (Event Ver)} (he : ∀ e ∈ events, ∀ n ∈ e.nexts, StrictlyIncreasing n)
    {l : PregelLoop Channel Ver}
    (hl : (run (Thread.step g inputKeys) Thread.fresh events).loop = some l) :
    SeenBounded l.checkpoint := by
  obtain ⟨s, hsane⟩ := Thread.sane_run hg he hl
  exact hsane.2.checkpoint.bounded

theorem snapshot_invisible_iff {inputKeys : InputKeys} {events : List (Event Ver)}
    {l : PregelLoop Channel Ver} {next : GetNextVersion Ver} (id : String)
    (snapshot : Finset String) (nodes : NodeSet) (hg : g.Validated)
    (he : ∀ e ∈ events, ∀ n ∈ e.nexts, StrictlyIncreasing n) (hn : StrictlyIncreasing next)
    (hl : (run (Thread.step g inputKeys) Thread.fresh events).loop = some l)
    (hrun : ∀ name proc, g.nodes.get? name = some proc → proc.hasNode = true)
    (hids : ((g.scanned (l.withSnapshot next id snapshot) l.channels l.step).map
      PregelTask.id).Nodup) :
    (g.fullScan (l.withSnapshot next id snapshot) l.channels l.step =
        g.fullScan (l.withSnapshot next id ∅) l.channels l.step ∧
      shouldInterrupt (l.withSnapshot next id snapshot) nodes
          (g.fullScan (l.withSnapshot next id snapshot) l.channels l.step).values =
        shouldInterrupt (l.withSnapshot next id ∅) nodes
          (g.fullScan (l.withSnapshot next id ∅) l.channels l.step).values) ↔
      l.Invisible g id snapshot nodes := by
  have hb := Thread.seenBounded_run hg he hl
  have hscheduled := PregelLoop.scheduled_iff hn hb id hrun hids
  constructor
  · rintro ⟨hsame, hinterrupt⟩
    rw [hsame, PregelLoop.interrupted_iff hn hb, PregelLoop.fullScan_plain] at hinterrupt
    exact ⟨hscheduled.mp hsame, hinterrupt⟩
  · intro h
    have hsame := hscheduled.mpr h.due
    refine ⟨hsame, ?_⟩
    rw [hsame, PregelLoop.interrupted_iff hn hb, PregelLoop.fullScan_plain]
    exact h.interrupt

def extendLog (state : Value) (writes : List Value) : Except UpdateError Value :=
  match state with
  | .list vs => .ok (.list (vs ++ writes))
  | _ => .ok (.list writes)

-- Node `n` subscribes to the delta channel `d` that node `w` writes.
def logGraph : Graph Channel :=
  { Graph.ofSpecs (Dict.ofList
      [("i", .lastValue ⟨"i", none⟩),
        ("d", .deltaChannel ⟨extendLog, .list [], 1, by decide, none⟩),
        ("o", .lastValue ⟨"o", none⟩), (Key.tasks, .topic ⟨false, []⟩)]) with
    nodes := Dict.ofList [("w", ⟨.single "i", ["i"], none, none, none, none, true⟩),
      ("n", ⟨.single "d", ["d"], none, none, none, none, true⟩)]
    triggerToNodes := Dict.ofList [("i", ["w"]), ("d", ["n"])] }

theorem validated_logGraph : logGraph.Validated where
  nodes := by decide
  push := by decide
  tasks := ⟨[], rfl⟩

def writerEvents : List (Event Nat) :=
  [.enter (LoopConfig.plain .exit) none "0" none,
    .first (.value (.int 7)) false successor successor "1", .tick,
    .commit "1w0w__pregel_pulli" ⟨[("d", .int 5)], none⟩, .afterTick successor "2"]

def readerEvents : List (Event Nat) :=
  [.tick, .commit "2n1n__pregel_pulld" ⟨[("o", .int 1)], none⟩, .afterTick successor "3"]

theorem nexts_logEvents : ∀ e ∈ writerEvents ++ readerEvents, ∀ n ∈ e.nexts,
    StrictlyIncreasing n := by
  simp [writerEvents, readerEvents, Event.nexts, strictlyIncreasing_successor]

theorem runnable_logGraph : ∀ name proc, logGraph.nodes.get? name = some proc →
    proc.hasNode = true := by
  intro name proc hproc
  have hmem := Dict.mem_items_ofList (Dict.get?_eq_some.mp hproc)
  simp only [List.mem_cons, List.not_mem_nil, or_false, Prod.mk.injEq] at hmem
  rcases hmem with ⟨-, rfl⟩ | ⟨-, rfl⟩
  · rfl
  · rfl

-- The snapshot of a channel that the last superstep wrote.
theorem written_snapshot_invisible :
    ∃ l, (run (Thread.step logGraph (.single "i")) Thread.fresh writerEvents).loop = some l ∧
      logGraph.fullScan (l.withSnapshot successor "2" {"d"}) l.channels l.step =
        logGraph.fullScan (l.withSnapshot successor "2" ∅) l.channels l.step := by
  generalize hs : run (Thread.step logGraph (.single "i")) Thread.fresh writerEvents = th
  have hfacts : th.loop.any (fun l => decide (l.updatedChannels = some {"d"}) &&
      decide ((logGraph.scanned (l.withSnapshot successor "2" {"d"}) l.channels l.step).map
        PregelTask.id).Nodup) = true := by
    subst hs
    decide +kernel
  obtain ⟨l, hl, hl'⟩ := (Option.any_eq_true _ _).mp hfacts
  rw [Bool.and_eq_true, decide_eq_true_eq, decide_eq_true_eq] at hl'
  have hforced (chan : String) : ¬ l.Forced {"d"} chan := by
    rintro ⟨-, -, hmem, hfresh⟩
    rw [hl'.1] at hfresh
    exact hfresh hmem
  refine ⟨l, hl, ((snapshot_invisible_iff "2" {"d"} .all validated_logGraph
    (fun e he => nexts_logEvents e (List.mem_append_left _ he)) strictlyIncreasing_successor
    (by rw [hs]; exact hl) runnable_logGraph hl'.2).mpr ⟨?_, Or.inr (Or.inl hforced)⟩).1⟩
  rintro pre name post proc - - ⟨chan, -, -, hno⟩
  exact absurd hno (hforced chan)

-- At the exit of the run the snapshot of `d` is due, and the last superstep wrote `o`.
theorem finished_node_scheduled :
    ∃ l, (run (Thread.step logGraph (.single "i")) Thread.fresh
        (writerEvents ++ readerEvents)).loop = some l ∧
      l.channelsToSnapshot l.channels l.checkpointMetadata.countersSinceDeltaSnapshot = {"d"} ∧
      (logGraph.fullScan (l.withSnapshot successor "3" {"d"}) l.channels l.step).keys =
        ["3n2n__pregel_pulld"] ∧
      (logGraph.fullScan (l.withSnapshot successor "3" ∅) l.channels l.step).keys = [] := by
  generalize hs : run (Thread.step logGraph (.single "i")) Thread.fresh
    (writerEvents ++ readerEvents) = th
  have hfacts : th.loop.any (fun l =>
      decide (l.channelsToSnapshot l.channels
        l.checkpointMetadata.countersSinceDeltaSnapshot = {"d"}) &&
      decide ((logGraph.fullScan (l.withSnapshot successor "3" {"d"}) l.channels l.step).keys =
        ["3n2n__pregel_pulld"]) &&
      decide ((logGraph.fullScan (l.withSnapshot successor "3" ∅) l.channels l.step).keys =
        [])) = true := by
    subst hs
    decide +kernel
  obtain ⟨l, hl, hl'⟩ := (Option.any_eq_true _ _).mp hfacts
  simp only [Bool.and_eq_true, decide_eq_true_eq] at hl'
  exact ⟨l, hl, hl'.1.1, hl'.1.2, hl'.2⟩

end Run

end LangGraph

import LangGraph.Pregel.Moved
import LangGraph.Pregel.TaskId

namespace LangGraph

open Collections

namespace Graph

variable {C Ver : Type}

-- The mapping of the managed values is the one of the node's own task.
def inTask (g : Graph C) (managed : String → Dict String Value) (name : String) : Graph C :=
  { g with managed := managed name }

variable [BaseChannel C] [LinearOrder Ver] [OrderBot Ver]

section Model

variable (g : Graph C) (managed : String → Dict String Value) (checkpoint : Checkpoint Ver)
  (channels : Dict String C) (step : Int) (forExecution : Bool)

def pull (name : String) (cache : InputCache) : Option PregelTask × InputCache :=
  (g.inTask managed name).preparePull checkpoint channels step forExecution name cache

-- The loop of `prepare_next_tasks` over the candidate nodes.
def pulls : List String → InputCache → List PregelTask
  | [], _ => []
  | name :: names, cache =>
      let r := g.pull managed checkpoint channels step forExecution name cache
      r.1.toList ++ pulls names r.2

-- The same with no cache.
def uncachedPulls (names : List String) : List PregelTask :=
  names.flatMap (fun name =>
    (g.pull managed checkpoint channels step forExecution name []).1.toList)

def cacheAfter (names : List String) (cache : InputCache) : InputCache :=
  names.foldl (fun cache name =>
    (g.pull managed checkpoint channels step forExecution name cache).2) cache

def mapped (proc : PregelNode) (v : Value) : Value :=
  match proc.mapper with
  | some m => if forExecution then g.mappers m v else v
  | none => v

-- Whether the input that one node reads can stand for the other's.
def Interchangeable (qname : String) (q : PregelNode) (pname : String) (p : PregelNode) : Prop :=
  match q.channels, p.channels with
  | .single _, .single _ => True
  | .single chan, .many _ =>
      ∀ v, g.readInput channels (.single chan) = some v →
        forExecution = true → g.mapped forExecution p v = g.mapped forExecution p (.dict [(chan, v)])
  | .many _, .single chan =>
      ∃ v, g.readInput channels (.single chan) = some v ∧
        (forExecution = true →
          g.mapped forExecution p (.dict [(chan, v)]) = g.mapped forExecution p v)
  | .many _, .many chans =>
      forExecution = true →
        g.mapped forExecution p
            (.dict (chans.filterMap ((g.inTask managed qname).channelInput channels))) =
          g.mapped forExecution p
            (.dict (chans.filterMap ((g.inTask managed pname).channelInput channels)))

-- The node is due and caches what it reads under the key.
def Fills (key : InputCacheKey) (name : String) (proc : PregelNode) : Prop :=
  g.nodes.get? name = some proc ∧ Fires checkpoint channels name proc ∧ proc.inputCacheKey = key ∧
    (g.readInput channels proc.channels).isSome = true

def Shareable (names : List String) : Prop :=
  ∀ pre qname q mid pname p post, names = pre ++ qname :: (mid ++ pname :: post) →
    g.nodes.get? pname = some p → Fires checkpoint channels pname p →
    (forExecution = true → p.hasNode = true) →
    g.Fills checkpoint channels p.inputCacheKey qname q →
    (∀ name ∈ pre, ∀ r, ¬ g.Fills checkpoint channels p.inputCacheKey name r) →
    g.Interchangeable managed channels forExecution qname q pname p

end Model

section Cache

variable {g : Graph C} {managed : String → Dict String Value} {checkpoint : Checkpoint Ver}
  {channels : Dict String C} {step : Int} {forExecution : Bool} {name pname qname : String}
  {p q proc : PregelNode} {names : List String} {cache : InputCache} {key : InputCacheKey}
  {t : PregelTask}

-- What the node would cache under the key.
def cachedBy (g : Graph C) (managed : String → Dict String Value) (checkpoint : Checkpoint Ver)
    (channels : Dict String C) (forExecution : Bool) (key : InputCacheKey) (name : String) :
    Option Value :=
  match g.nodes.get? name, checkpointNullVersion checkpoint.channelVersions with
  | some proc, some nullVersion =>
      if triggers channels checkpoint.channelVersions (checkpoint.versionsSeen.get? name)
          nullVersion proc = true ∧ proc.inputCacheKey = key then
        ((g.inTask managed name).readInput channels proc.channels).map (g.mapped forExecution proc)
      else none
  | _, _ => none

theorem procInput_fst (g : Graph C) (channels : Dict String C) (proc : PregelNode)
    (cache : InputCache) :
    (g.procInput channels forExecution proc cache).1 =
      ((cache.find? (fun e => e.1 = proc.inputCacheKey)).map Prod.snd).or
        ((g.readInput channels proc.channels).map (g.mapped forExecution proc)) := by
  unfold procInput
  cases cache.find? (fun e => e.1 = proc.inputCacheKey) with
  | some e => rfl
  | none =>
    cases g.readInput channels proc.channels with
    | none => rfl
    | some v => rfl

theorem find?_procInput (g : Graph C) (channels : Dict String C) (proc : PregelNode)
    (cache : InputCache) (key : InputCacheKey) :
    ((g.procInput channels forExecution proc cache).2.find? (fun e => e.1 = key)).map Prod.snd =
      ((cache.find? (fun e => e.1 = key)).map Prod.snd).or
        (if proc.inputCacheKey = key then
          (g.readInput channels proc.channels).map (g.mapped forExecution proc) else none) := by
  unfold procInput
  cases hf : cache.find? (fun e => e.1 = proc.inputCacheKey) with
  | some e =>
    by_cases hkey : proc.inputCacheKey = key
    · subst hkey
      simp [hf]
    · simp [hkey]
  | none =>
    cases hr : g.readInput channels proc.channels with
    | none => simp
    | some v =>
      by_cases hkey : proc.inputCacheKey = key
      · subst hkey
        cases hm : proc.mapper with
        | none => simp [hf, mapped, hm]
        | some m => simp [hf, mapped, hm]
      · simp [hkey]

theorem find?_pull (name : String) (cache : InputCache) (key : InputCacheKey) :
    ((g.pull managed checkpoint channels step forExecution name cache).2.find?
        (fun e => e.1 = key)).map Prod.snd =
      ((cache.find? (fun e => e.1 = key)).map Prod.snd).or
        (g.cachedBy managed checkpoint channels forExecution key name) := by
  unfold pull preparePull cachedBy
  have hnodes : (g.inTask managed name).nodes = g.nodes := rfl
  rw [hnodes]
  cases g.nodes.get? name with
  | none => exact (Option.or_none).symm
  | some proc =>
    cases checkpointNullVersion checkpoint.channelVersions with
    | none => exact (Option.or_none).symm
    | some nullVersion =>
      cases hf : triggers channels checkpoint.channelVersions (checkpoint.versionsSeen.get? name)
          nullVersion proc with
      | false => simp [hf]
      | true =>
        have hfind := @find?_procInput C _ forExecution (g.inTask managed name) channels proc cache key
        obtain ⟨r, hr⟩ : ∃ r, (g.inTask managed name).procInput channels forExecution proc cache = r :=
          ⟨_, rfl⟩
        simp only [hf, true_and, if_true, hr]
        rw [hr] at hfind
        obtain ⟨_ | input, cache₁⟩ := r
        · exact hfind
        · exact hfind

theorem find?_cacheAfter (names : List String) (cache : InputCache) (key : InputCacheKey) :
    ((g.cacheAfter managed checkpoint channels step forExecution names cache).find?
        (fun e => e.1 = key)).map Prod.snd =
      ((cache.find? (fun e => e.1 = key)).map Prod.snd).or
        (names.findSome? (g.cachedBy managed checkpoint channels forExecution key)) := by
  induction names generalizing cache with
  | nil => exact (Option.or_none).symm
  | cons name names ih =>
    rw [cacheAfter, List.foldl_cons, ← cacheAfter, ih, find?_pull, Option.or_assoc]
    congr 1
    rw [List.findSome?_cons]
    cases g.cachedBy managed checkpoint channels forExecution key name with
    | none => rfl
    | some v => rfl

theorem cachedBy_eq_some {v : Value} :
    g.cachedBy managed checkpoint channels forExecution key name = some v ↔
      ∃ proc, g.nodes.get? name = some proc ∧ Fires checkpoint channels name proc ∧
        proc.inputCacheKey = key ∧
        ((g.inTask managed name).readInput channels proc.channels).map
          (g.mapped forExecution proc) = some v := by
  unfold cachedBy Fires
  cases g.nodes.get? name with
  | none => simp
  | some proc =>
    cases checkpointNullVersion checkpoint.channelVersions with
    | none => simp
    | some nullVersion => simp [and_assoc]

theorem isSome_readInput (g : Graph C) (managed : String → Dict String Value) (name : String)
    (channels : Dict String C) (chans : NodeChannels) :
    ((g.inTask managed name).readInput channels chans).isSome =
      (g.readInput channels chans).isSome := by
  cases chans with
  | single chan => rfl
  | many chans => rfl

theorem cachedBy_eq_none :
    g.cachedBy managed checkpoint channels forExecution key name = none ↔
      ∀ proc, ¬ g.Fills checkpoint channels key name proc := by
  constructor
  · rintro hnone proc ⟨hproc, hfires, hkey, hread⟩
    rw [← isSome_readInput g managed name] at hread
    obtain ⟨v, hv⟩ := Option.isSome_iff_exists.mp hread
    have hsome : g.cachedBy managed checkpoint channels forExecution key name =
        some (g.mapped forExecution proc v) :=
      cachedBy_eq_some.mpr ⟨proc, hproc, hfires, hkey, by rw [hv]; rfl⟩
    rw [hnone] at hsome
    cases hsome
  · intro hall
    refine Option.eq_none_iff_forall_ne_some.mpr (fun v hv => ?_)
    obtain ⟨proc, hproc, hfires, hkey, hread⟩ := cachedBy_eq_some.mp hv
    obtain ⟨u, hu, -⟩ := Option.map_eq_some_iff.mp hread
    refine hall proc ⟨hproc, hfires, hkey, ?_⟩
    rw [← isSome_readInput g managed name, hu]
    rfl

theorem pull_due (hproc : g.nodes.get? name = some proc)
    (hfires : Fires checkpoint channels name proc) (cache : InputCache) :
    (g.pull managed checkpoint channels step forExecution name cache).1 =
      ((g.inTask managed name).procInput channels forExecution proc cache).1.bind
        (g.pullTask checkpoint.id step forExecution name proc) := by
  obtain ⟨nullVersion, hnull, htriggers⟩ := hfires
  have hnodes : (g.inTask managed name).nodes.get? name = some proc := hproc
  unfold pull preparePull
  simp only [hnodes, hnull, htriggers, if_true]
  obtain ⟨r, hr⟩ : ∃ r, (g.inTask managed name).procInput channels forExecution proc cache = r :=
    ⟨_, rfl⟩
  rw [hr]
  obtain ⟨_ | input, cache₁⟩ := r
  · rfl
  · rfl

theorem pull_undue
    (h : ∀ proc, g.nodes.get? name = some proc → ¬ Fires checkpoint channels name proc)
    (cache : InputCache) :
    (g.pull managed checkpoint channels step forExecution name cache).1 = none := by
  unfold pull preparePull
  have hnodes : (g.inTask managed name).nodes = g.nodes := rfl
  rw [hnodes]
  cases hproc : g.nodes.get? name with
  | none => rfl
  | some proc =>
    cases hnull : checkpointNullVersion checkpoint.channelVersions with
    | none => rfl
    | some nullVersion =>
      have hstill := mt (fun ht => ⟨nullVersion, hnull, ht⟩) (h proc hproc)
      simp only [if_neg hstill]

omit [BaseChannel C] in
theorem pullTask_unbuilt (hnode : ¬ (forExecution = true → proc.hasNode = true))
    (checkpointId : String) (input : Value) :
    g.pullTask checkpointId step forExecution name proc input = none := by
  obtain ⟨hexecution, hno⟩ := Classical.not_imp.mp hnode
  unfold pullTask
  simp only [hexecution, if_true, if_neg hno]

omit [BaseChannel C] in
theorem bind_pullTask_iff (hnode : forExecution = true → proc.hasNode = true)
    (checkpointId : String) (v : Value) (read : Option Value) :
    (some v).bind (g.pullTask checkpointId step forExecution name proc) =
        read.bind (g.pullTask checkpointId step forExecution name proc) ↔
      ∃ u, read = some u ∧ (forExecution = true → v = u) := by
  unfold pullTask
  cases hexecution : forExecution with
  | true =>
    cases read with
    | none => simp [hnode hexecution]
    | some u =>
      simp only [hnode hexecution, if_true, Option.bind_some, Option.some.injEq,
        PregelTask.mk.injEq, true_and, and_true, exists_eq_left', forall_const]
      exact ⟨And.left, fun heq => ⟨heq, heq ▸ rfl⟩⟩
  | false =>
    cases read with
    | none => simp
    | some u => simp

omit [BaseChannel C] in
theorem mapped_of_key (h : q.inputCacheKey = p.inputCacheKey) (v : Value) :
    g.mapped forExecution q v = g.mapped forExecution p v := by
  have hmapper : q.mapper = p.mapper := congrArg Prod.fst h
  unfold mapped
  rw [hmapper]

theorem channelInput_of_read {chan : String} {v : Value}
    (h : g.readInput channels (.single chan) = some v) :
    g.channelInput channels chan = some (chan, v) := by
  unfold readInput at h
  unfold channelInput
  cases hc : channels.get? chan with
  | none => simp [hc] at h
  | some c =>
    simp only [hc] at h ⊢
    split at h
    · rename_i havailable
      rw [if_pos havailable, h]
      rfl
    · cases h

theorem interchangeable_iff (hkey : q.inputCacheKey = p.inputCacheKey) {w : Value}
    (hread : (g.inTask managed qname).readInput channels q.channels = some w) :
    g.Interchangeable managed channels forExecution qname q pname p ↔
      ∃ u, (g.inTask managed pname).readInput channels p.channels = some u ∧
        (forExecution = true → g.mapped forExecution q w = g.mapped forExecution p u) := by
  rw [mapped_of_key hkey]
  have hchans := congrArg Prod.snd hkey
  simp only [PregelNode.inputCacheKey] at hchans
  unfold Interchangeable
  cases hq : q.channels with
  | single chan =>
    rw [hq] at hread hchans
    have hv : g.readInput channels (.single chan) = some w := hread
    cases hp : p.channels with
    | single chan' =>
      rw [hp] at hchans
      obtain rfl : chan = chan' := by simpa using hchans
      exact ⟨fun _ => ⟨w, hread, fun _ => rfl⟩, fun _ => trivial⟩
    | many chans =>
      rw [hp] at hchans
      obtain rfl : [chan] = chans := hchans
      have hinput : (g.inTask managed pname).channelInput channels chan = some (chan, w) :=
        channelInput_of_read hv
      have hdict : (g.inTask managed pname).readInput channels (.many [chan]) =
          some (.dict [(chan, w)]) := by
        simp only [readInput, List.filterMap_cons, hinput, List.filterMap_nil]
      simp only [hv, hdict, Option.some.injEq, forall_eq', exists_eq_left']
  | many chans =>
    rw [hq] at hread hchans
    obtain rfl : Value.dict (chans.filterMap ((g.inTask managed qname).channelInput channels)) = w :=
      Option.some.inj hread
    cases hp : p.channels with
    | single chan =>
      rw [hp] at hchans
      obtain rfl : chans = [chan] := hchans
      have hsame : (g.inTask managed pname).readInput channels (.single chan) =
          g.readInput channels (.single chan) := rfl
      rw [hsame]
      refine exists_congr (fun v => and_congr_right (fun hv => ?_))
      have hinput : (g.inTask managed qname).channelInput channels chan = some (chan, v) :=
        channelInput_of_read hv
      simp only [List.filterMap_cons, hinput, List.filterMap_nil]
    | many chans' =>
      rw [hp] at hchans
      obtain rfl : chans = chans' := hchans
      simp only [readInput, Option.some.injEq, exists_eq_left']

theorem pull_cached_iff (hproc : g.nodes.get? pname = some p)
    (hfires : Fires checkpoint channels pname p) (hnode : forExecution = true → p.hasNode = true)
    (pre : List String) :
    (g.pull managed checkpoint channels step forExecution pname
          (g.cacheAfter managed checkpoint channels step forExecution pre [])).1 =
        (g.pull managed checkpoint channels step forExecution pname []).1 ↔
      ∀ v, pre.findSome? (g.cachedBy managed checkpoint channels forExecution p.inputCacheKey) =
          some v →
        ∃ u, (g.inTask managed pname).readInput channels p.channels = some u ∧
          (forExecution = true → v = g.mapped forExecution p u) := by
  have hmapped : (g.inTask managed pname).mapped forExecution p = g.mapped forExecution p := rfl
  rw [pull_due hproc hfires, pull_due hproc hfires, procInput_fst, procInput_fst,
    find?_cacheAfter, List.find?_nil, Option.map_none, Option.none_or, Option.none_or, hmapped]
  cases hfirst :
      pre.findSome? (g.cachedBy managed checkpoint channels forExecution p.inputCacheKey) with
  | none =>
    rw [Option.none_or]
    exact iff_of_true rfl nofun
  | some v =>
    rw [Option.some_or, bind_pullTask_iff hnode]
    simp only [Option.map_eq_some_iff, Option.some.injEq, forall_eq', exists_exists_and_eq_and]

-- The cached value is what the first node to fill the key has read.
theorem cached_first_iff (pre : List String) :
    (∀ v, pre.findSome? (g.cachedBy managed checkpoint channels forExecution p.inputCacheKey) =
          some v →
        ∃ u, (g.inTask managed pname).readInput channels p.channels = some u ∧
          (forExecution = true → v = g.mapped forExecution p u)) ↔
      ∀ before qname q mid, pre = before ++ qname :: mid →
        g.Fills checkpoint channels p.inputCacheKey qname q →
        (∀ name ∈ before, ∀ r, ¬ g.Fills checkpoint channels p.inputCacheKey name r) →
        g.Interchangeable managed channels forExecution qname q pname p := by
  constructor
  · rintro h before qname q mid rfl ⟨hproc, hfires, hkey, hread⟩ hnone
    rw [← isSome_readInput g managed qname] at hread
    obtain ⟨w, hw⟩ := Option.isSome_iff_exists.mp hread
    rw [interchangeable_iff hkey hw]
    refine h _ (List.findSome?_eq_some_iff.mpr ⟨before, qname, mid, rfl, ?_, ?_⟩)
    · exact cachedBy_eq_some.mpr ⟨q, hproc, hfires, hkey, congrArg _ hw⟩
    · exact fun name hname => cachedBy_eq_none.mpr (hnone name hname)
  · intro h v hv
    obtain ⟨before, qname, mid, hsplit, hcached, hnone⟩ := List.findSome?_eq_some_iff.mp hv
    obtain ⟨q, hproc, hfires, hkey, hread⟩ := cachedBy_eq_some.mp hcached
    obtain ⟨w, hw, rfl⟩ := Option.map_eq_some_iff.mp hread
    have hisSome : (g.readInput channels q.channels).isSome = true := by
      rw [← isSome_readInput g managed qname, hw]
      rfl
    exact (interchangeable_iff hkey hw).mp (h before qname q mid hsplit
      ⟨hproc, hfires, hkey, hisSome⟩ (fun name hname => cachedBy_eq_none.mp (hnone name hname)))

theorem nodes_iff (names : List String) :
    (∀ pre pname post, names = pre ++ pname :: post →
        (g.pull managed checkpoint channels step forExecution pname
            (g.cacheAfter managed checkpoint channels step forExecution pre [])).1 =
          (g.pull managed checkpoint channels step forExecution pname []).1) ↔
      g.Shareable managed checkpoint channels forExecution names := by
  constructor
  · rintro h pre qname q mid pname p post rfl hproc hfires hnode hfills hnone
    have hsame := h (pre ++ qname :: mid) pname post (by simp)
    exact (cached_first_iff _).mp ((pull_cached_iff hproc hfires hnode _).mp hsame)
      pre qname q mid rfl hfills hnone
  · rintro h pre pname post rfl
    by_cases hdue : ∃ p, g.nodes.get? pname = some p ∧ Fires checkpoint channels pname p
    · obtain ⟨p, hproc, hfires⟩ := hdue
      by_cases hnode : forExecution = true → p.hasNode = true
      · refine (pull_cached_iff hproc hfires hnode _).mpr ((cached_first_iff _).mpr ?_)
        rintro before qname q mid rfl hfills hnone
        exact h before qname q mid pname p post (by simp) hproc hfires hnode hfills hnone
      · have hunbuilt (input : Option Value) : input.bind
            (g.pullTask checkpoint.id step forExecution pname p) = none :=
          Option.bind_eq_none_iff.mpr (fun v _ => pullTask_unbuilt hnode _ v)
        rw [pull_due hproc hfires, pull_due hproc hfires, hunbuilt, hunbuilt]
    · have hundue (p : PregelNode) (hproc : g.nodes.get? pname = some p) :
          ¬ Fires checkpoint channels pname p := fun hfires => hdue ⟨p, hproc, hfires⟩
      rw [pull_undue hundue, pull_undue hundue]

theorem path_of_pull
    (h : (g.pull managed checkpoint channels step forExecution name cache).1 = some t) :
    t.path = [.str Key.pull, .str name] :=
  (path_preparePull h).1

theorem path_of_pulls (h : t ∈ g.pulls managed checkpoint channels step forExecution names cache) :
    ∃ name ∈ names, t.path = [.str Key.pull, .str name] := by
  induction names generalizing cache with
  | nil => cases h
  | cons name names ih =>
    rcases List.mem_append.mp h with hhead | hrest
    · exact ⟨name, List.mem_cons_self, path_of_pull (Option.mem_toList.mp hhead)⟩
    · obtain ⟨other, hother, hpath⟩ := ih hrest
      exact ⟨other, List.mem_cons_of_mem name hother, hpath⟩

theorem path_of_uncachedPulls
    (h : t ∈ g.uncachedPulls managed checkpoint channels step forExecution names) :
    ∃ name ∈ names, t.path = [.str Key.pull, .str name] := by
  obtain ⟨name, hname, ht⟩ := List.mem_flatMap.mp h
  exact ⟨name, hname, path_of_pull (Option.mem_toList.mp ht)⟩

omit [BaseChannel C] [LinearOrder Ver] [OrderBot Ver] in
theorem toList_append_inj {x y : Option PregelTask} {xs ys : List PregelTask}
    (hx : ∀ t, x = some t → t ∉ ys) (hy : ∀ t, y = some t → t ∉ xs) :
    x.toList ++ xs = y.toList ++ ys ↔ x = y ∧ xs = ys := by
  constructor
  · intro h
    cases x with
    | none =>
      cases y with
      | none => exact ⟨rfl, h⟩
      | some t =>
        obtain rfl : xs = t :: ys := h
        exact absurd List.mem_cons_self (hy t rfl)
    | some t =>
      cases y with
      | none =>
        obtain rfl : t :: xs = ys := h
        exact absurd List.mem_cons_self (hx t rfl)
      | some u =>
        obtain ⟨rfl, hrest⟩ := List.cons.inj h
        exact ⟨rfl, hrest⟩
  · rintro ⟨rfl, rfl⟩
    rfl

theorem pulls_iff {cache : InputCache} (hn : names.Nodup) :
    g.pulls managed checkpoint channels step forExecution names cache =
        g.uncachedPulls managed checkpoint channels step forExecution names ↔
      ∀ pre pname post, names = pre ++ pname :: post →
        (g.pull managed checkpoint channels step forExecution pname
            (g.cacheAfter managed checkpoint channels step forExecution pre cache)).1 =
          (g.pull managed checkpoint channels step forExecution pname []).1 := by
  induction names generalizing cache with
  | nil => exact iff_of_true rfl (fun pre pname post h => by simp at h)
  | cons name names ih =>
    obtain ⟨hname, hnames⟩ := List.nodup_cons.mp hn
    have hother {t : PregelTask} {c : InputCache}
        (hpull : (g.pull managed checkpoint channels step forExecution name c).1 = some t) :
        ¬ ∃ other ∈ names, t.path = [.str Key.pull, .str other] := by
      rintro ⟨other, hmem, hpath⟩
      rw [path_of_pull hpull] at hpath
      obtain rfl : name = other := by simpa using hpath
      exact hname hmem
    have hsplit :
        g.pulls managed checkpoint channels step forExecution (name :: names) cache =
            g.uncachedPulls managed checkpoint channels step forExecution (name :: names) ↔
          (g.pull managed checkpoint channels step forExecution name cache).1 =
              (g.pull managed checkpoint channels step forExecution name []).1 ∧
            g.pulls managed checkpoint channels step forExecution names
                (g.pull managed checkpoint channels step forExecution name cache).2 =
              g.uncachedPulls managed checkpoint channels step forExecution names :=
      toList_append_inj (fun t ht hmem => hother ht (path_of_uncachedPulls hmem))
        (fun t ht hmem => hother ht (path_of_pulls hmem))
    refine hsplit.trans ((and_congr_right (fun _ => ih hnames)).trans ⟨?_, ?_⟩)
    · rintro ⟨hhead, hrest⟩ pre pname post heq
      cases pre with
      | nil =>
        obtain ⟨rfl, rfl⟩ := List.cons.inj heq
        exact hhead
      | cons first pre =>
        obtain ⟨rfl, htail⟩ := List.cons.inj heq
        exact hrest pre pname post htail
    · intro h
      refine ⟨h [] name names rfl, fun pre pname post heq => ?_⟩
      exact h (name :: pre) pname post (congrArg (name :: ·) heq)

-- The inputs of a step's nodes, shared or not, are the same.
theorem pulls_uncached (g : Graph C) (managed : String → Dict String Value)
    (checkpoint : Checkpoint Ver) (channels : Dict String C) (step : Int) (forExecution : Bool)
    (triggerToNodes : Option (Dict String (List String)))
    (updatedChannels : Option (Finset String)) :
    g.pulls managed checkpoint channels step forExecution
          (g.candidateNodes checkpoint triggerToNodes updatedChannels) [] =
        g.uncachedPulls managed checkpoint channels step forExecution
          (g.candidateNodes checkpoint triggerToNodes updatedChannels) ↔
      g.Shareable managed checkpoint channels forExecution
        (g.candidateNodes checkpoint triggerToNodes updatedChannels) :=
  (pulls_iff (nodup_candidateNodes triggerToNodes updatedChannels)).trans (nodes_iff _)

def listNode : PregelNode := ⟨.many ["c"], ["c"], none, none, none, none, true⟩

def singleNode : PregelNode := ⟨.single "c", ["c"], none, none, none, none, true⟩

def sharedGraph : Graph Channel :=
  { Graph.ofSpecs (Dict.ofList [("c", Channel.lastValue ⟨"c", none⟩)]) with
    nodes := Dict.ofList [("a", listNode), ("b", singleNode)] }

-- A node that subscribes to one channel only takes the dict that another node reads of it.
theorem single_reads_dict :
    (sharedGraph.preparePulls (⟨"1", ∅, Dict.ofList [("c", 1)], ∅, none⟩ : Checkpoint Nat)
        (Dict.ofList [("c", .lastValue ⟨"c", some (.int 5)⟩)]) 0 true ["a", "b"] []).map
        (fun t => (t.name, t.input)) =
      [("a", some (.dict [("c", .int 5)])), ("b", some (.dict [("c", .int 5)]))] ∧
    (sharedGraph.procInput (Dict.ofList [("c", .lastValue ⟨"c", some (.int 5)⟩)]) true
        singleNode []).1 = some (.int 5) := by
  decide +kernel

end Cache

end Graph

end LangGraph

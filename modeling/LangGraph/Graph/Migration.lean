import LangGraph.Collections.Gather
import LangGraph.Collections.Separated
import LangGraph.Pregel.Deferred
import LangGraph.Pregel.Superstep

namespace LangGraph

open Collections

def endName : String := "__end__"

def branchTo (name : String) : String := "branch:to:" ++ name

def startNode (chan : String) : Option String :=
  if "start:".toList <+: chan.toList then (splitText ':' chan)[1]? else none

def branchNode (chan : String) : Option String :=
  if "branch:".toList <+: chan.toList ∧ chan.toList.count ':' = 3 then
    (splitText ':' chan).getLast?
  else none

structure CompiledStateGraph extends Graph Channel where
  edges : List (String × String)
  nodup_edges : edges.Nodup
  colonless : ∀ name ∈ nodes.keys, ':' ∉ name.toList
  interrupt_not_node : Key.interrupt ∉ nodes.keys
  ends : ∀ e ∈ edges, e.2 = endName ∨ e.2 ∈ nodes.keys
  others : ∀ name proc, nodes.get? name = some proc → ∀ chan ∈ proc.triggers,
    chan ≠ branchTo name → chan = Key.start ∨ "join:".toList <+: chan.toList

section Migrate

variable {Ver : Type} [LinearOrder Ver]

def moveSeen (chan new : String) (seen : ChannelVersions Ver) : ChannelVersions Ver :=
  match seen.get? chan with
  | some s => (seen.erase chan).putMax new s
  | none => seen

def moveSeenOf (name chan new : String) (seen : Dict String (ChannelVersions Ver)) :
    Dict String (ChannelVersions Ver) :=
  (seen.modify name (moveSeen chan new)).modify Key.interrupt (moveSeen chan new)

def fillValue (new : String) (value : Option Blob) (values popped : Dict String Blob) :
    Dict String Blob :=
  match values.get? new, value with
  | none, some b => popped.set new b
  | _, _ => values

def collapse (name : String) (c : Checkpoint Ver) (chan : String) : Checkpoint Ver :=
  match c.channelVersions.get? chan with
  | none => c
  | some v =>
      { c with
        channelVersions := (c.channelVersions.erase chan).putMax (branchTo name) v
        versionsSeen := moveSeenOf name chan (branchTo name) c.versionsSeen
        channelValues := fillValue (branchTo name) (c.channelValues.get? chan) c.channelValues
          (c.channelValues.erase chan) }

def feed (chan : String) (v : Ver) (value : Option Blob) (c : Checkpoint Ver) (target : String) :
    Checkpoint Ver :=
  { c with
    versionsSeen := moveSeenOf target chan (branchTo target) c.versionsSeen
    channelValues := fillValue (branchTo target) value c.channelValues c.channelValues
    channelVersions := c.channelVersions.putMax (branchTo target) v }

-- `Pregel._migrate_checkpoint`: a checkpoint without versions has none to give to pending Sends.
def Graph.migrateCheckpoint (v : Nat) (pendingSends : List Value) (c : Checkpoint Ver) :
    Option (Checkpoint Ver) :=
  if v < 4 ∧ pendingSends ≠ [] then
    (maxVersion c.channelVersions).map (fun m =>
      { c with
        channelValues := c.channelValues.set Key.tasks (.values pendingSends)
        channelVersions := c.channelVersions.set Key.tasks m })
  else some c

namespace CompiledStateGraph

variable (g : CompiledStateGraph)

def collapseNamed (parse : String → Option String) (c : Checkpoint Ver) (chan : String) :
    Checkpoint Ver :=
  match (parse chan).filter (fun name => name ∈ g.nodes.keys) with
  | some name => collapse name c chan
  | none => c

def collapseAll (parse : String → Option String) (c : Checkpoint Ver) : Checkpoint Ver :=
  c.channelVersions.keys.foldl (g.collapseNamed parse) c

def sourceToTarget (start : String) : List String :=
  (g.edges.filter (fun e => e.1 = start ∧ e.1 ≠ Key.start ∧ e.2 ≠ endName)).map Prod.snd

def distribute (c : Checkpoint Ver) (chan : String) : Checkpoint Ver :=
  if chan ≠ Key.start ∧ chan ∈ g.nodes.keys then
    match c.channelVersions.get? chan with
    | none => c
    | some v =>
        let fed := (g.sourceToTarget chan).foldl (feed chan v (c.channelValues.get? chan))
          { c with
            channelVersions := c.channelVersions.erase chan
            channelValues := c.channelValues.erase chan }
        { fed with
          versionsSeen := fed.versionsSeen.modify Key.interrupt (fun seen => seen.erase chan) }
  else c

def distributeAll (c : Checkpoint Ver) : Checkpoint Ver :=
  if g.nodes.keys.any (fun name => c.channelVersions.contains name) then
    c.channelVersions.keys.foldl g.distribute c
  else c

def migrateCheckpoint (v : Nat) (pendingSends : List Value) (c : Checkpoint Ver) :
    Option (Checkpoint Ver) :=
  (Graph.migrateCheckpoint v pendingSends c).map (fun c =>
    if c.channelVersions.items = [] then c
    else if 3 ≤ v then c
    else g.distributeAll (g.collapseAll branchNode (g.collapseAll startNode c)))

end CompiledStateGraph

end Migrate

section Names

variable {name name' chan : String}

theorem branchTo_injective (h : branchTo name = branchTo name') : name = name' := by
  have hlist : (branchTo name).toList = (branchTo name').toList := congrArg _ h
  unfold branchTo at hlist
  rw [String.toList_append, String.toList_append] at hlist
  exact String.toList_injective (List.append_cancel_left hlist)

theorem colon_mem_branchTo : ':' ∈ (branchTo name).toList := by
  unfold branchTo
  rw [String.toList_append]
  exact List.mem_append_left _ (by decide)

theorem colon_of_startNode (h : startNode chan = some name) : ':' ∈ chan.toList := by
  unfold startNode at h
  split at h
  · rename_i hp
    exact hp.subset (by decide)
  · cases h

theorem colon_of_branchNode (h : branchNode chan = some name) : ':' ∈ chan.toList := by
  unfold branchNode at h
  split at h
  · rename_i hp
    exact hp.1.subset (by decide)
  · cases h

theorem startNode_branchTo : startNode (branchTo name) = none := by
  have hno : ¬ "start:".toList <+: (branchTo name).toList := by
    unfold branchTo
    rw [String.toList_append]
    exact fun h => absurd (List.cons_prefix_cons.mp h).1 (by decide)
  rw [startNode, if_neg hno]

theorem branchNode_branchTo (h : ':' ∉ name.toList) : branchNode (branchTo name) = none := by
  have hcount : (branchTo name).toList.count ':' = 2 := by
    unfold branchTo
    rw [String.toList_append, List.count_append, List.count_eq_zero.mpr h]
    rfl
  rw [branchNode, if_neg]
  rintro ⟨-, h3⟩
  omega

theorem branchNode_of_startNode (h : startNode chan = some name) : branchNode chan = none := by
  unfold startNode at h
  split at h
  · rename_i hstart
    rw [branchNode, if_neg]
    rintro ⟨hbranch, -⟩
    obtain ⟨l, hl⟩ := hstart
    rw [← hl] at hbranch
    exact absurd (List.cons_prefix_cons.mp hbranch).1 (by decide)
  · cases h

end Names

section Moved

variable {Ver : Type} [LinearOrder Ver] [OrderBot Ver]

def versionOf (c : Checkpoint Ver) (chan : String) : Ver := c.channelVersions.getD chan ⊥

def seenOf (name : String) (c : Checkpoint Ver) (chan : String) : Ver :=
  (c.versionsSeen.getD name ∅).getD chan ⊥

def ownBranch (name : String) (targets : List String) : List String :=
  targets.filter (· = branchTo name)

structure MovedTo (chan : String) (targets : List String) (c c' : Checkpoint Ver) : Prop where
  popped : c'.channelVersions.get? chan = none
  keys : ∀ p : String → Bool, p chan = false → (∀ d ∈ targets, p d = false) →
    c'.channelVersions.keys.filter p = c.channelVersions.keys.filter p
  version : ∀ d, d ≠ chan → versionOf c' d =
    if d ∈ targets then max (versionOf c d) (versionOf c chan) else versionOf c d
  value : ∀ d, d ≠ chan → c'.channelValues.get? d =
    if d ∈ targets then (c.channelValues.get? d).or (c.channelValues.get? chan)
    else c.channelValues.get? d
  mark : ∀ d, d ≠ chan → seenOf Key.interrupt c' d =
    if d ∈ targets.take 1 then
      max (seenOf Key.interrupt c d) (seenOf Key.interrupt c chan)
    else seenOf Key.interrupt c d
  seen : ∀ name, name ≠ Key.interrupt → ∀ d, d ≠ chan → seenOf name c' d =
    if d ∈ ownBranch name targets then max (seenOf name c d) (seenOf name c chan)
    else seenOf name c d
  known : ∀ name, (c'.versionsSeen.get? name).isSome = (c.versionsSeen.get? name).isSome

variable {chan new name d : String} {seen : ChannelVersions Ver}
  {all : Dict String (ChannelVersions Ver)}

theorem getD_moveSeen (hnew : new ≠ chan) (hd : d ≠ chan) :
    (moveSeen chan new seen).getD d ⊥ =
      if d = new then max (seen.getD d ⊥) (seen.getD chan ⊥) else seen.getD d ⊥ := by
  have herase : ∀ k, k ≠ chan → (seen.erase chan).getD k ⊥ = seen.getD k ⊥ := by
    intro k hk
    unfold Dict.getD
    rw [Dict.get?_erase_ne hk]
  cases h : seen.get? chan with
  | none =>
    have hbot : seen.getD chan ⊥ = ⊥ := by
      unfold Dict.getD
      rw [h]
      rfl
    simp only [moveSeen, h]
    rw [hbot, max_eq_left bot_le, ite_self]
  | some s =>
    have hs : seen.getD chan ⊥ = s := by
      unfold Dict.getD
      rw [h]
      rfl
    simp only [moveSeen, h, Dict.getD_putMax]
    split
    · rename_i he
      rw [herase new hnew, hs, he]
    · exact herase d hd

omit [OrderBot Ver] in
theorem get?_moveSeen_self (hnew : new ≠ chan) : (moveSeen chan new seen).get? chan = none := by
  cases h : seen.get? chan with
  | none => simp only [moveSeen, h]
  | some s =>
    simp only [moveSeen, h]
    unfold Dict.putMax
    rw [Dict.get?_set_ne _ hnew.symm, Dict.get?_erase_self]

omit [OrderBot Ver] in
theorem get?_moveSeenOf (other : String) (hname : name ≠ Key.interrupt) :
    (moveSeenOf name chan new all).get? other =
      if other = name ∨ other = Key.interrupt then (all.get? other).map (moveSeen chan new)
      else all.get? other := by
  unfold moveSeenOf
  rw [Dict.get?_modify, Dict.get?_modify, Dict.get?_modify]
  by_cases hi : other = Key.interrupt
  · rw [if_pos hi, if_neg hname.symm, if_pos (Or.inr hi), hi]
  · rw [if_neg hi]
    by_cases hn : other = name
    · rw [if_pos hn, if_pos (Or.inl hn), hn]
    · rw [if_neg hn, if_neg (not_or.mpr ⟨hn, hi⟩)]

theorem getD_map_moveSeen {o : Option (ChannelVersions Ver)} (hnew : new ≠ chan) (hd : d ≠ chan) :
    ((o.map (moveSeen chan new)).getD ∅).getD d ⊥ =
      if d = new then max ((o.getD ∅).getD d ⊥) ((o.getD ∅).getD chan ⊥)
      else (o.getD ∅).getD d ⊥ := by
  cases o with
  | none =>
    have hbot : ∀ k, (∅ : ChannelVersions Ver).getD k ⊥ = ⊥ := fun _ => rfl
    simp [hbot]
  | some s => exact getD_moveSeen hnew hd

end Moved

section Keys

variable {α : Type} {d : Dict String α} {k : String} {p : String → Bool}

theorem filter_keys_erase (hp : p k = false) : (d.erase k).keys.filter p = d.keys.filter p := by
  rw [Dict.keys_erase, List.filter_filter]
  refine List.filter_congr ?_
  intro k' _
  by_cases hk : k' = k
  · rw [hk, hp, Bool.false_and]
  · simp [hk]

theorem filter_keys_putMax [Max α] (hp : p k = false) (v : α) :
    (d.putMax k v).keys.filter p = d.keys.filter p := by
  unfold Dict.putMax
  rw [Dict.keys_set]
  split
  · rfl
  · simp [hp]

end Keys

theorem get?_fillValue {new d : String} {value : Option Blob} {values popped : Dict String Blob}
    (h : popped.get? d = values.get? d) : (fillValue new value values popped).get? d =
      if d = new then (values.get? d).or value else values.get? d := by
  cases hnew : values.get? new with
  | some b =>
    simp only [fillValue, hnew]
    split
    · rename_i he
      rw [he, hnew, Option.some_or]
    · rfl
  | none =>
    cases value with
    | none => simp [fillValue, hnew]
    | some b =>
      simp only [fillValue, hnew]
      rw [Dict.get?_set]
      split
      · rename_i he
        rw [he, hnew, Option.none_or]
      · exact h

section Collapse

variable {Ver : Type} [LinearOrder Ver] [OrderBot Ver] {name chan : String} {c : Checkpoint Ver}

theorem movedTo_collapse (hchan : chan ∈ c.channelVersions.keys) (hname : name ≠ Key.interrupt)
    (hne : branchTo name ≠ chan) : MovedTo chan [branchTo name] c (collapse name c chan) := by
  obtain ⟨v, hv⟩ := Dict.mem_keys.mp hchan
  have hversions : (collapse name c chan).channelVersions =
      (c.channelVersions.erase chan).putMax (branchTo name) v := by
    simp only [collapse, hv]
  have hseen : (collapse name c chan).versionsSeen =
      moveSeenOf name chan (branchTo name) c.versionsSeen := by
    simp only [collapse, hv]
  have hvalues : (collapse name c chan).channelValues =
      fillValue (branchTo name) (c.channelValues.get? chan) c.channelValues
        (c.channelValues.erase chan) := by
    simp only [collapse, hv]
  have hget : ∀ other, (collapse name c chan).versionsSeen.get? other =
      if other = name ∨ other = Key.interrupt then
        (c.versionsSeen.get? other).map (moveSeen chan (branchTo name))
      else c.versionsSeen.get? other := by
    intro other
    rw [hseen, get?_moveSeenOf other hname]
  refine ⟨?_, ?_, ?_, ?_, ?_, ?_, ?_⟩
  · rw [hversions]
    unfold Dict.putMax
    rw [Dict.get?_set_ne _ hne.symm, Dict.get?_erase_self]
  · intro p hp hd
    rw [hversions, filter_keys_putMax (hd _ (List.mem_singleton_self _)), filter_keys_erase hp]
  · intro d hd
    have herase : ∀ k, k ≠ chan →
        (c.channelVersions.erase chan).getD k ⊥ = c.channelVersions.getD k ⊥ := by
      intro k hk
      unfold Dict.getD
      rw [Dict.get?_erase_ne hk]
    have hchan : versionOf c chan = v := by
      unfold versionOf Dict.getD
      rw [hv]
      rfl
    unfold versionOf at hchan ⊢
    rw [hversions, Dict.getD_putMax, hchan]
    simp only [List.mem_singleton]
    split
    · rename_i he
      rw [herase _ hne, he]
    · exact herase d hd
  · intro d hd
    rw [hvalues, get?_fillValue (Dict.get?_erase_ne hd)]
    simp only [List.mem_singleton]
  · intro d hd
    unfold seenOf Dict.getD
    rw [hget, if_pos (Or.inr rfl)]
    simpa [Dict.getD] using getD_map_moveSeen (o := c.versionsSeen.get? Key.interrupt) hne hd
  · intro other hother d hd
    unfold seenOf
    have hown : d ∈ ownBranch other [branchTo name] ↔ other = name ∧ d = branchTo name := by
      unfold ownBranch
      rw [List.mem_filter, List.mem_singleton, decide_eq_true_iff]
      constructor
      · rintro ⟨hd, hd'⟩
        exact ⟨branchTo_injective (hd'.symm.trans hd), hd⟩
      · rintro ⟨rfl, hd⟩
        exact ⟨hd, hd⟩
    unfold Dict.getD
    rw [hget]
    by_cases ho : other = name
    · rw [if_pos (Or.inl ho)]
      have hown : d ∈ ownBranch other [branchTo name] ↔ d = branchTo name := by
        rw [hown]
        exact ⟨And.right, fun h => ⟨ho, h⟩⟩
      simpa [Dict.getD, hown] using
        getD_map_moveSeen (o := c.versionsSeen.get? other) hne hd
    · rw [if_neg (not_or.mpr ⟨ho, hother⟩), if_neg (fun h => ho (hown.mp h).1)]
  · intro other
    rw [hget]
    split
    · exact Option.isSome_map
    · rfl

end Collapse

section Feed

variable {Ver : Type} [LinearOrder Ver] {chan d : String} {v : Ver} {value : Option Blob}
  {targets : List String} {all : Dict String (ChannelVersions Ver)}

def feedSeen (chan : String) (targets : List String) (all : Dict String (ChannelVersions Ver)) :
    Dict String (ChannelVersions Ver) :=
  targets.foldl (fun all target => moveSeenOf target chan (branchTo target) all) all

theorem fed_eq (c : Checkpoint Ver) : targets.foldl (feed chan v value) c =
    { c with
      channelVersions :=
        targets.foldl (fun versions target => versions.putMax (branchTo target) v)
          c.channelVersions
      channelValues :=
        targets.foldl (fun values target => fillValue (branchTo target) value values values)
          c.channelValues
      versionsSeen := feedSeen chan targets c.versionsSeen } := by
  induction targets generalizing c with
  | nil => rfl
  | cons target targets ih =>
    rw [List.foldl_cons, ih]
    rfl

theorem filter_keys_fed {p : String → Bool} (hp : ∀ target ∈ targets, p (branchTo target) = false)
    (versions : ChannelVersions Ver) :
    (targets.foldl (fun versions target => versions.putMax (branchTo target) v)
      versions).keys.filter p = versions.keys.filter p := by
  induction targets generalizing versions with
  | nil => rfl
  | cons target targets ih =>
    rw [List.foldl_cons, ih (fun t ht => hp t (List.mem_cons_of_mem _ ht)),
      filter_keys_putMax (hp target (List.mem_cons_self ..))]

theorem get?_fed_of_not_mem (hd : d ∉ targets.map branchTo) (versions : ChannelVersions Ver) :
    (targets.foldl (fun versions target => versions.putMax (branchTo target) v) versions).get? d =
      versions.get? d := by
  induction targets generalizing versions with
  | nil => rfl
  | cons target targets ih =>
    obtain ⟨hne, hd⟩ := not_or.mp (mt List.mem_cons.mpr hd)
    rw [List.foldl_cons, ih hd]
    exact Dict.get?_set_ne _ hne _

theorem getD_fed [OrderBot Ver] (versions : ChannelVersions Ver) :
    (targets.foldl (fun versions target => versions.putMax (branchTo target) v) versions).getD d ⊥ =
      if d ∈ targets.map branchTo then max (versions.getD d ⊥) v else versions.getD d ⊥ := by
  induction targets generalizing versions with
  | nil => rfl
  | cons target targets ih =>
    rw [List.foldl_cons, ih, Dict.getD_putMax]
    by_cases hd : d = branchTo target
    · rw [hd, if_pos rfl, List.map_cons, if_pos (List.mem_cons_self ..)]
      split
      · rw [max_assoc, max_self]
      · rfl
    · simp [hd]

theorem get?_filled (values : Dict String Blob) :
    (targets.foldl (fun values target => fillValue (branchTo target) value values values)
      values).get? d =
      if d ∈ targets.map branchTo then (values.get? d).or value else values.get? d := by
  induction targets generalizing values with
  | nil => rfl
  | cons target targets ih =>
    rw [List.foldl_cons, ih, get?_fillValue rfl]
    by_cases hd : d = branchTo target
    · rw [hd, if_pos rfl, List.map_cons, if_pos (List.mem_cons_self ..)]
      split
      · rw [Option.or_assoc, Option.or_self]
      · rfl
    · simp [hd]

theorem get?_feedSeen {other : String} (hnodup : targets.Nodup)
    (hi : Key.interrupt ∉ targets) (ho : other ≠ Key.interrupt) :
    (feedSeen chan targets all).get? other =
      if other ∈ targets then (all.get? other).map (moveSeen chan (branchTo other))
      else all.get? other := by
  unfold feedSeen
  induction targets generalizing all with
  | nil => rfl
  | cons target targets ih =>
    obtain ⟨hhead, hnodup⟩ := List.nodup_cons.mp hnodup
    obtain ⟨hne, hi⟩ := not_or.mp (mt List.mem_cons.mpr hi)
    rw [List.foldl_cons, ih hnodup hi, get?_moveSeenOf other (Ne.symm hne)]
    by_cases hother : other = target
    · rw [hother, if_neg hhead, if_pos (Or.inl rfl), if_pos (List.mem_cons_self ..)]
    · rw [if_neg (not_or.mpr ⟨hother, ho⟩)]
      simp [hother]

-- Only the first target takes over what the interrupt marker has seen.
theorem get?_feedSeen_interrupt (hi : Key.interrupt ∉ targets)
    (hchan : chan ∉ targets.map branchTo) :
    (feedSeen chan targets all).get? Key.interrupt =
      targets.head?.elim (all.get? Key.interrupt)
        (fun target => (all.get? Key.interrupt).map (moveSeen chan (branchTo target))) := by
  have hrest : ∀ (targets : List String) (all : Dict String (ChannelVersions Ver)),
      Key.interrupt ∉ targets → (∀ seen, all.get? Key.interrupt = some seen → seen.get? chan = none) →
      (feedSeen chan targets all).get? Key.interrupt = all.get? Key.interrupt := by
    intro targets
    induction targets with
    | nil => exact fun _ _ _ => rfl
    | cons target targets ih =>
      intro all hi hnone
      obtain ⟨hne, hi⟩ := not_or.mp (mt List.mem_cons.mpr hi)
      have hsame : (moveSeenOf target chan (branchTo target) all).get? Key.interrupt =
          all.get? Key.interrupt := by
        rw [get?_moveSeenOf _ (Ne.symm hne), if_pos (Or.inr rfl)]
        cases hall : all.get? Key.interrupt with
        | none => rfl
        | some seen => simp only [Option.map_some, moveSeen, hnone seen hall]
      have htail : feedSeen chan (target :: targets) all =
          feedSeen chan targets (moveSeenOf target chan (branchTo target) all) := rfl
      rw [htail, ih _ hi (fun seen hseen => hnone seen (hsame ▸ hseen)), hsame]
  cases targets with
  | nil => rfl
  | cons target targets =>
    obtain ⟨hne, hi⟩ := not_or.mp (mt List.mem_cons.mpr hi)
    obtain ⟨hnew, -⟩ := not_or.mp (mt List.mem_cons.mpr hchan)
    have hfirst : (moveSeenOf target chan (branchTo target) all).get? Key.interrupt =
        (all.get? Key.interrupt).map (moveSeen chan (branchTo target)) := by
      rw [get?_moveSeenOf _ (Ne.symm hne), if_pos (Or.inr rfl)]
    have htail : feedSeen chan (target :: targets) all =
        feedSeen chan targets (moveSeenOf target chan (branchTo target) all) := rfl
    rw [htail, hrest targets _ hi, hfirst, List.head?_cons, Option.elim_some]
    intro seen hseen
    rw [hfirst] at hseen
    obtain ⟨seen', -, rfl⟩ := Option.map_eq_some_iff.mp hseen
    exact get?_moveSeen_self (Ne.symm hnew)

theorem isSome_feedSeen (hi : Key.interrupt ∉ targets) (other : String) :
    ((feedSeen chan targets all).get? other).isSome = (all.get? other).isSome := by
  unfold feedSeen
  induction targets generalizing all with
  | nil => rfl
  | cons target targets ih =>
    obtain ⟨hne, hi⟩ := not_or.mp (mt List.mem_cons.mpr hi)
    rw [List.foldl_cons, ih hi, get?_moveSeenOf other (Ne.symm hne)]
    split
    · exact Option.isSome_map
    · rfl

end Feed

section Distribute

variable {Ver : Type} [LinearOrder Ver] [OrderBot Ver] {g : CompiledStateGraph}
  {chan name : String} {c : Checkpoint Ver}

namespace CompiledStateGraph

theorem mem_sourceToTarget : name ∈ g.sourceToTarget chan ↔
    (chan, name) ∈ g.edges ∧ chan ≠ Key.start ∧ name ≠ endName := by
  unfold sourceToTarget
  simp only [List.mem_map, List.mem_filter, decide_eq_true_iff]
  constructor
  · rintro ⟨⟨start, target⟩, ⟨hmem, rfl, hstart, hend⟩, rfl⟩
    exact ⟨hmem, hstart, hend⟩
  · rintro ⟨hmem, hstart, hend⟩
    exact ⟨(chan, name), ⟨hmem, rfl, hstart, hend⟩, rfl⟩

theorem nodup_sourceToTarget : (g.sourceToTarget chan).Nodup := by
  refine List.Nodup.map_on ?_ (g.nodup_edges.filter _)
  rintro ⟨start, target⟩ h ⟨start', target'⟩ h' rfl
  simp only [List.mem_filter, decide_eq_true_iff] at h h'
  rw [h.2.1, h'.2.1]

theorem node_of_mem_sourceToTarget (h : name ∈ g.sourceToTarget chan) : name ∈ g.nodes.keys := by
  obtain ⟨hmem, -, hend⟩ := mem_sourceToTarget.mp h
  exact (g.ends _ hmem).resolve_left hend

theorem ne_interrupt_of_node (h : name ∈ g.nodes.keys) : name ≠ Key.interrupt := by
  rintro rfl
  exact g.interrupt_not_node h

theorem interrupt_not_target : Key.interrupt ∉ g.sourceToTarget chan :=
  fun h => g.interrupt_not_node (node_of_mem_sourceToTarget h)

theorem node_ne_branchTo (h : chan ∈ g.nodes.keys) : chan ≠ branchTo name := by
  intro he
  exact g.colonless chan h (he ▸ colon_mem_branchTo)

theorem node_not_target {targets : List String} (h : chan ∈ g.nodes.keys) :
    chan ∉ targets.map branchTo := by
  intro hmem
  obtain ⟨name, -, he⟩ := List.mem_map.mp hmem
  exact node_ne_branchTo h he.symm

theorem movedTo_distribute (hchan : chan ∈ c.channelVersions.keys) (hstart : chan ≠ Key.start)
    (hnode : chan ∈ g.nodes.keys) :
    MovedTo chan ((g.sourceToTarget chan).map branchTo) c (g.distribute c chan) := by
  obtain ⟨v, hv⟩ := Dict.mem_keys.mp hchan
  have hnot : chan ∉ (g.sourceToTarget chan).map branchTo := node_not_target hnode
  have hversion : versionOf c chan = v := by
    unfold versionOf Dict.getD
    rw [hv]
    rfl
  have hdistribute : g.distribute c chan =
      { c with
        channelVersions := (g.sourceToTarget chan).foldl
          (fun versions target => versions.putMax (branchTo target) v)
          (c.channelVersions.erase chan)
        channelValues := (g.sourceToTarget chan).foldl (fun values target =>
          fillValue (branchTo target) (c.channelValues.get? chan) values values)
          (c.channelValues.erase chan)
        versionsSeen := (feedSeen chan (g.sourceToTarget chan) c.versionsSeen).modify Key.interrupt
          (fun seen => seen.erase chan) } := by
    unfold distribute
    rw [if_pos ⟨hstart, hnode⟩]
    simp only [hv, fed_eq]
  have hseen : ∀ other, other ≠ Key.interrupt →
      (g.distribute c chan).versionsSeen.get? other =
        (feedSeen chan (g.sourceToTarget chan) c.versionsSeen).get? other := by
    intro other ho
    rw [hdistribute, Dict.get?_modify, if_neg ho]
  refine ⟨?_, ?_, ?_, ?_, ?_, ?_, ?_⟩
  · rw [hdistribute, get?_fed_of_not_mem hnot, Dict.get?_erase_self]
  · intro p hp hd
    rw [hdistribute]
    rw [filter_keys_fed (fun target ht => hd _ (List.mem_map_of_mem ht)), filter_keys_erase hp]
  · intro d hd
    have herase : (c.channelVersions.erase chan).getD d ⊥ = versionOf c d := by
      unfold versionOf Dict.getD
      rw [Dict.get?_erase_ne hd]
    rw [hdistribute]
    unfold versionOf at hversion herase ⊢
    rw [getD_fed, herase, hversion]
  · intro d hd
    rw [hdistribute, get?_filled, Dict.get?_erase_ne hd]
  · intro d hd
    have hget : seenOf Key.interrupt (g.distribute c chan) d =
        (((feedSeen chan (g.sourceToTarget chan) c.versionsSeen).get? Key.interrupt).getD
          ∅).getD d ⊥ := by
      unfold seenOf
      rw [hdistribute]
      unfold Dict.getD
      rw [Dict.get?_modify, if_pos rfl]
      cases (feedSeen chan (g.sourceToTarget chan) c.versionsSeen).get? Key.interrupt with
      | none => rfl
      | some seen => rw [Option.map_some, Option.getD_some, Option.getD_some, Dict.get?_erase_ne hd]
    rw [hget, get?_feedSeen_interrupt interrupt_not_target hnot]
    cases hts : g.sourceToTarget chan with
    | nil => simp [seenOf, Dict.getD]
    | cons target targets =>
      have hne : branchTo target ≠ chan := (node_ne_branchTo hnode).symm
      simpa [seenOf, Dict.getD] using
        getD_map_moveSeen (o := c.versionsSeen.get? Key.interrupt) hne hd
  · intro other ho d hd
    have hown : d ∈ ownBranch other ((g.sourceToTarget chan).map branchTo) ↔
        other ∈ g.sourceToTarget chan ∧ d = branchTo other := by
      unfold ownBranch
      rw [List.mem_filter, decide_eq_true_iff]
      constructor
      · rintro ⟨hd, rfl⟩
        obtain ⟨target, ht, he⟩ := List.mem_map.mp hd
        exact ⟨branchTo_injective he ▸ ht, rfl⟩
      · rintro ⟨ht, rfl⟩
        exact ⟨List.mem_map_of_mem ht, rfl⟩
    unfold seenOf Dict.getD
    rw [hseen other ho, get?_feedSeen nodup_sourceToTarget interrupt_not_target ho]
    by_cases ht : other ∈ g.sourceToTarget chan
    · have hown : d ∈ ownBranch other ((g.sourceToTarget chan).map branchTo) ↔
          d = branchTo other := by
        rw [hown]
        exact ⟨And.right, fun h => ⟨ht, h⟩⟩
      rw [if_pos ht]
      simpa [Dict.getD, hown] using getD_map_moveSeen (o := c.versionsSeen.get? other)
        (@node_ne_branchTo _ _ other hnode).symm hd
    · rw [if_neg ht, if_neg (fun h => ht (hown.mp h).1)]
  · intro other
    rw [hdistribute, Dict.get?_modify]
    split
    · rename_i ho
      rw [Option.isSome_map, isSome_feedSeen interrupt_not_target, ho]
    · exact isSome_feedSeen interrupt_not_target other

end CompiledStateGraph

end Distribute

section Phases

variable {Ver : Type} [LinearOrder Ver] [OrderBot Ver]

def movesOf (move : String → Option (List String)) (keys : List String) :
    List (String × List String) :=
  keys.filterMap (fun chan => (move chan).map (fun targets => (chan, targets)))

variable {move : String → Option (List String)} {keys : List String} {chan : String}
  {targets : List String} {c c' : Checkpoint Ver}

theorem mem_movesOf : (chan, targets) ∈ movesOf move keys ↔
    chan ∈ keys ∧ move chan = some targets := by
  simp [movesOf]

theorem keys_movesOf : (movesOf move keys).map Prod.fst = keys.filter (fun k => (move k).isSome) := by
  induction keys with
  | nil => rfl
  | cons k keys ih =>
    unfold movesOf at ih ⊢
    cases h : move k with
    | none => simp [h, ih]
    | some targets => simp [h, ih]

theorem movesOf_filter :
    movesOf move (keys.filter (fun k => (move k).isSome)) = movesOf move keys := by
  induction keys with
  | nil => rfl
  | cons k keys ih =>
    unfold movesOf at ih ⊢
    cases h : move k with
    | none => simp [h, ih]
    | some targets => simp [h, ih]

theorem filter_keys_moves {moves : List (String × List String)} (h : Moves MovedTo moves c c') {p : String → Bool}
    (hp : ∀ m ∈ moves, p m.1 = false ∧ ∀ d ∈ m.2, p d = false) :
    c'.channelVersions.keys.filter p = c.channelVersions.keys.filter p := by
  induction h with
  | nil => rfl
  | @cons chan targets moves s t u hmoved _ ih =>
    obtain ⟨hchan, htargets⟩ := hp _ (List.mem_cons_self ..)
    rw [ih (fun m hm => hp m (List.mem_cons_of_mem _ hm)), hmoved.keys p hchan htargets]

theorem moves_foldl {f : Checkpoint Ver → String → Checkpoint Ver}
    (hstay : ∀ c chan, move chan = none → f c chan = c)
    (hmove : ∀ c chan targets, move chan = some targets → chan ∈ c.channelVersions.keys →
      MovedTo chan targets c (f c chan))
    (hnone : ∀ chan targets, move chan = some targets → ∀ d ∈ targets, move d = none)
    (hnodup : keys.Nodup)
    (hkeys : ∀ chan ∈ keys, (move chan).isSome = true → chan ∈ c.channelVersions.keys) :
    Moves MovedTo (movesOf move keys) c (keys.foldl f c) := by
  induction keys generalizing c with
  | nil => exact .nil c
  | cons chan keys ih =>
    obtain ⟨hhead, hnodup⟩ := List.nodup_cons.mp hnodup
    rw [List.foldl_cons]
    cases h : move chan with
    | none =>
      have htail : movesOf move (chan :: keys) = movesOf move keys := by simp [movesOf, h]
      rw [hstay c chan h, htail]
      exact ih hnodup (fun k hk => hkeys k (List.mem_cons_of_mem _ hk))
    | some targets =>
      have htail : movesOf move (chan :: keys) = (chan, targets) :: movesOf move keys := by
        simp [movesOf, h]
      have hmoved := hmove c chan targets h (hkeys chan (List.mem_cons_self ..) (by rw [h]; rfl))
      rw [htail]
      refine .cons hmoved (ih hnodup ?_)
      intro k hk hsome
      have hkept := hmoved.keys (fun k' => k' = k)
        (by simpa using fun he : chan = k => hhead (he ▸ hk))
        (by
          intro d hd
          refine decide_eq_false ?_
          rintro rfl
          rw [hnone chan targets h d hd] at hsome
          cases hsome)
      have hmem : k ∈ c.channelVersions.keys.filter (fun k' => k' = k) :=
        List.mem_filter.mpr ⟨hkeys k (List.mem_cons_of_mem _ hk) hsome, decide_eq_true rfl⟩
      rw [← hkept] at hmem
      exact (List.mem_filter.mp hmem).1

namespace CompiledStateGraph

variable (g : CompiledStateGraph)

def collapses (parse : String → Option String) (chan : String) : Option (List String) :=
  ((parse chan).filter (fun name => name ∈ g.nodes.keys)).map (fun name => [branchTo name])

def distributes (chan : String) : Option (List String) :=
  if chan ≠ Key.start ∧ chan ∈ g.nodes.keys then some ((g.sourceToTarget chan).map branchTo)
  else none

-- The old channels with a version, in the order in which they are migrated, and where each goes.
def moves (keys : List String) : List (String × List String) :=
  movesOf (g.collapses startNode) keys ++ movesOf (g.collapses branchNode) keys ++
    movesOf g.distributes keys

variable {g} {parse : String → Option String}

theorem collapses_eq_some : g.collapses parse chan = some targets ↔
    ∃ name, parse chan = some name ∧ name ∈ g.nodes.keys ∧ targets = [branchTo name] := by
  unfold collapses
  simp only [Option.map_eq_some_iff, Option.filter_eq_some_iff, decide_eq_true_iff]
  constructor
  · rintro ⟨name, ⟨hparse, hname⟩, rfl⟩
    exact ⟨name, hparse, hname, rfl⟩
  · rintro ⟨name, hparse, hname, rfl⟩
    exact ⟨name, ⟨hparse, hname⟩, rfl⟩

theorem distributes_eq_some : g.distributes chan = some targets ↔
    chan ≠ Key.start ∧ chan ∈ g.nodes.keys ∧ targets = (g.sourceToTarget chan).map branchTo := by
  unfold distributes
  split
  · rename_i h
    rw [Option.some.injEq, eq_comm]
    exact ⟨fun he => ⟨h.1, h.2, he⟩, fun h => h.2.2⟩
  · rename_i h
    exact ⟨nofun, fun h' => absurd ⟨h'.1, h'.2.1⟩ h⟩

theorem moves_collapseAll (hbranch : ∀ name ∈ g.nodes.keys, parse (branchTo name) = none) :
    Moves MovedTo (movesOf (g.collapses parse) c.channelVersions.keys) c
      (g.collapseAll parse c) := by
  unfold collapseAll
  refine moves_foldl ?_ ?_ ?_ c.channelVersions.nodup_keys (fun _ h _ => h)
  · intro c chan h
    unfold collapses at h
    unfold collapseNamed
    rw [Option.map_eq_none_iff] at h
    rw [h]
  · intro c chan targets h hchan
    obtain ⟨name, hparse, hname, rfl⟩ := collapses_eq_some.mp h
    have hcollapse : g.collapseNamed parse c chan = collapse name c chan := by
      unfold collapseNamed
      simp [hparse, Option.filter, hname]
    rw [hcollapse]
    refine movedTo_collapse hchan (ne_interrupt_of_node hname) ?_
    rintro rfl
    rw [hbranch name hname] at hparse
    cases hparse
  · intro chan targets h d hd
    obtain ⟨name, -, hname, rfl⟩ := collapses_eq_some.mp h
    rw [List.mem_singleton.mp hd, collapses, hbranch name hname]
    rfl

theorem distributes_branchTo {name : String} : g.distributes (branchTo name) = none := by
  rw [distributes, if_neg]
  exact fun h => node_ne_branchTo h.2 rfl

theorem moves_distributeAll :
    Moves MovedTo (movesOf g.distributes c.channelVersions.keys) c (g.distributeAll c) := by
  have hfold : Moves MovedTo (movesOf g.distributes c.channelVersions.keys) c
      (c.channelVersions.keys.foldl g.distribute c) := by
    refine moves_foldl ?_ ?_ ?_ c.channelVersions.nodup_keys (fun _ h _ => h)
    · intro c chan h
      unfold distributes at h
      rw [distribute, if_neg]
      exact fun hno => by simp [hno] at h
    · intro c chan targets h hchan
      obtain ⟨hstart, hnode, rfl⟩ := distributes_eq_some.mp h
      exact movedTo_distribute hchan hstart hnode
    · intro chan targets h d hd
      obtain ⟨-, -, rfl⟩ := distributes_eq_some.mp h
      obtain ⟨name, -, rfl⟩ := List.mem_map.mp hd
      exact distributes_branchTo
  unfold distributeAll
  split
  · exact hfold
  · rename_i hany
    have hnil : movesOf g.distributes c.channelVersions.keys = [] := by
      refine List.eq_nil_iff_forall_not_mem.mpr ?_
      rintro ⟨chan, targets⟩ hmem
      obtain ⟨hchan, h⟩ := mem_movesOf.mp hmem
      obtain ⟨-, hnode, -⟩ := distributes_eq_some.mp h
      exact hany (List.any_eq_true.mpr ⟨chan, hnode, Dict.contains_iff.mpr hchan⟩)
    rw [hnil]
    exact .nil c

end CompiledStateGraph

end Phases

section Whole

variable {Ver : Type} [LinearOrder Ver] [OrderBot Ver] {g : CompiledStateGraph}
  {keys targets : List String} {chan name d : String} {c c' : Checkpoint Ver}

namespace CompiledStateGraph

theorem moved_cases (h : (chan, targets) ∈ g.moves keys) :
    chan ∈ keys ∧ (g.collapses startNode chan = some targets ∨
      g.collapses branchNode chan = some targets ∨ g.distributes chan = some targets) := by
  unfold moves at h
  obtain h | h := List.mem_append.mp h
  · obtain h | h := List.mem_append.mp h
    · obtain ⟨hkey, h⟩ := mem_movesOf.mp h
      exact ⟨hkey, Or.inl h⟩
    · obtain ⟨hkey, h⟩ := mem_movesOf.mp h
      exact ⟨hkey, Or.inr (Or.inl h)⟩
  · obtain ⟨hkey, h⟩ := mem_movesOf.mp h
    exact ⟨hkey, Or.inr (Or.inr h)⟩

theorem collapses_branchTo {parse : String → Option String} (h : parse (branchTo name) = none) :
    g.collapses parse (branchTo name) = none := by
  rw [collapses, h]
  rfl

theorem collapses_start_branchTo : g.collapses startNode (branchTo name) = none :=
  collapses_branchTo startNode_branchTo

theorem collapses_branch_branchTo (h : name ∈ g.nodes.keys) :
    g.collapses branchNode (branchTo name) = none :=
  collapses_branchTo (branchNode_branchTo (g.colonless name h))

theorem target_of_moved (h : (chan, targets) ∈ g.moves keys) (hd : d ∈ targets) :
    ∃ name ∈ g.nodes.keys, d = branchTo name := by
  obtain ⟨-, h | h | h⟩ := moved_cases h
  · obtain ⟨name, -, hname, rfl⟩ := collapses_eq_some.mp h
    exact ⟨name, hname, List.mem_singleton.mp hd⟩
  · obtain ⟨name, -, hname, rfl⟩ := collapses_eq_some.mp h
    exact ⟨name, hname, List.mem_singleton.mp hd⟩
  · obtain ⟨-, -, rfl⟩ := distributes_eq_some.mp h
    obtain ⟨name, hname, rfl⟩ := List.mem_map.mp hd
    exact ⟨name, node_of_mem_sourceToTarget hname, rfl⟩

theorem branchTo_not_moved (h : name ∈ g.nodes.keys) :
    branchTo name ∉ (g.moves keys).map Prod.fst := by
  intro hmem
  obtain ⟨⟨chan, targets⟩, hmem, rfl⟩ := List.mem_map.mp hmem
  obtain ⟨-, h' | h' | h'⟩ := moved_cases hmem
  · rw [collapses_start_branchTo] at h'
    cases h'
  · rw [collapses_branch_branchTo h] at h'
    cases h'
  · rw [distributes_branchTo] at h'
    cases h'

theorem collapses_branch_of_start (h : (g.collapses startNode chan).isSome = true) :
    g.collapses branchNode chan = none := by
  obtain ⟨targets, h⟩ := Option.isSome_iff_exists.mp h
  obtain ⟨name, hparse, -, -⟩ := collapses_eq_some.mp h
  rw [collapses, branchNode_of_startNode hparse]
  rfl

theorem distributes_of_colon (h : ':' ∈ chan.toList) : g.distributes chan = none := by
  rw [distributes, if_neg]
  exact fun hnode => g.colonless chan hnode.2 h

theorem distributes_of_collapses {parse : String → Option String}
    (hcolon : ∀ name, parse chan = some name → ':' ∈ chan.toList)
    (h : (g.collapses parse chan).isSome = true) : g.distributes chan = none := by
  obtain ⟨targets, h⟩ := Option.isSome_iff_exists.mp h
  obtain ⟨name, hparse, -, -⟩ := collapses_eq_some.mp h
  exact distributes_of_colon (hcolon name hparse)

theorem apart_moves (hnodup : keys.Nodup) : Apart (g.moves keys) := by
  have hdisjoint {p q : String → Bool} (h : ∀ chan, p chan = true → q chan = false) :
      (keys.filter p).Disjoint (keys.filter q) := by
    intro chan hp hq
    have hfalse := h chan (List.mem_filter.mp hp).2
    rw [(List.mem_filter.mp hq).2] at hfalse
    cases hfalse
  refine ⟨?_, ?_⟩
  · unfold moves
    rw [List.map_append, List.map_append, keys_movesOf, keys_movesOf, keys_movesOf]
    refine List.Nodup.append (List.Nodup.append (hnodup.filter _) (hnodup.filter _) ?_)
      (hnodup.filter _) ?_
    · exact hdisjoint (fun chan h => by rw [collapses_branch_of_start h]; rfl)
    · rw [List.disjoint_append_left]
      refine ⟨hdisjoint ?_, hdisjoint ?_⟩
      · intro chan h
        rw [distributes_of_collapses (fun _ => colon_of_startNode) h]
        rfl
      · intro chan h
        rw [distributes_of_collapses (fun _ => colon_of_branchNode) h]
        rfl
  · rintro ⟨chan, targets⟩ hmem d hd
    obtain ⟨name, hname, rfl⟩ := target_of_moved hmem hd
    exact branchTo_not_moved hname

theorem movesOf_congr {move : String → Option (List String)} {keys' : List String}
    (h : keys'.filter (fun k => (move k).isSome) = keys.filter (fun k => (move k).isSome)) :
    movesOf move keys' = movesOf move keys := by
  rw [← @movesOf_filter _ keys', h, movesOf_filter]

theorem moves_migrated : Moves MovedTo (g.moves c.channelVersions.keys) c
    (g.distributeAll (g.collapseAll branchNode (g.collapseAll startNode c))) := by
  have hstarts := moves_collapseAll (g := g) (c := c) (fun _ _ => startNode_branchTo)
  have hbranches := moves_collapseAll (g := g) (c := g.collapseAll startNode c)
    (fun name hname => branchNode_branchTo (g.colonless name hname))
  have hsources := moves_distributeAll (g := g)
    (c := g.collapseAll branchNode (g.collapseAll startNode c))
  have hkeys : movesOf (g.collapses branchNode) (g.collapseAll startNode c).channelVersions.keys =
      movesOf (g.collapses branchNode) c.channelVersions.keys := by
    refine movesOf_congr (filter_keys_moves hstarts ?_)
    rintro ⟨chan, targets⟩ hmem
    obtain ⟨-, h⟩ := mem_movesOf.mp hmem
    obtain ⟨name, -, hname, rfl⟩ := collapses_eq_some.mp h
    refine ⟨by rw [collapses_branch_of_start (Option.isSome_iff_exists.mpr ⟨_, h⟩)]; rfl, ?_⟩
    intro d hd
    rw [List.mem_singleton.mp hd, collapses_branch_branchTo hname]
    rfl
  rw [hkeys] at hbranches
  have hboth := hstarts.append hbranches
  have hkeys : movesOf g.distributes
        (g.collapseAll branchNode (g.collapseAll startNode c)).channelVersions.keys =
      movesOf g.distributes c.channelVersions.keys := by
    refine movesOf_congr (filter_keys_moves hboth ?_)
    rintro ⟨chan, targets⟩ hmem
    have hcases : g.distributes chan = none ∧ ∃ name, targets = [branchTo name] := by
      obtain hmem | hmem := List.mem_append.mp hmem
      · obtain ⟨-, h⟩ := mem_movesOf.mp hmem
        obtain ⟨name, hparse, -, rfl⟩ := collapses_eq_some.mp h
        exact ⟨distributes_of_colon (colon_of_startNode hparse), name, rfl⟩
      · obtain ⟨-, h⟩ := mem_movesOf.mp hmem
        obtain ⟨name, hparse, -, rfl⟩ := collapses_eq_some.mp h
        exact ⟨distributes_of_colon (colon_of_branchNode hparse), name, rfl⟩
    obtain ⟨hnone, name, rfl⟩ := hcases
    refine ⟨by rw [hnone]; rfl, ?_⟩
    intro d hd
    rw [List.mem_singleton.mp hd, distributes_branchTo]
    rfl
  rw [hkeys] at hsources
  exact hboth.append hsources

theorem moves_of_migrateCheckpoint {v : Nat} {pendingSends : List Value} (hv : v < 3)
    (h : g.migrateCheckpoint v pendingSends c = some c') :
    ∃ c₁, Graph.migrateCheckpoint v pendingSends c = some c₁ ∧
      Moves MovedTo (g.moves c₁.channelVersions.keys) c₁ c' := by
  obtain ⟨c₁, hc₁, hc'⟩ := Option.map_eq_some_iff.mp h
  refine ⟨c₁, hc₁, ?_⟩
  rw [if_neg (Nat.not_le.mpr hv)] at hc'
  split at hc'
  · rename_i hempty
    have hkeys : c₁.channelVersions.keys = [] := by
      unfold Dict.keys
      rw [hempty]
      rfl
    rw [hkeys, ← hc']
    exact .nil c₁
  · rw [← hc']
    exact moves_migrated

end CompiledStateGraph

end Whole

section Scheduling

variable {Ver : Type} [LinearOrder Ver] [OrderBot Ver]

def loaded (specs : Dict String Channel) (values : Dict String Blob) : Dict String Channel :=
  specs.filterMap (fun chan spec => some (spec.fromCheckpoint (values.get? chan)))

def Available (specs : Dict String Channel) (chan : String) (value : Option Blob) : Prop :=
  ∃ spec, specs.get? chan = some spec ∧ (spec.fromCheckpoint value).isAvailable = true

-- A node that has seen nothing yet needs no version to be triggered.
def Unseen (name : String) (c : Checkpoint Ver) (chan : String) : Prop :=
  c.versionsSeen.get? name ≠ none → seenOf name c chan < versionOf c chan

def Outruns (marker : String) (c : Checkpoint Ver) (chans marks : List String) : Prop :=
  ∃ k ∈ chans, ∀ j ∈ marks, seenOf marker c j < versionOf c k

theorem updatesSinceInterrupt_iff_unmarked {c : Checkpoint Ver} : updatesSinceInterrupt c = true ↔
    ∃ chan, seenOf Key.interrupt c chan < versionOf c chan := by
  unfold updatesSinceInterrupt
  rw [List.any_eq_true]
  constructor
  · rintro ⟨⟨chan, v⟩, hmem, hlt⟩
    refine ⟨chan, ?_⟩
    unfold versionOf Dict.getD
    rw [Dict.get?_eq_some.mpr hmem]
    exact decide_eq_true_iff.mp hlt
  · rintro ⟨chan, hlt⟩
    cases hv : c.channelVersions.get? chan with
    | none =>
      unfold versionOf Dict.getD at hlt
      rw [hv] at hlt
      exact absurd hlt not_lt_bot
    | some v =>
      refine ⟨(chan, v), Dict.get?_eq_some.mp hv, decide_eq_true ?_⟩
      unfold versionOf at hlt
      have hget : c.channelVersions.getD chan ⊥ = v := by
        unfold Dict.getD
        rw [hv]
        rfl
      rwa [hget] at hlt

theorem shouldInterrupt_same_iff {c c' : Checkpoint Ver} :
    (∀ nodes tasks, shouldInterrupt c' nodes tasks = shouldInterrupt c nodes tasks) ↔
      (updatesSinceInterrupt c' = true ↔ updatesSinceInterrupt c = true) := by
  unfold shouldInterrupt
  constructor
  · intro h
    have hall := h .all [⟨"", "", [], none, [], none, []⟩]
    cases hc : updatesSinceInterrupt c <;> cases hc' : updatesSinceInterrupt c' <;>
      simp_all [NodeSet.contains]
  · intro h nodes tasks
    rw [Bool.eq_iff_iff.mpr h]

namespace CompiledStateGraph

variable (g : CompiledStateGraph)

def isTriggered (c : Checkpoint Ver) (name : String) (proc : PregelNode) : Bool :=
  Graph.triggers (loaded g.specs c.channelValues) c.channelVersions (c.versionsSeen.get? name) ⊥ proc

def OldTrigger (name chan : String) : Prop :=
  chan = "start:" ++ name ∨
    (∃ source cond, chan = "branch:" ++ source ++ ":" ++ cond ++ ":" ++ name) ∨
    (chan, name) ∈ g.edges ∧ chan ≠ Key.start

def WasTriggered (old : Dict String Channel) (c : Checkpoint Ver) (name : String)
    (proc : PregelNode) : Prop :=
  g.isTriggered c name proc = true ∨
    ∃ chan, g.OldTrigger name chan ∧ Available old chan (c.channelValues.get? chan) ∧
      Unseen name c chan

structure Preserves (old : Dict String Channel) (c c' : Checkpoint Ver) : Prop where
  triggered : ∀ name proc, g.nodes.get? name = some proc →
    (g.isTriggered c' name proc = true ↔ g.WasTriggered old c name proc)
  interrupts : ∀ nodes tasks, shouldInterrupt c' nodes tasks = shouldInterrupt c nodes tasks

def merged (c : Checkpoint Ver) (chan : String) : List String :=
  chan :: sources id (g.moves c.channelVersions.keys) chan

def marked (c : Checkpoint Ver) (chan : String) : List String :=
  chan :: sources (List.take 1) (g.moves c.channelVersions.keys) chan

def Kept (c : Checkpoint Ver) (name : String) (proc : PregelNode) : Prop :=
  ∃ chan ∈ proc.triggers, chan ≠ branchTo name ∧
    Available g.specs chan (c.channelValues.get? chan) ∧ Unseen name c chan

def Retriggered (c : Checkpoint Ver) (name : String) (proc : PregelNode) : Prop :=
  branchTo name ∈ proc.triggers ∧
    Available g.specs (branchTo name)
      ((g.merged c (branchTo name)).findSome? c.channelValues.get?) ∧
    (c.versionsSeen.get? name ≠ none →
      Outruns name c (g.merged c (branchTo name)) (g.merged c (branchTo name)))

def Reinterrupts (c : Checkpoint Ver) : Prop :=
  ∃ chan, chan ∉ (g.moves c.channelVersions.keys).map Prod.fst ∧
    Outruns Key.interrupt c (g.merged c chan) (g.marked c chan)

variable {g} {moves : List (String × List String)} {c c' : Checkpoint Ver} {name chan : String}
  {proc : PregelNode}

theorem isTriggered_iff : g.isTriggered c name proc = true ↔
    ∃ chan ∈ proc.triggers, Available g.specs chan (c.channelValues.get? chan) ∧
      Unseen name c chan := by
  unfold isTriggered Graph.triggers
  rw [List.any_eq_true]
  refine exists_congr (fun chan => and_congr_right (fun _ => ?_))
  rw [Bool.and_eq_true]
  refine and_congr ?_ ?_
  · unfold loaded Available
    rw [Dict.get?_filterMap]
    cases g.specs.get? chan with
    | none => simp
    | some spec => simp [BaseChannel.isAvailable]
  · unfold Unseen seenOf versionOf
    cases hs : c.versionsSeen.get? name with
    | none => simp
    | some seen =>
      have hlt : (∀ _ : some seen ≠ none, (c.versionsSeen.getD name ∅).getD chan ⊥ <
          c.channelVersions.getD chan ⊥) ↔ seen.getD chan ⊥ < c.channelVersions.getD chan ⊥ := by
        unfold Dict.getD
        rw [hs]
        exact ⟨fun h => h (by simp), fun h _ => h⟩
      rw [hlt]
      simp

theorem head_of_leading {p l : List Char} {a : Char} (h : p <+: l) (hp : p.head? = some a) :
    l.head? = some a := by
  obtain ⟨q, rfl⟩ := h
  rw [List.head?_append, hp, Option.some_or]

theorem other_spec (hproc : g.nodes.get? name = some proc) (hmem : chan ∈ proc.triggers)
    (hne : chan ≠ branchTo name) : startNode chan = none ∧ branchNode chan = none ∧
      g.distributes chan = none ∧ ∀ other, chan ≠ branchTo other := by
  have hother := g.others name proc hproc chan hmem hne
  have hhead : chan.toList.head? = some '_' ∨ chan.toList.head? = some 'j' := by
    obtain rfl | hjoin := hother
    · exact Or.inl rfl
    · exact Or.inr (head_of_leading hjoin rfl)
  have hno {p : List Char} {a : Char} (hp : p.head? = some a) (h_ : a ≠ '_') (hj : a ≠ 'j') :
      ¬ p <+: chan.toList := by
    intro h
    have ha := head_of_leading h hp
    obtain hhead | hhead := hhead
    · exact h_ (Option.some.inj (ha.symm.trans hhead))
    · exact hj (Option.some.inj (ha.symm.trans hhead))
  have hbranch : ¬ "branch:".toList <+: chan.toList := hno rfl (by decide) (by decide)
  refine ⟨?_, ?_, ?_, ?_⟩
  · rw [startNode, if_neg (hno rfl (by decide) (by decide))]
  · rw [branchNode, if_neg (fun h => hbranch h.1)]
  · obtain rfl | hjoin := hother
    · rw [distributes, if_neg (fun h => h.1 rfl)]
    · exact distributes_of_colon (hjoin.subset (by decide))
  · rintro other rfl
    refine hbranch ?_
    unfold branchTo
    rw [String.toList_append]
    exact List.IsPrefix.trans (by decide) (List.prefix_append _ _)

theorem other_not_moved {keys : List String} (hproc : g.nodes.get? name = some proc)
    (hmem : chan ∈ proc.triggers) (hne : chan ≠ branchTo name) :
    chan ∉ (g.moves keys).map Prod.fst := by
  obtain ⟨hstart, hbranch, hsource, -⟩ := other_spec hproc hmem hne
  intro hkey
  obtain ⟨⟨k, targets⟩, hmoved, rfl⟩ := List.mem_map.mp hkey
  have hnone {parse : String → Option String} (h : parse k = none) :
      g.collapses parse k = none := by
    rw [collapses, h]
    rfl
  obtain ⟨-, h | h | h⟩ := moved_cases hmoved
  · rw [hnone hstart] at h
    cases h
  · rw [hnone hbranch] at h
    cases h
  · rw [hsource] at h
    cases h

theorem sources_other {keys : List String} {dest : List String → List String}
    (hdest : ∀ ds, dest ds ⊆ ds) (hproc : g.nodes.get? name = some proc)
    (hmem : chan ∈ proc.triggers) (hne : chan ≠ branchTo name) :
    sources dest (g.moves keys) chan = [] := by
  obtain ⟨-, -, -, hbranch⟩ := other_spec hproc hmem hne
  refine List.eq_nil_iff_forall_not_mem.mpr ?_
  intro k hk
  obtain ⟨targets, hmoved, hd⟩ := mem_sources.mp hk
  obtain ⟨other, -, he⟩ := target_of_moved hmoved (hdest _ hd)
  exact hbranch other he

theorem known_moves (h : Moves MovedTo moves c c') (name : String) :
    (c'.versionsSeen.get? name).isSome = (c.versionsSeen.get? name).isSome := by
  induction h with
  | nil => rfl
  | cons hmoved _ ih => rw [ih, hmoved.known name]

theorem value_moves (h : Moves MovedTo moves c c') (ha : Apart moves)
    (hchan : chan ∉ moves.map Prod.fst) : c'.channelValues.get? chan =
      (chan :: sources id moves chan).findSome? c.channelValues.get? := by
  rw [← foldl_or]
  exact h.gather id (fun c chan => c.channelValues.get? chan)
    (fun _ => List.Subset.refl _) (fun _ _ _ _ hmoved => hmoved.value) ha hchan

theorem ownBranch_subset {targets : List String} : ownBranch name targets ⊆ targets :=
  List.filter_subset_self _

theorem unseen_moves (h : Moves MovedTo moves c c') (ha : Apart moves)
    (hname : name ≠ Key.interrupt) (hchan : chan ∉ moves.map Prod.fst) :
    seenOf name c' chan < versionOf c' chan ↔
      Outruns name c (chan :: sources id moves chan)
        (chan :: sources (ownBranch name) moves chan) :=
  h.gather_lt id (ownBranch name) versionOf (seenOf name)
    (fun _ => List.Subset.refl _) (fun _ => ownBranch_subset)
    (fun _ _ _ _ hmoved => hmoved.version) (fun _ _ _ _ hmoved => hmoved.seen name hname) ha hchan

theorem unmarked_moves (h : Moves MovedTo moves c c') (ha : Apart moves)
    (hchan : chan ∉ moves.map Prod.fst) :
    seenOf Key.interrupt c' chan < versionOf c' chan ↔
      Outruns Key.interrupt c (chan :: sources id moves chan)
        (chan :: sources (List.take 1) moves chan) :=
  h.gather_lt id (List.take 1) versionOf (seenOf Key.interrupt)
    (fun _ => List.Subset.refl _) (fun _ => List.take_subset _ _)
    (fun _ _ _ _ hmoved => hmoved.version) (fun _ _ _ _ hmoved => hmoved.mark) ha hchan

theorem version_moved (h : Moves MovedTo moves c c') (ha : Apart moves)
    (hchan : chan ∈ moves.map Prod.fst) : versionOf c' chan = ⊥ := by
  refine h.gone id versionOf (fun _ => List.Subset.refl _)
    (fun _ _ _ _ hmoved => hmoved.version) ?_ ha hchan
  intro chan targets c c' hmoved
  unfold versionOf Dict.getD
  rw [hmoved.popped]
  rfl

theorem sources_ownBranch :
    sources (ownBranch name) moves (branchTo name) = sources id moves (branchTo name) := by
  unfold sources ownBranch
  simp

theorem isTriggered_migrated (h : Moves MovedTo (g.moves c.channelVersions.keys) c c')
    (hproc : g.nodes.get? name = some proc) :
    g.isTriggered c' name proc = true ↔ g.Kept c name proc ∨ g.Retriggered c name proc := by
  have ha : Apart (g.moves c.channelVersions.keys) := apart_moves c.channelVersions.nodup_keys
  have hnode : name ∈ g.nodes.keys := Dict.mem_keys.mpr ⟨proc, hproc⟩
  have hi : name ≠ Key.interrupt := ne_interrupt_of_node hnode
  have hknown : c'.versionsSeen.get? name ≠ none ↔ c.versionsSeen.get? name ≠ none := by
    rw [Option.ne_none_iff_isSome, Option.ne_none_iff_isSome, known_moves h]
  have hown : (Available g.specs (branchTo name) (c'.channelValues.get? (branchTo name)) ∧
      Unseen name c' (branchTo name)) ↔
      Available g.specs (branchTo name)
        ((g.merged c (branchTo name)).findSome? c.channelValues.get?) ∧
      (c.versionsSeen.get? name ≠ none →
        Outruns name c (g.merged c (branchTo name)) (g.merged c (branchTo name))) := by
    have hchan := @branchTo_not_moved g c.channelVersions.keys _ hnode
    unfold Unseen
    rw [hknown, unseen_moves h ha hi hchan, sources_ownBranch, value_moves h ha hchan]
    rfl
  have hother : ∀ chan ∈ proc.triggers, chan ≠ branchTo name →
      ((Available g.specs chan (c'.channelValues.get? chan) ∧ Unseen name c' chan) ↔
        Available g.specs chan (c.channelValues.get? chan) ∧ Unseen name c chan) := by
    intro chan hmem hne
    have hchan := @other_not_moved g _ _ _ c.channelVersions.keys hproc hmem hne
    have hsame : ∀ chans, Outruns name c [chan] (chan :: chans) ↔
        ∀ j ∈ chan :: chans, seenOf name c j < versionOf c chan := by
      intro chans
      simp [Outruns]
    unfold Unseen
    rw [hknown, unseen_moves h ha hi hchan, value_moves h ha hchan,
      @sources_other g _ _ _ _ id (fun _ => List.Subset.refl _) hproc hmem hne,
      sources_other (fun _ => ownBranch_subset) hproc hmem hne, hsame]
    simp
  rw [isTriggered_iff]
  constructor
  · rintro ⟨chan, hmem, hfires⟩
    by_cases hne : chan = branchTo name
    · rw [hne] at hmem hfires
      exact Or.inr ⟨hmem, hown.mp hfires⟩
    · exact Or.inl ⟨chan, hmem, hne, (hother chan hmem hne).mp hfires⟩
  · rintro (⟨chan, hmem, hne, hfires⟩ | ⟨hmem, hfires⟩)
    · exact ⟨chan, hmem, (hother chan hmem hne).mpr hfires⟩
    · exact ⟨branchTo name, hmem, hown.mpr hfires⟩

theorem updatesSinceInterrupt_migrated (h : Moves MovedTo (g.moves c.channelVersions.keys) c c') :
    updatesSinceInterrupt c' = true ↔ g.Reinterrupts c := by
  have ha : Apart (g.moves c.channelVersions.keys) := apart_moves c.channelVersions.nodup_keys
  rw [updatesSinceInterrupt_iff_unmarked]
  constructor
  · rintro ⟨chan, hlt⟩
    have hchan : chan ∉ (g.moves c.channelVersions.keys).map Prod.fst := by
      intro hmoved
      rw [version_moved h ha hmoved] at hlt
      exact not_lt_bot hlt
    exact ⟨chan, hchan, (unmarked_moves h ha hchan).mp hlt⟩
  · rintro ⟨chan, hchan, hlt⟩
    exact ⟨chan, (unmarked_moves h ha hchan).mpr hlt⟩

theorem migrateCheckpoint_preserves_iff {old : Dict String Channel} {v : Nat}
    {pendingSends : List Value} (hv : v < 3) :
    (∃ c', g.migrateCheckpoint v pendingSends c = some c' ∧ g.Preserves old c c') ↔
      ∃ c₁, Graph.migrateCheckpoint v pendingSends c = some c₁ ∧
        (∀ name proc, g.nodes.get? name = some proc →
          (g.Kept c₁ name proc ∨ g.Retriggered c₁ name proc ↔ g.WasTriggered old c name proc)) ∧
        (g.Reinterrupts c₁ ↔ ∃ chan, seenOf Key.interrupt c chan < versionOf c chan) := by
  have hspec {c₁ c' : Checkpoint Ver}
      (hmoves : Moves MovedTo (g.moves c₁.channelVersions.keys) c₁ c') :
      g.Preserves old c c' ↔
        (∀ name proc, g.nodes.get? name = some proc →
          (g.Kept c₁ name proc ∨ g.Retriggered c₁ name proc ↔ g.WasTriggered old c name proc)) ∧
        (g.Reinterrupts c₁ ↔ ∃ chan, seenOf Key.interrupt c chan < versionOf c chan) := by
    rw [← updatesSinceInterrupt_iff_unmarked, ← updatesSinceInterrupt_migrated hmoves,
      ← shouldInterrupt_same_iff]
    constructor
    · rintro ⟨htriggered, hinterrupts⟩
      refine ⟨fun name proc hproc => ?_, hinterrupts⟩
      rw [← isTriggered_migrated hmoves hproc]
      exact htriggered name proc hproc
    · rintro ⟨htriggered, hinterrupts⟩
      refine ⟨fun name proc hproc => ?_, hinterrupts⟩
      rw [isTriggered_migrated hmoves hproc]
      exact htriggered name proc hproc
  constructor
  · rintro ⟨c', hc', hpreserves⟩
    obtain ⟨c₁, hc₁, hmoves⟩ := moves_of_migrateCheckpoint hv hc'
    exact ⟨c₁, hc₁, (hspec hmoves).mp hpreserves⟩
  · rintro ⟨c₁, hc₁, hcond⟩
    obtain ⟨c', hc'⟩ : ∃ c', g.migrateCheckpoint v pendingSends c = some c' := by
      unfold migrateCheckpoint
      rw [hc₁]
      exact ⟨_, rfl⟩
    obtain ⟨c₂, hc₂, hmoves⟩ := moves_of_migrateCheckpoint hv hc'
    obtain rfl : c₁ = c₂ := Option.some.inj (hc₁.symm.trans hc₂)
    exact ⟨c', hc', (hspec hmoves).mpr hcond⟩

end CompiledStateGraph

end Scheduling

section Instances

def triggeredBy (trigger : String) : PregelNode :=
  ⟨.many [], [trigger], none, none, none, none, true⟩

def forkedGraph : CompiledStateGraph :=
  { Graph.ofSpecs (Dict.ofList
      [("branch:to:a", .ephemeralValue ⟨"branch:to:a", false, none⟩),
        ("branch:to:b", .ephemeralValue ⟨"branch:to:b", false, none⟩),
        ("branch:to:c", .ephemeralValue ⟨"branch:to:c", false, none⟩)]) with
    nodes := Dict.ofList [("a", triggeredBy "branch:to:a"), ("b", triggeredBy "branch:to:b"),
      ("c", triggeredBy "branch:to:c")]
    edges := [("a", "b"), ("a", "c")]
    nodup_edges := by decide
    colonless := by decide
    interrupt_not_node := by decide
    ends := by decide
    others := by
      intro name proc hproc chan hchan hne
      have hmem := Dict.mem_items_ofList (Dict.get?_eq_some.mp hproc)
      simp only [List.mem_cons, Prod.mk.injEq, List.not_mem_nil, or_false] at hmem
      obtain ⟨rfl, rfl⟩ | ⟨rfl, rfl⟩ | ⟨rfl, rfl⟩ := hmem
      · exact absurd (List.mem_singleton.mp hchan) hne
      · exact absurd (List.mem_singleton.mp hchan) hne
      · exact absurd (List.mem_singleton.mp hchan) hne }

def forkedOld : Dict String Channel :=
  Dict.ofList [("start:a", .ephemeralValue ⟨"start:a", true, none⟩),
    ("a", .ephemeralValue ⟨"a", true, none⟩)]

def startedCheckpoint : Checkpoint Nat :=
  ⟨"1", Dict.ofList [("start:a", .value (.str Key.start))], Dict.ofList [("start:a", 2)],
    Dict.ofList [("a", Dict.ofList [("start:a", 1)])], none⟩

theorem forkedGraph_cases {name : String} {proc : PregelNode}
    (h : forkedGraph.nodes.get? name = some proc) :
    (name = "a" ∨ name = "b" ∨ name = "c") ∧ proc = triggeredBy (branchTo name) := by
  have hmem := Dict.mem_items_ofList (Dict.get?_eq_some.mp h)
  simp only [List.mem_cons, Prod.mk.injEq, List.not_mem_nil, or_false] at hmem
  obtain ⟨rfl, rfl⟩ | ⟨rfl, rfl⟩ | ⟨rfl, rfl⟩ := hmem
  · exact ⟨Or.inl rfl, rfl⟩
  · exact ⟨Or.inr (Or.inl rfl), rfl⟩
  · exact ⟨Or.inr (Or.inr rfl), rfl⟩

theorem not_triggered_at_start {name : String} (hname : name = "b" ∨ name = "c") :
    ¬ forkedGraph.WasTriggered forkedOld startedCheckpoint name (triggeredBy (branchTo name)) := by
  rintro (h | ⟨chan, hold, ⟨spec, hspec, havailable⟩, -⟩)
  · revert h
    obtain rfl | rfl := hname <;> decide +kernel
  · have hmem := Dict.mem_items_ofList (Dict.get?_eq_some.mp hspec)
    simp only [List.mem_cons, Prod.mk.injEq, List.not_mem_nil, or_false] at hmem
    obtain ⟨rfl, rfl⟩ | ⟨rfl, rfl⟩ := hmem
    · obtain h | ⟨source, cond, h⟩ | ⟨h, -⟩ := hold
      · obtain rfl | rfl := hname <;> revert h <;> decide
      · have hhead := congrArg (fun s => s.toList.head?) h
        simp [String.toList_append] at hhead
      · obtain rfl | rfl := hname <;> revert h <;> decide
    · revert havailable
      decide +kernel

theorem started_migrates_alike : ∃ c',
    forkedGraph.migrateCheckpoint 2 [] startedCheckpoint = some c' ∧
      forkedGraph.Preserves forkedOld startedCheckpoint c' := by
  refine (CompiledStateGraph.migrateCheckpoint_preserves_iff (by decide)).mpr
    ⟨startedCheckpoint, rfl, ?_, ?_⟩
  · intro name proc hproc
    obtain ⟨hname, rfl⟩ := forkedGraph_cases hproc
    obtain rfl | hname := hname
    · refine iff_of_true (Or.inr ⟨List.mem_singleton_self _, ⟨_, rfl, by decide +kernel⟩, ?_⟩)
        (Or.inr ⟨"start:a", Or.inl (by decide), ⟨_, rfl, by decide +kernel⟩, ?_⟩)
      · exact fun _ => ⟨"start:a", by decide +kernel, by decide +kernel⟩
      · exact fun _ => by decide +kernel
    · refine iff_of_false ?_ (not_triggered_at_start hname)
      rintro (⟨chan, hmem, hne, -⟩ | ⟨-, ⟨spec, hspec, havailable⟩, -⟩)
      · exact hne (List.mem_singleton.mp hmem)
      · have hnone : ∀ name, name = "b" ∨ name = "c" → (forkedGraph.merged startedCheckpoint
            (branchTo name)).findSome? startedCheckpoint.channelValues.get? = none := by
          rintro name (rfl | rfl) <;> decide +kernel
        rw [hnone name hname] at havailable
        have hspecs : forkedGraph.specs.values.all
            (fun spec => !(spec.fromCheckpoint none).isAvailable) = true := by decide +kernel
        have hno := List.all_eq_true.mp hspecs spec (Dict.mem_values.mpr ⟨_, hspec⟩)
        rw [havailable] at hno
        cases hno
  · refine iff_of_true ⟨"branch:to:a", by decide +kernel, "start:a", by decide +kernel, ?_⟩
      ⟨"start:a", by decide +kernel⟩
    decide +kernel

example : (forkedGraph.migrateCheckpoint 2 [] startedCheckpoint).map (fun c =>
    (c.channelVersions.items, c.channelValues.keys)) =
    some ([("branch:to:a", 2)], ["branch:to:a"]) := by
  decide +kernel

-- Both targets of `a` are pending; the run was interrupted when it had last seen `a`.
def interruptedCheckpoint : Checkpoint Nat :=
  ⟨"1", Dict.ofList [("a", .value (.str "a"))], Dict.ofList [("a", 1)],
    Dict.ofList [(Key.interrupt, Dict.ofList [("a", 1)])], none⟩

theorem second_target_interrupts_again : SeenBounded interruptedCheckpoint ∧
    ¬ ∃ c', forkedGraph.migrateCheckpoint 2 [] interruptedCheckpoint = some c' ∧
      forkedGraph.Preserves forkedOld interruptedCheckpoint c' := by
  constructor
  · intro name seen chan w hseen hw
    have hmem := Dict.mem_items_ofList (Dict.get?_eq_some.mp hseen)
    obtain ⟨rfl, rfl⟩ := Prod.mk.inj (List.mem_singleton.mp hmem)
    have hmem := Dict.mem_items_ofList (Dict.get?_eq_some.mp hw)
    obtain ⟨rfl, rfl⟩ := Prod.mk.inj (List.mem_singleton.mp hmem)
    exact ⟨1, rfl, le_refl 1⟩
  · rintro ⟨c', hc', -, hinterrupts⟩
    have hboth : (forkedGraph.migrateCheckpoint 2 [] interruptedCheckpoint).all
        (fun c => updatesSinceInterrupt c) = true := by decide +kernel
    rw [hc'] at hboth
    have hbefore := (shouldInterrupt_same_iff.mp hinterrupts).mp hboth
    revert hbefore
    decide +kernel

end Instances

end LangGraph

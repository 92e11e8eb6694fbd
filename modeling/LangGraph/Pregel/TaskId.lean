import LangGraph.Pregel.Prepared
import LangGraph.Pregel.TaskPath

namespace LangGraph

open Collections

def branchTrigger (name : String) : String := "branch:to:" ++ name

def joinPrefix : List Char := ['j', 'o', 'i', 'n', ':']

-- The nodes `StateGraph.compile` attaches: `add_node` refuses a colon in their names.
structure Graph.StateNodes {C : Type} (g : Graph C) : Prop where
  start : ∀ proc, g.nodes.get? Key.start = some proc → proc.triggers = [Key.start]
  node : ∀ name proc, g.nodes.get? name = some proc → name ≠ Key.start →
    ':' ∉ name.toList ∧ ∃ joins, proc.triggers = branchTrigger name :: joins ∧
      ∀ chan ∈ joins, joinPrefix <+: chan.toList

-- The hash is taken of the parts joined without a separator.
def Graph.CollisionFree {C : Type} (g : Graph C) : Prop :=
  ∀ as bs, g.taskId as = g.taskId bs → String.join as = String.join bs

section Text

theorem separator_append_inj {α : Type} {a : α} {xs ys us vs : List α} (hx : a ∉ xs)
    (hy : a ∉ ys) (h : xs ++ a :: us = ys ++ a :: vs) : xs = ys ∧ us = vs := by
  have hrev : us.reverse ++ a :: xs.reverse = vs.reverse ++ a :: ys.reverse := by
    simpa using congrArg List.reverse h
  obtain ⟨hus, hxs⟩ := append_separator_inj (by simpa using hx) (by simpa using hy) hrev
  exact ⟨List.reverse_injective hxs, List.reverse_injective hus⟩

theorem twice_inj {α : Type} {xs ys mid : List α} (h : xs ++ mid ++ xs = ys ++ mid ++ ys) :
    xs = ys := by
  have hlen := congrArg List.length h
  simp only [List.length_append] at hlen
  have hsame : (xs ++ mid).length = (ys ++ mid).length := by
    simp only [List.length_append]
    omega
  exact (List.append_inj h hsame).2

theorem isDigit_of_mem_toString {n : Nat} {c : Char} (h : c ∈ (toString n).toList) :
    c.isDigit := by
  rw [Nat.toString_eq_repr, Nat.toList_repr] at h
  exact Nat.isDigit_of_mem_toDigits (by decide) (by decide) h

theorem toString_inj {m n : Nat} (h : (toString m).toList = (toString n).toList) : m = n := by
  rw [Nat.toString_eq_repr, Nat.toString_eq_repr, Nat.toList_repr, Nat.toList_repr] at h
  have hread (k : Nat) : Nat.ofDigitChars 10 (Nat.toDigits 10 k) 0 = k := by simp
  rw [← hread m, h, hread n]

theorem colon_not_mem_step (i : Int) : ':' ∉ (toString i).toList := by
  rw [Int.toString_eq_repr, Int.repr_eq_if]
  intro h
  split at h
  · have hd := isDigit_of_mem_toString h
    simp at hd
  · rw [String.toList_append] at h
    rcases List.mem_append.mp h with h | h
    · simp at h
    · have hd := isDigit_of_mem_toString h
      simp at hd

end Text

theorem branchTrigger_le {name chan : String} (h : joinPrefix <+: chan.toList) :
    branchTrigger name ≤ chan := by
  obtain ⟨rest, hrest⟩ := h
  have hbranch : (branchTrigger name).toList = 'b' :: ("ranch:to:" ++ name).toList := by
    simp [branchTrigger]
  refine le_of_lt (String.lt_iff_toList_lt.mpr ?_)
  rw [hbranch, ← hrest, joinPrefix, List.cons_append]
  exact List.Lex.rel (by decide)

theorem sortedTriggers_branch {proc : PregelNode} {name : String} {joins : List String}
    (ht : proc.triggers = branchTrigger name :: joins)
    (hj : ∀ chan ∈ joins, joinPrefix <+: chan.toList) :
    Graph.sortedTriggers proc = branchTrigger name :: joins.insertionSort (· ≤ ·) := by
  rw [Graph.sortedTriggers, ht, List.insertionSort_cons]
  cases hs : joins.insertionSort (· ≤ ·) with
  | nil => rfl
  | cons chan rest =>
    have hmem : chan ∈ joins := by
      rw [← List.mem_insertionSort (· ≤ ·), hs]
      exact List.mem_cons_self
    rw [List.orderedInsert_cons, if_pos (branchTrigger_le (hj chan hmem))]

namespace Graph

variable {C Ver : Type} {g : Graph C} {step : Int}

def nsPrefix (g : Graph C) : String := if g.parentNs = "" then "" else g.parentNs ++ "|"

def pushText (node : String) (step : Int) (idx : Nat) : List Char :=
  node.toList ++ (toString step).toList ++ node.toList ++ Key.push.toList ++ (toString idx).toList

def pullText (name : String) (step : Int) (triggers : List String) : List Char :=
  name.toList ++ (toString step).toList ++ name.toList ++ Key.pull.toList ++
    triggers.flatMap String.toList

theorem toList_checkpointNs (g : Graph C) (name : String) :
    (g.checkpointNs name).toList = g.nsPrefix.toList ++ name.toList := by
  unfold checkpointNs nsPrefix
  split
  · simp
  · simp

theorem toList_push (g : Graph C) (checkpointId node : String) (step : Int) (idx : Nat) :
    (String.join [checkpointId, g.checkpointNs node, toString step, node, Key.push,
      toString idx]).toList =
        checkpointId.toList ++ g.nsPrefix.toList ++ pushText node step idx := by
  simp only [String.toList_join, List.flatMap_cons, List.flatMap_nil, toList_checkpointNs, pushText,
    List.append_assoc, List.append_nil]

theorem toList_pull (g : Graph C) (checkpointId name : String) (step : Int)
    (triggers : List String) :
    (String.join ([checkpointId, g.checkpointNs name, toString step, name, Key.pull] ++
      triggers)).toList =
        checkpointId.toList ++ g.nsPrefix.toList ++ pullText name step triggers := by
  simp only [String.toList_join, List.flatMap_append, List.flatMap_cons, List.flatMap_nil,
    toList_checkpointNs, pullText, List.append_assoc, List.append_nil]

theorem pushText_inj {node node' : String} {i j : Nat}
    (h : pushText node step i = pushText node' step j) : i = j := by
  have hpush : Key.push.toList = "__pregel_pus".toList ++ ['h'] := by decide
  have hdigits (n : Nat) : 'h' ∉ (toString n).toList := by
    intro hmem
    have hd := isDigit_of_mem_toString hmem
    simp at hd
  have htext (name : String) (n : Nat) : pushText name step n =
      (name.toList ++ (toString step).toList ++ name.toList ++ "__pregel_pus".toList) ++
        'h' :: (toString n).toList := by
    rw [pushText, hpush]
    simp only [List.append_assoc, List.cons_append, List.nil_append]
  rw [htext, htext] at h
  exact toString_inj (append_separator_inj (hdigits i) (hdigits j) h).2

theorem colon_not_mem_pushText {node : String} (h : ':' ∉ node.toList) (idx : Nat) :
    ':' ∉ pushText node step idx := by
  have hdigits : ':' ∉ (toString idx).toList := by
    intro hmem
    have hd := isDigit_of_mem_toString hmem
    simp at hd
  have hpush : ':' ∉ Key.push.toList := by decide
  simp only [pushText, List.mem_append, not_or]
  exact ⟨⟨⟨⟨h, colon_not_mem_step step⟩, h⟩, hpush⟩, hdigits⟩

def beforeColon (name : String) (step : Int) : List Char :=
  name.toList ++ (toString step).toList ++ name.toList ++ (Key.pull ++ "branch").toList

theorem pullText_branch (name : String) (joins : List String) :
    pullText name step (branchTrigger name :: joins) =
      beforeColon name step ++ ':' :: ("to:" ++ name).toList ++ joins.flatMap String.toList := by
  simp [pullText, beforeColon, branchTrigger]

theorem colon_not_mem_beforeColon {name : String} (h : ':' ∉ name.toList) :
    ':' ∉ beforeColon name step := by
  have hpull : ':' ∉ (Key.pull ++ "branch").toList := by decide
  simp only [beforeColon, List.mem_append, not_or]
  exact ⟨⟨⟨h, colon_not_mem_step step⟩, h⟩, hpull⟩

theorem pullText_start (step : Int) :
    pullText Key.start step [Key.start] =
      (Key.start.toList ++ (toString step).toList ++ (Key.start ++ Key.pull).toList ++
        "__start_".toList) ++ ['_'] := by
  have hstart : Key.start.toList = "__start_".toList ++ ['_'] := by decide
  have hlast : [Key.start].flatMap String.toList = "__start_".toList ++ ['_'] := by
    rw [List.flatMap_singleton, hstart]
  rw [pullText, hlast, String.toList_append]
  simp only [List.append_assoc]

theorem pushText_ne_start {node : String} (idx : Nat) :
    pushText node step idx ≠ pullText Key.start step [Key.start] := by
  intro h
  obtain ⟨d, ds, hdigits⟩ : ∃ d ds, (toString idx).toList = ds ++ [d] := by
    rcases List.eq_nil_or_concat (toString idx).toList with hnil | ⟨ds, d, hd⟩
    · simp at hnil
    · exact ⟨d, ds, hd.trans List.concat_eq_append⟩
  rw [pullText_start, pushText, hdigits, ← List.append_assoc] at h
  have hd : d = '_' := by simpa using (List.append_inj' h rfl).2
  have hdigit : d.isDigit := isDigit_of_mem_toString (n := idx) (by rw [hdigits]; simp)
  rw [hd] at hdigit
  cases hdigit

theorem colon_not_mem_start (step : Int) : ':' ∉ pullText Key.start step [Key.start] := by
  have hstart : ':' ∉ Key.start.toList := by decide
  have hpull : ':' ∉ Key.pull.toList := by decide
  simp only [pullText, List.mem_append, not_or, List.flatMap_singleton]
  exact ⟨⟨⟨⟨hstart, colon_not_mem_step step⟩, hstart⟩, hpull⟩, hstart⟩

section Named

variable {proc proc' : PregelNode} {name name' : String}

theorem StateNodes.colon (hg : g.StateNodes) (h : g.nodes.get? name = some proc) :
    ':' ∉ name.toList := by
  by_cases hs : name = Key.start
  · rw [hs]
    decide
  · exact (hg.node name proc h hs).1

-- Only the triggers of a node other than the start node have a colon in them.
theorem StateNodes.pullText (hg : g.StateNodes) (h : g.nodes.get? name = some proc)
    (hs : name ≠ Key.start) :
    ∃ rest, Graph.pullText name step (sortedTriggers proc) =
      beforeColon name step ++ ':' :: rest := by
  obtain ⟨-, joins, ht, hj⟩ := hg.node name proc h hs
  refine ⟨("to:" ++ name).toList ++ (joins.insertionSort (· ≤ ·)).flatMap String.toList, ?_⟩
  rw [sortedTriggers_branch ht hj, pullText_branch]
  simp only [List.append_assoc, List.cons_append]

theorem StateNodes.pullText_start (hg : g.StateNodes) (h : g.nodes.get? Key.start = some proc) :
    Graph.pullText Key.start step (sortedTriggers proc) =
      Graph.pullText Key.start step [Key.start] := by
  have ht : sortedTriggers proc = [Key.start] := by
    rw [sortedTriggers, hg.start proc h]
    rfl
  rw [ht]

theorem pullText_inj (hg : g.StateNodes) (h : g.nodes.get? name = some proc)
    (h' : g.nodes.get? name' = some proc')
    (heq : Graph.pullText name step (sortedTriggers proc) =
      Graph.pullText name' step (sortedTriggers proc')) : name = name' := by
  by_cases hs : name = Key.start
  · by_cases hs' : name' = Key.start
    · rw [hs, hs']
    · obtain ⟨rest, htext⟩ := @StateNodes.pullText _ _ step _ _ hg h' hs'
      rw [hs] at h heq
      rw [hg.pullText_start h, htext] at heq
      exact absurd (heq ▸ by simp) (colon_not_mem_start step)
  · obtain ⟨rest, htext⟩ := @StateNodes.pullText _ _ step _ _ hg h hs
    by_cases hs' : name' = Key.start
    · rw [hs'] at h' heq
      rw [hg.pullText_start h', htext] at heq
      exact absurd (heq ▸ by simp) (colon_not_mem_start step)
    · obtain ⟨rest', htext'⟩ := @StateNodes.pullText _ _ step _ _ hg h' hs'
      rw [htext, htext'] at heq
      have hbefore := (separator_append_inj (colon_not_mem_beforeColon (hg.colon h))
        (colon_not_mem_beforeColon (hg.colon h')) heq).1
      exact String.toList_injective (twice_inj (List.append_cancel_right hbefore))

theorem pushText_ne_pullText (hg : g.StateNodes) (h : g.nodes.get? name = some proc)
    (h' : g.nodes.get? name' = some proc') (idx : Nat) :
    pushText name step idx ≠ Graph.pullText name' step (sortedTriggers proc') := by
  intro heq
  by_cases hs : name' = Key.start
  · rw [hs] at h' heq
    rw [hg.pullText_start h'] at heq
    exact pushText_ne_start idx heq
  · obtain ⟨rest, htext⟩ := @StateNodes.pullText _ _ step _ _ hg h' hs
    rw [htext] at heq
    exact absurd (heq ▸ by simp) (@colon_not_mem_pushText step _ (hg.colon h) idx)

end Named

section Identified

variable {forExecution : Bool} {t t' : PregelTask}

theorem pushTask_spec {checkpointId : String} {idx : Nat} {v : Value}
    (h : g.pushTask checkpointId step forExecution idx v = some t) :
    ∃ node arg proc, v = .send node arg ∧ g.nodes.get? node = some proc ∧ proc.hasNode = true ∧
      t.name = node ∧ t.path = [.str Key.push, .int idx, .bool false] ∧
      t.input = (if forExecution then some arg else none) ∧
      t.id = g.taskId
        [checkpointId, g.checkpointNs node, toString step, node, Key.push, toString idx] := by
  cases v with
  | send node arg =>
    simp only [pushTask] at h
    cases hn : g.nodes.get? node with
    | none => simp [hn] at h
    | some proc =>
      simp only [hn] at h
      split at h
      · rename_i hnode
        refine ⟨node, arg, proc, rfl, hn, hnode, ?_⟩
        split at h
        · rename_i hfor
          rw [← Option.some.inj h]
          exact ⟨rfl, rfl, (if_pos hfor).symm, rfl⟩
        · rename_i hfor
          rw [← Option.some.inj h]
          exact ⟨rfl, rfl, (if_neg hfor).symm, rfl⟩
      · cases h
  | _ => cases h

-- `checkpointNs` makes the node's name occur twice in what is hashed.
inductive Identified (g : Graph C) (checkpointId : String) (step : Int) : PregelTask → Prop
  | push {t node proc} (idx : Nat) (hn : g.nodes.get? node = some proc)
      (hp : t.path = [.str Key.push, .int idx, .bool false])
      (hid : t.id = g.taskId
        [checkpointId, g.checkpointNs node, toString step, node, Key.push, toString idx]) :
      Identified g checkpointId step t
  | pull {t name proc} (hn : g.nodes.get? name = some proc)
      (hp : t.path = [.str Key.pull, .str name])
      (hid : t.id = g.pullId checkpointId step name proc) : Identified g checkpointId step t

theorem Identified.path_of_id {checkpointId : String} (hg : g.StateNodes) (hh : g.CollisionFree)
    (h : g.Identified checkpointId step t) (h' : g.Identified checkpointId step t')
    (heq : t.id = t'.id) : t.path = t'.path := by
  have hjoin {as bs : List String} (h : g.taskId as = g.taskId bs) :
      (String.join as).toList = (String.join bs).toList := congrArg String.toList (hh as bs h)
  cases h with
  | push idx hn hp hid =>
    cases h' with
    | push idx' hn' hp' hid' =>
      rw [hid, hid'] at heq
      have htext := hjoin heq
      rw [toList_push, toList_push] at htext
      rw [hp, hp', pushText_inj (List.append_cancel_left htext)]
    | pull hn' hp' hid' =>
      rw [hid, hid'] at heq
      have htext := hjoin heq
      rw [toList_push, toList_pull] at htext
      exact absurd (List.append_cancel_left htext) (pushText_ne_pullText hg hn hn' idx)
  | pull hn hp hid =>
    cases h' with
    | push idx' hn' hp' hid' =>
      rw [hid, hid'] at heq
      have htext := hjoin heq
      rw [toList_pull, toList_push] at htext
      exact absurd (List.append_cancel_left htext).symm (pushText_ne_pullText hg hn' hn idx')
    | pull hn' hp' hid' =>
      rw [hid, hid'] at heq
      have htext := hjoin heq
      rw [toList_pull, toList_pull] at htext
      rw [hp, hp', pullText_inj hg hn hn' (List.append_cancel_left htext)]

end Identified

section Prepared

variable [BaseChannel C] {channels : Dict String C} {forExecution : Bool} {t : PregelTask}

theorem identified_pushTasks {checkpointId : String}
    (h : t ∈ g.pushTasks checkpointId channels step forExecution) :
    g.Identified checkpointId step t := by
  obtain ⟨idx, v, -, ht⟩ := mem_pushTasks h
  obtain ⟨node, arg, proc, -, hn, -, -, hp, -, hid⟩ := pushTask_spec ht
  exact .push idx hn hp hid

theorem pushTasks_path (checkpointId : String) (channels : Dict String C) :
    ((g.pushTasks checkpointId channels step forExecution).map PregelTask.path).Nodup := by
  have hindex : ((pendingSends channels).zipIdx.map Prod.snd).Pairwise (· ≠ ·) := by
    rw [List.zipIdx_map_snd]
    exact List.nodup_range'
  refine List.pairwise_map.mpr (List.Pairwise.filterMap _ ?_ (List.pairwise_map.mp hindex))
  intro p p' hne t ht t' ht' hpath
  rw [path_pushTask ht, path_pushTask ht'] at hpath
  exact hne (by simpa using hpath)

variable [LinearOrder Ver] [OrderBot Ver] {checkpoint : Checkpoint Ver}

theorem identified_preparePulls {names : List String} {cache : InputCache}
    (h : t ∈ g.preparePulls checkpoint channels step forExecution names cache) :
    g.Identified checkpoint.id step t := by
  obtain ⟨name, -, cache, ht⟩ := mem_preparePulls h
  obtain ⟨hp, proc, hn, hid⟩ := path_preparePull ht
  exact .pull hn hp hid

omit [BaseChannel C] [LinearOrder Ver] [OrderBot Ver] in
theorem nodup_candidateNodes (triggerToNodes : Option (Dict String (List String)))
    (updated : Option (Finset String)) :
    (g.candidateNodes checkpoint triggerToNodes updated).Nodup := by
  have hall : (if checkpoint.channelVersions.items = [] then [] else g.nodes.keys).Nodup := by
    split
    · exact List.nodup_nil
    · exact g.nodes.nodup
  unfold candidateNodes
  split
  · split
    · exact (List.perm_insertionSort _ _).nodup_iff.mpr (List.nodup_dedup _)
    · exact hall
  · exact hall

theorem preparePulls_path {names : List String} (hn : names.Nodup) (cache : InputCache) :
    ((g.preparePulls checkpoint channels step forExecution names cache).map
      PregelTask.path).Nodup := by
  induction names generalizing cache with
  | nil => exact List.nodup_nil
  | cons name names ih =>
    obtain ⟨hname, hnames⟩ := List.nodup_cons.mp hn
    simp only [preparePulls]
    cases hr : (g.preparePull checkpoint channels step forExecution name cache).1 with
    | none => exact ih hnames _
    | some t =>
      refine List.nodup_cons.mpr ⟨fun hmem => ?_, ih hnames _⟩
      obtain ⟨t', ht', hpath⟩ := List.mem_map.mp hmem
      obtain ⟨name', hname', cache', hpull⟩ := mem_preparePulls ht'
      rw [(path_preparePull hr).1, (path_preparePull hpull).1] at hpath
      have heq : name' = name := by simpa using hpath
      exact hname (heq ▸ hname')

def preparedPulls (g : Graph C) (checkpoint : Checkpoint Ver) (channels : Dict String C)
    (step : Int) (forExecution : Bool) (triggerToNodes : Option (Dict String (List String)))
    (updated : Option (Finset String)) : List PregelTask :=
  g.preparePulls checkpoint channels step forExecution
    (g.candidateNodes checkpoint triggerToNodes updated) []

theorem path_prepared_nodup (triggerToNodes : Option (Dict String (List String)))
    (updated : Option (Finset String)) :
    ((g.pushTasks checkpoint.id channels step forExecution ++
      g.preparedPulls checkpoint channels step forExecution triggerToNodes updated).map
        PregelTask.path).Nodup := by
  rw [List.map_append]
  refine List.nodup_append.mpr ⟨pushTasks_path _ _,
    preparePulls_path (nodup_candidateNodes _ _) [], ?_⟩
  intro path hpush path' hpull heq
  obtain ⟨t, ht, rfl⟩ := List.mem_map.mp hpush
  obtain ⟨t', ht', rfl⟩ := List.mem_map.mp hpull
  obtain ⟨idx, v, -, hv⟩ := mem_pushTasks ht
  obtain ⟨name, -, cache, hname⟩ := mem_preparePulls ht'
  rw [path_pushTask hv, (path_preparePull hname).1] at heq
  simp at heq

-- The dict keyed by task id drops no task.
theorem values_prepareNextTasks (hg : g.StateNodes) (hh : g.CollisionFree)
    (triggerToNodes : Option (Dict String (List String))) (updated : Option (Finset String)) :
    (g.prepareNextTasks checkpoint channels step forExecution triggerToNodes updated).values =
      g.pushTasks checkpoint.id channels step forExecution ++
        g.preparedPulls checkpoint channels step forExecution triggerToNodes updated := by
  obtain ⟨tasks, htasks⟩ : ∃ tasks, tasks = g.pushTasks checkpoint.id channels step forExecution ++
    g.preparedPulls checkpoint channels step forExecution triggerToNodes updated := ⟨_, rfl⟩
  have hpaths : (tasks.map PregelTask.path).Nodup := htasks ▸ path_prepared_nodup _ _
  have hidentified (t : PregelTask) (ht : t ∈ tasks) : g.Identified checkpoint.id step t := by
    rw [htasks] at ht
    rcases List.mem_append.mp ht with ht | ht
    · exact identified_pushTasks ht
    · exact identified_preparePulls ht
  have hids : ((tasks.map (fun t => (t.id, t))).map Prod.fst).Nodup := by
    rw [List.map_map]
    refine List.Nodup.map_on (fun t ht t' ht' heq => ?_) (List.Nodup.of_map _ hpaths)
    exact List.inj_on_of_nodup_map hpaths ht ht'
      ((hidentified t ht).path_of_id hg hh (hidentified t' ht') heq)
  have hprepare : g.prepareNextTasks checkpoint channels step forExecution triggerToNodes updated =
      Dict.ofList (tasks.map (fun t => (t.id, t))) := by
    rw [htasks]
    rfl
  rw [hprepare, ← htasks, Dict.values, Dict.items_ofList hids, List.map_map]
  exact List.map_id tasks

end Prepared

end Graph

end LangGraph

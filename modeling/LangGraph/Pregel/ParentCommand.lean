import LangGraph.Collections.Separated
import LangGraph.Pregel.TaskId

namespace LangGraph

open Collections

def nsSep : Char := '|'

def nsEnd : Char := ':'

def Key.parent : String := "__parent__"

-- `str.isdigit` also accepts digits outside ASCII.
structure DigitClass where
  isDigit : Char → Bool
  ascii (c : Char) : c.isDigit = true → isDigit c = true
  nsEnd : isDigit LangGraph.nsEnd = false

def DigitClass.isdigit (digits : DigitClass) (s : String) : Bool :=
  !s.toList.isEmpty && s.toList.all digits.isDigit

-- Both characters are reserved, neither may stand in the name of a node.
structure TaskSegment where
  name : String
  id : String
  name_sep : nsSep ∉ name.toList
  name_end : nsEnd ∉ name.toList
  id_sep : nsSep ∉ id.toList
  id_end : nsEnd ∉ id.toList

structure GraphRun where
  stateful : Bool
  subgraphCounter : Nat

inductive NodePath where
  | pull | push

-- A task with the tasks above it: the one that runs its graph, called it or failed before it.
inductive NestedTask where
  | outermost (path : NodePath) (segment : TaskSegment)
  | inner (path : NodePath) (segment : TaskSegment) (graph : GraphRun) (runner : NestedTask)
  | call (segment : TaskSegment) (caller : NestedTask)
  | errorHandler (segment : TaskSegment) (failed : NestedTask)

section Namespace

variable (digits : DigitClass)

def recastPart (part : String) : String := (splitText nsEnd part).headD ""

def recastParts (parts : List String) : List String :=
  (parts.filter (fun part => !digits.isdigit part)).map recastPart

def recastCheckpointNs (ns : String) : String :=
  joinText nsSep (recastParts digits (splitText nsSep ns))

def checkpointNsForParentCommand (ns : String) : String :=
  -- Drop any trailing numeric selectors for the current frame.
  let parts := (splitText nsSep ns).rdropWhile digits.isdigit
  -- Drop the current frame segment itself.
  let parts := parts.dropLast
  -- Drop any trailing numeric selectors for the parent frame.
  joinText nsSep (parts.rdropWhile digits.isdigit)

def taskCheckpointNs (parentNs : String) (segment : TaskSegment) : String :=
  let checkpointNs :=
    if parentNs = "" then segment.name
    else parentNs ++ String.singleton nsSep ++ segment.name
  checkpointNs ++ String.singleton nsEnd ++ segment.id

def GraphRun.checkpointNs (graph : GraphRun) (ns : String) : String :=
  let ns := if graph.stateful then recastCheckpointNs digits ns else ns
  if graph.subgraphCounter = 0 then ns
  else joinText nsSep [ns, toString graph.subgraphCounter]

namespace NestedTask

def segment : NestedTask → TaskSegment
  | outermost _ segment => segment
  | inner _ segment _ _ => segment
  | call segment _ => segment
  | errorHandler segment _ => segment

def name (t : NestedTask) : String := t.segment.name

def checkpointNs : NestedTask → String
  | outermost _ segment => taskCheckpointNs "" segment
  | inner _ segment graph runner =>
      taskCheckpointNs (graph.checkpointNs digits runner.checkpointNs) segment
  | call segment caller => taskCheckpointNs caller.checkpointNs segment
  | errorHandler segment failed => taskCheckpointNs failed.checkpointNs segment

-- The task of the enclosing graph that runs the graph of the task.
def runner : NestedTask → Option NestedTask
  | outermost _ _ => none
  | inner _ _ _ runner => some runner
  | call _ caller => caller.runner
  | errorHandler _ failed => failed.runner

-- The exception handling of run_with_retry: `none` when the command is for this task.
def runWithRetry (t : NestedTask) (graph : String) : Option String :=
  let ns := t.checkpointNs digits
  if graph = ns ∨ graph = recastCheckpointNs digits ns ∨ graph = t.name then none
  else if graph = Key.parent then some (checkpointNsForParentCommand digits ns)
  else some graph

-- The tasks a ParentCommand of this task is raised into, the nearest first.
mutual

def raisedInto : NestedTask → List NestedTask
  | outermost _ _ => []
  | inner _ _ _ runner => runner :: runner.raisedInto
  | call _ caller => caller :: caller.raisedInto
  | errorHandler _ failed => failed.raisedFromTick

def raisedFromTick : NestedTask → List NestedTask
  | outermost _ _ => []
  | inner _ _ _ runner => runner :: runner.raisedInto
  | call _ caller => caller.raisedFromTick
  | errorHandler _ failed => failed.raisedFromTick

end

def bubbleUp : List NestedTask → String → Option NestedTask
  | [], _ => none
  | t :: ts, graph =>
      match t.runWithRetry digits graph with
      | none => some t
      | some graph => bubbleUp ts graph

def handledBy (t : NestedTask) : Option NestedTask :=
  bubbleUp digits (t :: t.raisedInto) Key.parent

end NestedTask

end Namespace

section Parts

variable {digits : DigitClass}

theorem isdigit_nsEnd {s : String} (h : nsEnd ∈ s.toList) : digits.isdigit s = false := by
  rw [DigitClass.isdigit, Bool.and_eq_false_iff]
  refine Or.inr (List.all_eq_false.mpr ⟨nsEnd, h, ?_⟩)
  rw [digits.nsEnd]
  exact Bool.false_ne_true

theorem isdigit_empty : digits.isdigit "" = false := rfl

theorem isdigit_toString (n : Nat) : digits.isdigit (toString n) = true := by
  rw [DigitClass.isdigit, Bool.and_eq_true]
  constructor
  · rw [Nat.toString_eq_repr, Nat.toList_repr, Bool.not_eq_true', List.isEmpty_eq_false_iff]
    exact Nat.toDigits_ne_nil
  · exact List.all_eq_true.mpr (fun c hc => digits.ascii c (isDigit_of_mem_toString hc))

theorem nsSep_not_mem_toString (n : Nat) : nsSep ∉ (toString n).toList := by
  intro h
  have hd := isDigit_of_mem_toString h
  exact absurd hd (by decide)

namespace TaskSegment

def label (s : TaskSegment) : String := joinText nsEnd [s.name, s.id]

theorem nsEnd_mem_label (s : TaskSegment) : nsEnd ∈ s.label.toList := by
  simp [label, joinText]

theorem isdigit_label (s : TaskSegment) : digits.isdigit s.label = false :=
  isdigit_nsEnd s.nsEnd_mem_label

theorem nsSep_not_mem_label (s : TaskSegment) : nsSep ∉ s.label.toList := by
  intro h
  rcases mem_joinText h with hsep | ⟨p, hp, hc⟩
  · exact absurd hsep (by decide)
  · rcases List.mem_cons.mp hp with rfl | hp
    · exact s.name_sep hc
    · rw [List.mem_singleton.mp hp] at hc
      exact s.id_sep hc

theorem recastPart_label (s : TaskSegment) : recastPart s.label = s.name := by
  have hsep : Separate nsEnd [s.name, s.id] := by
    intro p hp
    rcases List.mem_cons.mp hp with rfl | hp
    · exact s.name_end
    · rw [List.mem_singleton.mp hp]
      exact s.id_end
  rw [recastPart, label, splitText_joinText_of_ne_nil hsep (List.cons_ne_nil _ _)]
  rfl

end TaskSegment

theorem recastParts_append (ps qs : List String) :
    recastParts digits (ps ++ qs) = recastParts digits ps ++ recastParts digits qs := by
  rw [recastParts, List.filter_append, List.map_append]
  rfl

theorem recastParts_label (s : TaskSegment) : recastParts digits [s.label] = [s.name] := by
  rw [recastParts, List.filter_singleton, s.isdigit_label, Bool.not_false, cond_true,
    List.map_singleton, s.recastPart_label]

theorem separate_recastParts {parts : List String} (h : Separate nsSep parts) :
    Separate nsSep (recastParts digits parts) := by
  intro q hq hc
  obtain ⟨p, hp, rfl⟩ := List.mem_map.mp hq
  exact h p (List.mem_of_mem_filter hp) (mem_of_mem_splitText (headD_mem_splitText nsEnd p) hc)

theorem nsEnd_not_mem_recastParts {parts : List String} {q : String}
    (h : q ∈ recastParts digits parts) : nsEnd ∉ q.toList := by
  obtain ⟨p, -, rfl⟩ := List.mem_map.mp h
  exact not_mem_of_mem_splitText (headD_mem_splitText nsEnd p)

theorem nsEnd_not_mem_joinText {parts : List String} (h : ∀ p ∈ parts, nsEnd ∉ p.toList) :
    nsEnd ∉ (joinText nsSep parts).toList := by
  intro hc
  rcases mem_joinText hc with hsep | ⟨p, hp, hc⟩
  · exact absurd hsep (by decide)
  · exact h p hp hc

theorem nsEnd_not_mem_recast (ns : String) :
    nsEnd ∉ (recastCheckpointNs digits ns).toList :=
  nsEnd_not_mem_joinText (fun _ h => nsEnd_not_mem_recastParts h)

theorem taskCheckpointNs_empty (s : TaskSegment) : taskCheckpointNs "" s = s.label := by
  rw [TaskSegment.label, ← List.singleton_append, joinText_concat (List.cons_ne_nil _ _),
    joinText_singleton]
  rfl

theorem taskCheckpointNs_joinText {parts : List String} (h : joinText nsSep parts ≠ "")
    (s : TaskSegment) :
    taskCheckpointNs (joinText nsSep parts) s = joinText nsSep (parts ++ [s.label]) := by
  have hne : parts ≠ [] := by
    rintro rfl
    exact h (joinText_nil nsSep)
  rw [joinText_concat hne, TaskSegment.label, ← List.singleton_append,
    joinText_concat (List.cons_ne_nil _ _), joinText_singleton, taskCheckpointNs]
  simp only [h, if_false, String.append_assoc]

-- The namespace of a task in parts; an empty namespace above it leaves no part.
theorem exists_task_parts {parts : List String} (h : Separate nsSep parts) (s : TaskSegment) :
    ∃ above, Separate nsSep above ∧
      taskCheckpointNs (joinText nsSep parts) s = joinText nsSep (above ++ [s.label]) ∧
      joinText nsSep (above.rdropWhile digits.isdigit) =
        joinText nsSep (parts.rdropWhile digits.isdigit) := by
  by_cases hempty : joinText nsSep parts = ""
  · refine ⟨[], fun _ hp => absurd hp List.not_mem_nil, ?_, ?_⟩
    · rw [hempty, taskCheckpointNs_empty, List.nil_append, joinText_singleton]
    · rcases (joinText_empty_iff h).mp hempty with rfl | rfl
      · rfl
      · rw [List.rdropWhile_singleton, isdigit_empty, List.rdropWhile_nil, joinText_nil]
        exact (joinText_singleton nsSep "").symm
  · exact ⟨parts, h, taskCheckpointNs_joinText hempty s, rfl⟩

theorem parentCommand_parts {above : List String} (h : Separate nsSep above) (s : TaskSegment) :
    checkpointNsForParentCommand digits (joinText nsSep (above ++ [s.label])) =
      joinText nsSep (above.rdropWhile digits.isdigit) := by
  have hsep : Separate nsSep (above ++ [s.label]) :=
    separate_append.mpr ⟨h, separate_singleton s.nsSep_not_mem_label⟩
  have hlabel : ¬ digits.isdigit s.label = true := by
    rw [s.isdigit_label]
    exact Bool.false_ne_true
  rw [checkpointNsForParentCommand, splitText_joinText_of_ne_nil hsep (by simp)]
  simp only [List.rdropWhile_concat_neg _ _ _ hlabel, List.dropLast_concat]

theorem recast_parts {above : List String} (h : Separate nsSep above) (s : TaskSegment) :
    recastCheckpointNs digits (joinText nsSep (above ++ [s.label])) =
      joinText nsSep (recastParts digits above ++ [s.name]) := by
  have hsep : Separate nsSep (above ++ [s.label]) :=
    separate_append.mpr ⟨h, separate_singleton s.nsSep_not_mem_label⟩
  rw [recastCheckpointNs, splitText_joinText_of_ne_nil hsep (by simp), recastParts_append,
    recastParts_label]

end Parts

namespace NestedTask

variable {digits : DigitClass}

-- What the graph run by the task with these parts is named, its counter left out.
def graphParts (digits : DigitClass) (graph : GraphRun) (above : List String) (s : TaskSegment) :
    List String :=
  if graph.stateful then recastParts digits above ++ [s.name] else above ++ [s.label]

theorem graphParts_ne_nil (graph : GraphRun) (above : List String) (s : TaskSegment) :
    graphParts digits graph above s ≠ [] := by
  rw [graphParts]
  split_ifs <;> simp

theorem separate_graphParts {above : List String} (h : Separate nsSep above) (graph : GraphRun)
    (s : TaskSegment) : Separate nsSep (graphParts digits graph above s) := by
  rw [graphParts]
  split_ifs
  · exact separate_append.mpr ⟨separate_recastParts h, separate_singleton s.name_sep⟩
  · exact separate_append.mpr ⟨h, separate_singleton s.nsSep_not_mem_label⟩

theorem exists_graph_parts {above : List String} (h : Separate nsSep above) (graph : GraphRun)
    (s : TaskSegment) :
    ∃ parts, Separate nsSep parts ∧
      graph.checkpointNs digits (joinText nsSep (above ++ [s.label])) = joinText nsSep parts ∧
      parts.rdropWhile digits.isdigit =
        (graphParts digits graph above s).rdropWhile digits.isdigit := by
  have hbase : (if graph.stateful then
        recastCheckpointNs digits (joinText nsSep (above ++ [s.label]))
      else joinText nsSep (above ++ [s.label])) =
      joinText nsSep (graphParts digits graph above s) := by
    rw [graphParts, recast_parts h]
    split_ifs <;> rfl
  have hsep := @separate_graphParts digits _ h graph s
  rw [GraphRun.checkpointNs, hbase]
  by_cases hzero : graph.subgraphCounter = 0
  · exact ⟨_, hsep, if_pos hzero, rfl⟩
  · refine ⟨graphParts digits graph above s ++ [toString graph.subgraphCounter],
      separate_append.mpr ⟨hsep, separate_singleton (nsSep_not_mem_toString _)⟩, ?_, ?_⟩
    · simp only [hzero, if_false]
      rw [joinText_concat (graphParts_ne_nil graph above s), ← List.singleton_append,
        joinText_concat (List.cons_ne_nil _ _), joinText_singleton]
    · rw [List.rdropWhile_concat_pos _ _ _ (isdigit_toString _)]

theorem exists_parts (digits : DigitClass) (t : NestedTask) :
    ∃ above, Separate nsSep above ∧
      t.checkpointNs digits = joinText nsSep (above ++ [t.segment.label]) := by
  have hsegment {above : List String} (h : Separate nsSep above) (s' s : TaskSegment) :
      ∃ above', Separate nsSep above' ∧
        taskCheckpointNs (joinText nsSep (above ++ [s'.label])) s =
          joinText nsSep (above' ++ [s.label]) := by
    obtain ⟨above', hsep, hns, -⟩ := @exists_task_parts digits _
      (separate_append.mpr ⟨h, separate_singleton s'.nsSep_not_mem_label⟩) s
    exact ⟨above', hsep, hns⟩
  induction t with
  | outermost path s =>
    refine ⟨[], fun _ hp => absurd hp List.not_mem_nil, ?_⟩
    rw [List.nil_append, joinText_singleton]
    exact taskCheckpointNs_empty s
  | inner path s graph r ih =>
    obtain ⟨above, habove, hr⟩ := ih
    obtain ⟨parts, hparts, hgraph, -⟩ := @exists_graph_parts digits _ habove graph r.segment
    obtain ⟨above', hsep, hns, -⟩ := @exists_task_parts digits _ hparts s
    refine ⟨above', hsep, ?_⟩
    rw [checkpointNs, hr, hgraph, hns]
    rfl
  | call s caller ih =>
    obtain ⟨above, habove, hcaller⟩ := ih
    rw [checkpointNs, hcaller]
    exact hsegment habove _ s
  | errorHandler s failed ih =>
    obtain ⟨above, habove, hfailed⟩ := ih
    rw [checkpointNs, hfailed]
    exact hsegment habove _ s

theorem nsEnd_mem_checkpointNs (digits : DigitClass) (t : NestedTask) :
    nsEnd ∈ (t.checkpointNs digits).toList := by
  obtain ⟨above, -, hns⟩ := exists_parts digits t
  rw [hns]
  exact mem_joinText_last _ t.segment.nsEnd_mem_label

-- For a `call` task and for an error handler the frame above is the task it came from.
theorem parentCommand_task (digits : DigitClass) (t : NestedTask) (s : TaskSegment) :
    checkpointNsForParentCommand digits (taskCheckpointNs (t.checkpointNs digits) s) =
      t.checkpointNs digits := by
  obtain ⟨above, habove, hns⟩ := exists_parts digits t
  have hsep := separate_append.mpr
    ⟨habove, separate_singleton t.segment.nsSep_not_mem_label⟩
  obtain ⟨above', hsep', htask, hdrop⟩ := @exists_task_parts digits _ hsep s
  have hlabel : ¬ digits.isdigit t.segment.label = true := by
    rw [t.segment.isdigit_label]
    exact Bool.false_ne_true
  rw [hns, htask, parentCommand_parts hsep', hdrop, List.rdropWhile_concat_neg _ _ _ hlabel]

theorem parentCommand_inner {r : NestedTask} {above : List String}
    (habove : Separate nsSep above)
    (hr : r.checkpointNs digits = joinText nsSep (above ++ [r.segment.label])) (path : NodePath)
    (s : TaskSegment) (graph : GraphRun) :
    checkpointNsForParentCommand digits ((inner path s graph r).checkpointNs digits) =
      joinText nsSep ((graphParts digits graph above r.segment).rdropWhile digits.isdigit) := by
  obtain ⟨parts, hparts, hgraph, hdropg⟩ := @exists_graph_parts digits _ habove graph r.segment
  obtain ⟨above', hsep', htask, hdrop⟩ := @exists_task_parts digits _ hparts s
  rw [checkpointNs, hr, hgraph, htask, parentCommand_parts hsep', hdrop, hdropg]

def Handles (digits : DigitClass) (t : NestedTask) (graph : String) : Prop :=
  graph = t.checkpointNs digits ∨ graph = recastCheckpointNs digits (t.checkpointNs digits) ∨
    graph = t.name

theorem runWithRetry_none_iff (t : NestedTask) (graph : String) :
    t.runWithRetry digits graph = none ↔ t.Handles digits graph := by
  rw [runWithRetry, Handles]
  split_ifs with h hp <;> simp [h]

theorem handles_parent_iff (t : NestedTask) :
    t.Handles digits Key.parent ↔ t.name = Key.parent := by
  obtain ⟨above, habove, hns⟩ := exists_parts digits t
  constructor
  · rintro (h | h | h)
    · have hmem := nsEnd_mem_checkpointNs digits t
      rw [← h] at hmem
      exact absurd hmem (by decide)
    · rw [hns, recast_parts habove, ← joinText_singleton nsSep Key.parent] at h
      have hparts := joinText_injective (separate_singleton (by decide))
        (separate_append.mpr ⟨separate_recastParts habove, separate_singleton t.segment.name_sep⟩)
        (List.cons_ne_nil _ _) (by simp) h
      have hlast := congrArg List.getLast? hparts
      rw [List.getLast?_singleton, List.getLast?_concat] at hlast
      exact (Option.some.inj hlast).symm
    · exact h.symm
  · exact fun h => Or.inr (Or.inr h.symm)

theorem handles_checkpointNs_iff (t u : NestedTask) :
    t.Handles digits (u.checkpointNs digits) ↔
      u.checkpointNs digits = t.checkpointNs digits := by
  have hmem := nsEnd_mem_checkpointNs digits u
  constructor
  · rintro (h | h | h)
    · exact h
    · rw [h] at hmem
      exact absurd hmem (nsEnd_not_mem_recast _)
    · rw [h] at hmem
      exact absurd hmem t.segment.name_end
  · exact Or.inl

-- The name of a task that runs a stateful graph is left bare, so a numeric one is dropped too.
theorem not_handles_dropped {r : NestedTask} {above : List String} (habove : Separate nsSep above)
    (hr : r.checkpointNs digits = joinText nsSep (above ++ [r.segment.label]))
    (hdigit : digits.isdigit r.name = true) :
    ¬ r.Handles digits
      (joinText nsSep ((recastParts digits above).rdropWhile digits.isdigit)) := by
  have hprefix := List.rdropWhile_prefix digits.isdigit (l := recastParts digits above)
  have hrecast := @separate_recastParts digits _ habove
  have hsep : Separate nsSep ((recastParts digits above).rdropWhile digits.isdigit) :=
    fun p hp => hrecast p (List.IsPrefix.subset hprefix hp)
  have hempty : r.name ≠ "" := by
    intro h
    rw [h, isdigit_empty] at hdigit
    cases hdigit
  rintro (h | h | h)
  · have hmem := nsEnd_mem_checkpointNs digits r
    rw [← h] at hmem
    exact absurd hmem (nsEnd_not_mem_joinText
      (fun p hp => nsEnd_not_mem_recastParts (List.IsPrefix.subset hprefix hp)))
  · have hsepX : Separate nsSep (recastParts digits above ++ [r.segment.name]) :=
      separate_append.mpr ⟨hrecast, separate_singleton r.segment.name_sep⟩
    rw [hr, recast_parts habove] at h
    by_cases hnil : (recastParts digits above).rdropWhile digits.isdigit = []
    · rw [hnil, joinText_nil] at h
      rcases (joinText_empty_iff hsepX).mp h.symm with hX | hX
      · simp at hX
      · have hlast := congrArg List.getLast? hX
        rw [List.getLast?_singleton, List.getLast?_concat] at hlast
        exact hempty (Option.some.inj hlast)
    · have hsame := joinText_injective hsep hsepX hnil (by simp) h
      have hlen := hprefix.length_le
      rw [hsame, List.length_append, List.length_singleton] at hlen
      omega
  · by_cases hnil : (recastParts digits above).rdropWhile digits.isdigit = []
    · rw [hnil, joinText_nil] at h
      exact hempty h.symm
    · have hlast := List.rdropWhile_last_not digits.isdigit _ hnil
      rw [← joinText_singleton nsSep r.name] at h
      have hsame := joinText_injective hsep (separate_singleton r.segment.name_sep) hnil
        (List.cons_ne_nil _ _) h
      simp only [hsame, List.getLast_singleton] at hlast
      exact hlast hdigit

theorem handles_inner_iff (path : NodePath) (s : TaskSegment) (graph : GraphRun)
    (r : NestedTask) :
    r.Handles digits
        (checkpointNsForParentCommand digits ((inner path s graph r).checkpointNs digits)) ↔
      ¬ (graph.stateful = true ∧ digits.isdigit r.name = true) := by
  obtain ⟨above, habove, hr⟩ := exists_parts digits r
  rw [parentCommand_inner habove hr, graphParts]
  cases hstateful : graph.stateful with
  | false =>
    have hlabel : ¬ digits.isdigit r.segment.label = true := by
      rw [r.segment.isdigit_label]
      exact Bool.false_ne_true
    rw [if_neg Bool.false_ne_true, List.rdropWhile_concat_neg _ _ _ hlabel]
    exact ⟨fun _ h => Bool.false_ne_true h.1, fun _ => Or.inl hr.symm⟩
  | true =>
    rw [if_pos rfl]
    by_cases hdigit : digits.isdigit r.name = true
    · have hname : digits.isdigit r.segment.name = true := hdigit
      rw [List.rdropWhile_concat_pos _ _ _ hname]
      exact ⟨fun h => absurd h (not_handles_dropped habove hr hdigit),
        fun h => absurd ⟨rfl, hdigit⟩ h⟩
    · have hname : ¬ digits.isdigit r.segment.name = true := hdigit
      rw [List.rdropWhile_concat_neg _ _ _ hname]
      refine ⟨fun _ h => hdigit h.2, fun _ => Or.inr (Or.inl ?_)⟩
      rw [hr, recast_parts habove]

def depth : NestedTask → Nat
  | outermost _ _ => 0
  | inner _ _ _ runner => runner.depth + 1
  | call _ caller => caller.depth + 1
  | errorHandler _ failed => failed.depth + 1

theorem runner_depth {t r : NestedTask} (h : t.runner = some r) : r.depth < t.depth := by
  induction t with
  | outermost path s => cases h
  | inner path s graph runner ih =>
    obtain rfl := Option.some.inj h
    exact Nat.lt_succ_self _
  | call s caller ih => exact Nat.lt_succ_of_lt (ih h)
  | errorHandler s failed ih => exact Nat.lt_succ_of_lt (ih h)

theorem raised_depth (t : NestedTask) :
    (∀ u ∈ t.raisedInto, u.depth < t.depth) ∧ ∀ u ∈ t.raisedFromTick, u.depth < t.depth := by
  induction t with
  | outermost path s =>
    exact ⟨fun _ h => absurd h List.not_mem_nil, fun _ h => absurd h List.not_mem_nil⟩
  | inner path s graph r ih =>
    have hframes : ∀ u ∈ r :: r.raisedInto, u.depth < r.depth + 1 := by
      intro u hu
      rcases List.mem_cons.mp hu with rfl | hu
      · exact Nat.lt_succ_self _
      · exact Nat.lt_succ_of_lt (ih.1 u hu)
    exact ⟨hframes, hframes⟩
  | call s caller ih =>
    refine ⟨fun u hu => ?_, fun u hu => Nat.lt_succ_of_lt (ih.2 u hu)⟩
    rcases List.mem_cons.mp hu with rfl | hu
    · exact Nat.lt_succ_self _
    · exact Nat.lt_succ_of_lt (ih.1 u hu)
  | errorHandler s failed ih =>
    exact ⟨fun u hu => Nat.lt_succ_of_lt (ih.2 u hu), fun u hu => Nat.lt_succ_of_lt (ih.2 u hu)⟩

theorem raisedFromTick_eq {t r : NestedTask} (h : t.runner = some r) :
    t.raisedFromTick = r :: r.raisedInto := by
  induction t with
  | outermost path s => cases h
  | inner path s graph runner ih =>
    obtain rfl := Option.some.inj h
    rfl
  | call s caller ih => exact ih h
  | errorHandler s failed ih => exact ih h

theorem bubbleUp_handled {t : NestedTask} {graph : String} (h : t.Handles digits graph)
    (ts : List NestedTask) : bubbleUp digits (t :: ts) graph = some t := by
  rw [bubbleUp, (runWithRetry_none_iff t graph).mpr h]

theorem bubbleUp_mem {ts : List NestedTask} {graph : String} {u : NestedTask}
    (h : bubbleUp digits ts graph = some u) : u ∈ ts := by
  induction ts generalizing graph with
  | nil => cases h
  | cons t ts ih =>
    rw [bubbleUp] at h
    cases hrun : t.runWithRetry digits graph with
    | none =>
      rw [hrun] at h
      obtain rfl := Option.some.inj h
      exact List.mem_cons_self
    | some graph' =>
      rw [hrun] at h
      exact List.mem_cons_of_mem t (ih h)

theorem bubbleUp_runner_iff (r : NestedTask) (graph : String) :
    bubbleUp digits (r :: r.raisedInto) graph = some r ↔ r.Handles digits graph := by
  constructor
  · intro h
    by_contra hnot
    cases hrun : r.runWithRetry digits graph with
    | none => exact hnot ((runWithRetry_none_iff r graph).mp hrun)
    | some graph' =>
      rw [bubbleUp, hrun] at h
      have hlt := (raised_depth r).1 r (bubbleUp_mem h)
      exact absurd hlt (Nat.lt_irrefl _)
  · exact fun h => bubbleUp_handled h _

theorem handledBy_eq {t : NestedTask} (h : t.name ≠ Key.parent) :
    t.handledBy digits =
      bubbleUp digits t.raisedInto
        (checkpointNsForParentCommand digits (t.checkpointNs digits)) := by
  have hnot : ¬ t.Handles digits Key.parent := fun hh => h ((handles_parent_iff t).mp hh)
  have hrun : t.runWithRetry digits Key.parent =
      some (checkpointNsForParentCommand digits (t.checkpointNs digits)) := by
    rw [runWithRetry]
    exact (if_neg hnot).trans (if_pos rfl)
  rw [handledBy, bubbleUp, hrun]

theorem handledBy_itself {t : NestedTask} (h : t.name = Key.parent) :
    t.handledBy digits = some t :=
  bubbleUp_handled ((handles_parent_iff t).mpr h) _

def HandledByRunner (digits : DigitClass) (t : NestedTask) : Prop :=
  ∀ r, t.runner = some r → t.handledBy digits = some r

def RunnerNamed (digits : DigitClass) (r : NestedTask) : NestedTask → Prop
  | outermost _ _ => True
  | inner _ _ graph _ => ¬ (graph.stateful = true ∧ digits.isdigit r.name = true)
  | call _ _ => False
  | errorHandler _ failed => failed.checkpointNs digits = r.checkpointNs digits

theorem parent_command_handled_iff (digits : DigitClass) (t : NestedTask) :
    HandledByRunner digits t ↔
      ∀ r, t.runner = some r → t.name ≠ Key.parent ∧ RunnerNamed digits r t := by
  refine forall_congr' fun r => imp_congr_right fun hr => ?_
  have hdepth := runner_depth hr
  by_cases hname : t.name = Key.parent
  · rw [handledBy_itself hname]
    refine ⟨fun h => ?_, fun h => absurd hname h.1⟩
    rw [Option.some.inj h] at hdepth
    exact absurd hdepth (Nat.lt_irrefl _)
  · rw [handledBy_eq hname, and_iff_right hname]
    cases t with
    | outermost path s => cases hr
    | inner path s graph runner =>
      obtain rfl := Option.some.inj hr
      rw [raisedInto, bubbleUp_runner_iff]
      exact handles_inner_iff path s graph runner
    | call s caller =>
      have hcaller : caller.Handles digits
          (checkpointNsForParentCommand digits ((call s caller).checkpointNs digits)) := by
        rw [checkpointNs, parentCommand_task]
        exact Or.inl rfl
      rw [raisedInto, bubbleUp_handled hcaller]
      refine ⟨fun h => ?_, False.elim⟩
      have hlt := @runner_depth caller r hr
      rw [Option.some.inj h] at hlt
      exact absurd hlt (Nat.lt_irrefl _)
    | errorHandler s failed =>
      have htick : failed.raisedFromTick = r :: r.raisedInto := raisedFromTick_eq hr
      rw [raisedInto, htick, bubbleUp_runner_iff, checkpointNs, parentCommand_task]
      exact handles_checkpointNs_iff r failed

def asciiDigits : DigitClass := ⟨Char.isDigit, fun _ h => h, rfl⟩

def parentSegment : TaskSegment :=
  ⟨"parent", "0", by decide, by decide, by decide, by decide⟩

def childSegment : TaskSegment :=
  ⟨"child", "1", by decide, by decide, by decide, by decide⟩

def handlerSegment : TaskSegment :=
  ⟨"handler", "2", by decide, by decide, by decide, by decide⟩

-- The error handler of a node of a subgraph answers with a command for the parent graph.
def subgraphHandler : NestedTask :=
  errorHandler handlerSegment
    (inner .pull childSegment ⟨false, 0⟩ (outermost .pull parentSegment))

theorem error_handler_command_escapes :
    ¬ ∀ (digits : DigitClass) (t : NestedTask), HandledByRunner digits t := by
  intro h
  have hreached := h asciiDigits subgraphHandler (outermost .pull parentSegment) rfl
  have hescapes : (subgraphHandler.handledBy asciiDigits).isNone = true := by decide +kernel
  rw [hreached] at hescapes
  cases hescapes

end NestedTask

end LangGraph

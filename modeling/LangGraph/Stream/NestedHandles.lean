import LangGraph.Stream.Subgraphs
import Mathlib.Data.List.Infix

namespace LangGraph

namespace Stream

namespace Subgraphs

variable {t : Subgraphs} {seg : String}

theorem get_map (f : HandleInfo × Subgraphs → HandleInfo × Subgraphs)
    (handles : List (String × HandleInfo × Subgraphs)) (seg : String) :
    (mk (handles.map (fun h => (h.1, f h.2)))).get seg = ((mk handles).get seg).map f := by
  induction handles with
  | nil => rfl
  | cons h rest ih =>
    simp only [get, handles, List.map_cons, List.find?_cons] at ih ⊢
    cases decide (h.1 = seg) with
    | true => rfl
    | false => exact ih

theorem get_modify (f : HandleInfo × Subgraphs → HandleInfo × Subgraphs) (t : Subgraphs)
    (seg seg' : String) :
    (t.modify seg f).get seg' = if seg' = seg then (t.get seg).map f else t.get seg' := by
  obtain ⟨handles⟩ := t
  have hmap : (mk handles).modify seg f =
      mk (handles.map (fun h => (h.1, if h.1 = seg then f h.2 else h.2))) := by
    simp only [modify, Subgraphs.handles]
    congr 2
    funext h
    split <;> rfl
  rw [hmap]
  clear hmap
  induction handles with
  | nil => simp [get, Subgraphs.handles]
  | cons h rest ih =>
    simp only [get, Subgraphs.handles, List.map_cons, List.find?_cons] at ih ⊢
    rcases eq_or_ne h.1 seg' with heq | hne
    · subst heq
      rcases eq_or_ne h.1 seg with heq' | hne'
      · subst heq'
        simp
      · simp [hne']
    · rcases eq_or_ne h.1 seg with heq' | hne'
      · subst heq'
        simp only [hne, decide_false, hne.symm, if_false] at ih ⊢
        exact ih
      · simp only [hne, hne', decide_false] at ih ⊢
        exact ih

theorem get_concat (handles : List (String × HandleInfo × Subgraphs)) (seg seg' : String)
    (child : HandleInfo × Subgraphs) :
    (mk (handles ++ [(seg, child)])).get seg' =
      ((mk handles).get seg').or (if seg' = seg then some child else none) := by
  simp only [get, Subgraphs.handles, List.find?_append, Option.map_or]
  rcases eq_or_ne seg' seg with rfl | hne
  · simp
  · simp [hne, hne.symm]

theorem get_handleTaskStart (data : TaskStart) (t : Subgraphs) (seg seg' : String) :
    (t.handleTaskStart seg data).get seg' =
      if seg' = seg then some ((t.get seg).getD (newHandle seg data)) else t.get seg' := by
  obtain ⟨handles⟩ := t
  simp only [handleTaskStart, Subgraphs.handles]
  rcases eq_or_ne seg' seg with rfl | hne
  · cases hget : (mk handles).get seg' with
    | some child => simp [hget]
    | none => simp [get_concat, hget]
  · cases hget : (mk handles).get seg with
    | some child => simp [hne]
    | none => simp [get_concat, hne]

theorem finishHandles_eq (outcome : Outcome) (handles : List (String × HandleInfo × Subgraphs)) :
    finishHandles outcome handles = handles.map (fun h => (h.1, markTerminal outcome h.2.1,
      if h.2.1.terminal then h.2.2 else h.2.2.finish outcome)) := by
  induction handles with
  | nil => rfl
  | cons h rest ih => rw [finishHandles, ih, List.map_cons]

theorem get_finish (outcome : Outcome) (t : Subgraphs) (seg : String) :
    (t.finish outcome).get seg = (t.get seg).map (fun child =>
      (markTerminal outcome child.1,
        if child.1.terminal then child.2 else child.2.finish outcome)) := by
  obtain ⟨handles⟩ := t
  rw [finish, finishHandles_eq]
  exact get_map (fun child => (markTerminal outcome child.1,
    if child.1.terminal then child.2 else child.2.finish outcome)) handles seg

theorem get_popTerminalTransitions (data : TaskResult) (t : Subgraphs) (seg : String) :
    (t.popTerminalTransitions data).get seg = (t.get seg).map (popChild data) := by
  obtain ⟨handles⟩ := t
  exact get_map _ handles seg

-- The handles on a path, from the outermost one down to the first that is missing.
def spine : List String → Subgraphs → List HandleInfo
  | [], _ => []
  | seg :: rest, t =>
      match t.get seg with
      | none => []
      | some (info, sub) => info :: spine rest sub

theorem spine_cons {rest : List String} :
    t.spine (seg :: rest) =
      ((t.get seg).map (fun child => child.1 :: child.2.spine rest)).getD [] := by
  cases hget : t.get seg with
  | none => simp [spine, hget]
  | some child => simp [spine, hget]

theorem spine_empty (path : List String) : empty.spine path = [] := by
  cases path <;> rfl

theorem lookup_take {path : List String} {k : Nat} (hk : k < path.length) (t : Subgraphs) :
    t.lookup (path.take (k + 1)) = (t.spine path)[k]? := by
  induction path generalizing t k with
  | nil => cases hk
  | cons seg rest ih =>
    rw [spine_cons]
    cases k with
    | zero =>
      cases hget : t.get seg with
      | none => simp [lookup, hget]
      | some child => simp [lookup, hget]
    | succ k =>
      have hk' : k < rest.length := by simpa using hk
      have hne : rest.take (k + 1) ≠ [] := by
        intro hnil
        have hlength := congrArg List.length hnil
        simp only [List.length_take, List.length_nil] at hlength
        omega
      have hlookup : t.lookup (seg :: rest.take (k + 1)) =
          (t.get seg).bind (fun child => child.2.lookup (rest.take (k + 1))) := by
        cases hrest : rest.take (k + 1) with
        | nil => exact absurd hrest hne
        | cons s ss => rfl
      rw [List.take_succ_cons, hlookup]
      cases hget : t.get seg with
      | none => rfl
      | some child => exact ih hk' child.2

theorem length_spine_le (path : List String) (t : Subgraphs) :
    (t.spine path).length ≤ path.length := by
  induction path generalizing t with
  | nil => exact Nat.le_refl 0
  | cons seg rest ih =>
    rw [spine_cons]
    cases t.get seg with
    | none => exact Nat.zero_le _
    | some child => exact Nat.succ_le_succ (ih child.2)

def finishSpine (outcome : Outcome) : List HandleInfo → List HandleInfo
  | [] => []
  | info :: rest =>
      markTerminal outcome info :: if info.terminal then rest else finishSpine outcome rest

theorem spine_finish (outcome : Outcome) (path : List String) (t : Subgraphs) :
    (t.finish outcome).spine path = finishSpine outcome (t.spine path) := by
  induction path generalizing t with
  | nil => rfl
  | cons seg rest ih =>
    rw [spine_cons, spine_cons, get_finish]
    cases t.get seg with
    | none => rfl
    | some child =>
      simp only [Option.map_some, Option.getD_some, finishSpine, List.cons.injEq, true_and]
      split
      · rfl
      · exact ih child.2

def popSpine (data : TaskResult) : List HandleInfo → List HandleInfo
  | [] => []
  | info :: rest =>
      if data.id.getD "" ≠ "" ∧ info.waits = data.id then
        markTerminal (terminalFromResult data) info ::
          if info.terminal then rest
          else finishSpine (cascade (terminalFromResult data)) rest
      else info :: rest

theorem spine_popTerminalTransitions (data : TaskResult) (path : List String) (t : Subgraphs) :
    (t.popTerminalTransitions data).spine path = popSpine data (t.spine path) := by
  cases path with
  | nil => rfl
  | cons seg rest =>
    rw [spine_cons, spine_cons, get_popTerminalTransitions]
    cases t.get seg with
    | none => rfl
    | some child =>
      simp only [Option.map_some, Option.getD_some, popChild, popSpine]
      split
      · simp only [List.cons.injEq, true_and]
        split
        · rfl
        · exact spine_finish _ rest child.2
      · rfl

theorem get_openChild_ne {seg' : String} (hne : seg' ≠ seg) (data : TaskData)
    (rest : List String) (t : Subgraphs) : (t.openChild data seg rest).get seg' = t.get seg' := by
  simp only [openChild]
  split
  · rw [get_handleTaskStart, if_neg hne]
  · rfl

theorem get_process_ne {seg' : String} (hne : seg' ≠ seg) (data : TaskData) (rest : List String)
    (t : Subgraphs) : (t.process data (seg :: rest)).get seg' = t.get seg' := by
  simp only [process]
  split
  · exact get_openChild_ne hne data rest t
  · split
    · exact get_openChild_ne hne data rest t
    · rw [get_modify, if_neg hne]
      exact get_openChild_ne hne data rest t

theorem get_process_self (data : TaskData) (rest : List String) (t : Subgraphs) :
    (t.process data (seg :: rest)).get seg =
      ((t.openChild data seg rest).get seg).map (fun child =>
        (child.1, if child.1.terminal then child.2 else child.2.process data rest)) := by
  simp only [process]
  cases hget : (t.openChild data seg rest).get seg with
  | none => simpa using hget
  | some child =>
    obtain ⟨info, sub⟩ := child
    cases hterminal : info.terminal with
    | true => simp [hget, hterminal]
    | false => simp [hget, hterminal, get_modify]

theorem spine_process_ne {s : String} (hne : s ≠ seg) (data : TaskData) (rest path : List String)
    (t : Subgraphs) : (t.process data (seg :: rest)).spine (s :: path) = t.spine (s :: path) := by
  rw [spine_cons, spine_cons, get_process_ne hne]

theorem spine_process_self (data : TaskData) (rest path : List String) (t : Subgraphs) :
    (t.process data (seg :: rest)).spine (seg :: path) =
      (((t.openChild data seg rest).get seg).map (fun child => child.1 ::
        if child.1.terminal then child.2.spine path
        else (child.2.process data rest).spine path)).getD [] := by
  rw [spine_cons, get_process_self]
  cases (t.openChild data seg rest).get seg with
  | none => rfl
  | some child =>
    simp only [Option.map_some, Option.getD_some, List.cons.injEq, true_and]
    split <;> rfl

def AllLive (infos : List HandleInfo) : Prop := ∀ info ∈ infos, info.terminal = false

theorem allLive_cons {info : HandleInfo} {infos : List HandleInfo} :
    AllLive (info :: infos) ↔ info.terminal = false ∧ AllLive infos :=
  List.forall_mem_cons

section Start

variable {data : TaskStart}

-- A start event touches a path only to add the first missing handle below live ones.
theorem spine_start_cases (event path : List String) (t : Subgraphs) :
    (t.process (.start data) event).spine path = t.spine path ∨
      ∃ k seg, event = path.take (k + 1) ∧ event.getLast? = some seg ∧
        (t.spine path).length = k ∧ k < path.length ∧ AllLive (t.spine path) ∧
        (t.process (.start data) event).spine path =
          t.spine path ++ [(newHandle seg data).1] := by
  induction event generalizing path t with
  | nil => exact .inl rfl
  | cons seg rest ih =>
    cases path with
    | nil => exact .inl rfl
    | cons s path =>
      rcases eq_or_ne s seg with rfl | hne
      · rw [spine_process_self, spine_cons]
        cases rest with
        | nil =>
          rw [openChild, get_handleTaskStart, if_pos rfl]
          cases hget : t.get s with
          | some child => simp [process]
          | none =>
            right
            refine ⟨0, s, by simp, rfl, rfl, by simp, List.forall_mem_nil _, ?_⟩
            simp [newHandle, process, spine_empty]
        | cons r rest =>
          have hopen : t.openChild (.start data) s (r :: rest) = t := rfl
          rw [hopen]
          cases hget : t.get s with
          | none => exact .inl rfl
          | some child =>
            simp only [Option.map_some, Option.getD_some]
            cases hterminal : child.1.terminal with
            | true => simp
            | false =>
              rcases ih path child.2 with hsame | ⟨k, seg, htake, hlast, hlength, hk, hlive, hnew⟩
              · left
                simp [hsame]
              · right
                refine ⟨k + 1, seg, ?_, ?_, ?_, ?_, allLive_cons.mpr ⟨hterminal, hlive⟩, ?_⟩
                · rw [List.take_succ_cons, ← htake]
                · simpa using hlast
                · simp [hlength]
                · simpa using hk
                · simp [hnew]
      · exact .inl (spine_process_ne hne _ rest path t)

theorem spine_start_at {path : List String} {t : Subgraphs} {k : Nat} (hk : k < path.length)
    (hlength : (t.spine path).length = k) (hlive : AllLive (t.spine path)) :
    ∃ seg, (path.take (k + 1)).getLast? = some seg ∧
      (t.process (.start data) (path.take (k + 1))).spine path =
        t.spine path ++ [(newHandle seg data).1] := by
  induction path generalizing t k with
  | nil => cases hk
  | cons s path ih =>
    rw [List.take_succ_cons, spine_process_self]
    rw [spine_cons] at hlength hlive ⊢
    cases hget : t.get s with
    | none =>
      rw [hget] at hlength
      have hzero : k = 0 := by simpa using hlength.symm
      subst hzero
      refine ⟨s, by simp, ?_⟩
      simp [openChild, get_handleTaskStart, hget, newHandle, process, spine_empty]
    | some child =>
      rw [hget] at hlength hlive
      obtain ⟨hterminal, hlive⟩ := allLive_cons.mp hlive
      cases k with
      | zero => cases hlength
      | succ k =>
        have hk : k < path.length := by simpa using hk
        have hlength : (child.2.spine path).length = k := by simpa using hlength
        obtain ⟨seg, hlast, hnew⟩ := ih hk hlength hlive
        have hopen : t.openChild (.start data) s (path.take (k + 1)) = t := by
          cases htake : path.take (k + 1) with
          | nil =>
            rw [htake] at hlast
            cases hlast
          | cons r rest => rfl
        refine ⟨seg, ?_, ?_⟩
        · rw [List.getLast?_cons, hlast]
          rfl
        · simp [hopen, hget, hterminal, hnew]

end Start

section Result

variable {data : TaskResult}

theorem spine_result_cases (event path : List String) (t : Subgraphs) :
    (t.process (.result data) event).spine path = t.spine path ∨
      ∃ k, event = path.take k ∧ k < (t.spine path).length ∧ AllLive ((t.spine path).take k) ∧
        (t.process (.result data) event).spine path =
          (t.spine path).take k ++ popSpine data ((t.spine path).drop k) := by
  induction event generalizing path t with
  | nil =>
    rw [process, spine_popTerminalTransitions]
    cases hspine : t.spine path with
    | nil => exact .inl rfl
    | cons info rest =>
      right
      exact ⟨0, by simp, by simp, by simp [AllLive], by simp⟩
  | cons seg rest ih =>
    cases path with
    | nil => exact .inl rfl
    | cons s path =>
      rcases eq_or_ne s seg with rfl | hne
      · have hopen : t.openChild (.result data) s rest = t := rfl
        rw [spine_process_self, spine_cons, hopen]
        cases hget : t.get s with
        | none => exact .inl rfl
        | some child =>
          simp only [Option.map_some, Option.getD_some]
          cases hterminal : child.1.terminal with
          | true => simp
          | false =>
            rcases ih path child.2 with hsame | ⟨k, htake, hk, hlive, hnew⟩
            · left
              simp [hsame]
            · right
              refine ⟨k + 1, ?_, ?_, ?_, ?_⟩
              · rw [List.take_succ_cons, ← htake]
              · simpa using hk
              · rw [List.take_succ_cons]
                exact allLive_cons.mpr ⟨hterminal, hlive⟩
              · simp [hnew]
      · exact .inl (spine_process_ne hne _ rest path t)

theorem spine_result_at {path : List String} {t : Subgraphs} {k : Nat} (hk : k ≤ path.length)
    (hlength : k ≤ (t.spine path).length) (hlive : AllLive ((t.spine path).take k)) :
    (t.process (.result data) (path.take k)).spine path =
      (t.spine path).take k ++ popSpine data ((t.spine path).drop k) := by
  induction path generalizing t k with
  | nil =>
    have hzero : k = 0 := by simpa using hk
    subst hzero
    rfl
  | cons s path ih =>
    cases k with
    | zero =>
      simp only [List.take_zero, List.drop_zero, List.nil_append]
      exact spine_popTerminalTransitions data (s :: path) t
    | succ k =>
      have hopen : t.openChild (.result data) s (path.take k) = t := rfl
      rw [List.take_succ_cons, spine_process_self, hopen]
      rw [spine_cons] at hlength hlive ⊢
      cases hget : t.get s with
      | none =>
        rw [hget] at hlength
        cases hlength
      | some child =>
        rw [hget] at hlength hlive
        obtain ⟨hterminal, hlive⟩ := allLive_cons.mp hlive
        have hnew := ih (by simpa using hk) (by simpa using hlength) hlive
        simp [hterminal, hnew]

end Result

end Subgraphs

end Stream

end LangGraph

import LangGraph.Stream.Lifecycle
import LangGraph.Stream.NestedHandles

namespace LangGraph

open Transition

namespace Stream

open LifecycleTransformer Subgraphs

-- The status that a namespace still open gets from the rest of the run.
def futureStatus (ns : Namespace) (taskId : String) (ending : Ending) :
    List TaskEvent → SubgraphStatus
  | [] => ending.outcome.1
  | event :: es =>
      match event.data with
      | .start _ => futureStatus ns taskId ending es
      | .result data =>
          if closedBy event.ns data.id (ns, taskId) then (terminalFromResult data).1
          else futureStatus ns taskId ending es

section Spines

variable {infos : List HandleInfo} {outcome : Outcome} {info : HandleInfo} {i : Nat}

-- Below a handle that is done every handle is done.
def Descending (infos : List HandleInfo) : Prop :=
  infos.Pairwise (fun x y => x.terminal = true → y.terminal = true)

theorem terminal_markTerminal (outcome : Outcome) (info : HandleInfo) :
    (markTerminal outcome info).terminal = true := by
  simp only [markTerminal]
  split
  · assumption
  · rfl

theorem status_markTerminal_dead (h : info.terminal = true) :
    (markTerminal outcome info).status = info.status := by
  simp [markTerminal, h]

theorem status_markTerminal_live (h : info.terminal = false) :
    (markTerminal outcome info).status = outcome.1 := by
  simp [markTerminal, h]

theorem length_finishSpine (outcome : Outcome) (infos : List HandleInfo) :
    (finishSpine outcome infos).length = infos.length := by
  induction infos with
  | nil => rfl
  | cons info rest ih =>
    simp only [finishSpine, List.length_cons]
    split
    · rfl
    · rw [ih]

theorem length_popSpine (data : TaskResult) (infos : List HandleInfo) :
    (popSpine data infos).length = infos.length := by
  cases infos with
  | nil => rfl
  | cons info rest =>
    simp only [popSpine]
    split
    · simp only [List.length_cons]
      split
      · rfl
      · rw [length_finishSpine]
    · rfl

theorem finishSpine_dead (hget : infos[i]? = some info) (h : info.terminal = true) :
    ∃ info', (finishSpine outcome infos)[i]? = some info' ∧ info'.terminal = true ∧
      info'.status = info.status := by
  induction infos generalizing i with
  | nil => cases hget
  | cons first rest ih =>
    cases i with
    | zero =>
      cases hget
      exact ⟨markTerminal outcome info, rfl, terminal_markTerminal outcome info,
        status_markTerminal_dead h⟩
    | succ i =>
      simp only [finishSpine]
      split
      · exact ⟨info, hget, h, rfl⟩
      · exact ih hget

theorem Descending.tail {first : HandleInfo} (h : Descending (first :: infos)) :
    Descending infos :=
  (List.pairwise_cons.mp h).2

theorem Descending.head_live {first : HandleInfo} (h : Descending (first :: infos))
    (hget : (first :: infos)[i]? = some info) (hlive : info.terminal = false) :
    first.terminal = false := by
  refine Bool.eq_false_iff.mpr fun hfirst => ?_
  cases i with
  | zero =>
    cases hget
    rw [hlive] at hfirst
    cases hfirst
  | succ i =>
    have hterminal := (List.pairwise_cons.mp h).1 info (List.mem_of_getElem? hget) hfirst
    rw [hlive] at hterminal
    cases hterminal

theorem Descending.allLive_take (h : Descending infos) (hget : infos[i]? = some info)
    (hlive : info.terminal = false) : AllLive (infos.take (i + 1)) := by
  induction infos generalizing i with
  | nil => cases hget
  | cons first rest ih =>
    rw [List.take_succ_cons]
    refine allLive_cons.mpr ⟨h.head_live hget hlive, ?_⟩
    cases i with
    | zero => exact List.forall_mem_nil _
    | succ i => exact ih h.tail hget

theorem finishSpine_live (hd : Descending infos) (hget : infos[i]? = some info)
    (h : info.terminal = false) :
    (finishSpine outcome infos)[i]? = some (markTerminal outcome info) := by
  induction infos generalizing i with
  | nil => cases hget
  | cons first rest ih =>
    have hfirst : first.terminal = false := hd.head_live hget h
    simp only [finishSpine, hfirst, Bool.false_eq_true, if_false]
    cases i with
    | zero =>
      cases hget
      rfl
    | succ i => exact ih hd.tail hget

theorem finishSpine_terminal (hd : Descending infos) :
    ∀ x ∈ finishSpine outcome infos, x.terminal = true := by
  induction infos with
  | nil => exact List.forall_mem_nil _
  | cons first rest ih =>
    rw [finishSpine]
    refine List.forall_mem_cons.mpr ⟨terminal_markTerminal outcome first, ?_⟩
    split
    · rename_i hfirst
      exact fun x hx => (List.pairwise_cons.mp hd).1 x hx hfirst
    · exact ih hd.tail

theorem descending_of_terminal (h : ∀ x ∈ infos, x.terminal = true) : Descending infos :=
  List.pairwise_of_forall_mem_list fun _ _ y hy _ => h y hy

theorem descending_append {live rest : List HandleInfo} (hlive : AllLive live)
    (h : Descending rest) : Descending (live ++ rest) := by
  refine List.pairwise_append.mpr ⟨?_, h, fun x hx y _ hterminal => ?_⟩
  · refine List.pairwise_of_forall_mem_list fun x hx y _ hterminal => ?_
    rw [hlive x hx] at hterminal
    cases hterminal
  · rw [hlive x hx] at hterminal
    cases hterminal

theorem popSpine_dead {data : TaskResult} (hget : infos[i]? = some info)
    (h : info.terminal = true) :
    ∃ info', (popSpine data infos)[i]? = some info' ∧ info'.terminal = true ∧
      info'.status = info.status := by
  cases infos with
  | nil => cases hget
  | cons first rest =>
    simp only [popSpine]
    split
    · cases i with
      | zero =>
        cases hget
        exact ⟨_, rfl, terminal_markTerminal _ info, status_markTerminal_dead h⟩
      | succ i =>
        split
        · exact ⟨info, hget, h, rfl⟩
        · exact finishSpine_dead (i := i) hget h
    · exact ⟨info, hget, h, rfl⟩

theorem descending_popSpine {data : TaskResult} (hd : Descending infos) :
    Descending (popSpine data infos) := by
  cases infos with
  | nil => exact hd
  | cons first rest =>
    simp only [popSpine]
    split
    · refine descending_of_terminal (List.forall_mem_cons.mpr
        ⟨terminal_markTerminal _ first, ?_⟩)
      split
      · rename_i hfirst
        exact fun x hx => (List.pairwise_cons.mp hd).1 x hx hfirst
      · exact finishSpine_terminal hd.tail
    · exact hd

section Popped

variable {data : TaskResult} {k n : Nat}

theorem length_popped (data : TaskResult) (infos : List HandleInfo) (k : Nat) :
    (infos.take k ++ popSpine data (infos.drop k)).length = infos.length := by
  rw [List.length_append, length_popSpine, ← List.length_append, List.take_append_drop]

theorem getElem_popped (hle : k ≤ n) (hk : k < infos.length) :
    (infos.take k ++ popSpine data (infos.drop k))[n]? =
      (popSpine data (infos.drop k))[n - k]? := by
  have hlength : (infos.take k).length = k := by
    simp only [List.length_take]
    omega
  rw [List.getElem?_append_right (by omega), hlength]

theorem popped_dead (hk : k < infos.length) (hlive : AllLive (infos.take k))
    (hget : infos[n]? = some info) (h : info.terminal = true) :
    ∃ info', (infos.take k ++ popSpine data (infos.drop k))[n]? = some info' ∧
      info'.terminal = true ∧ info'.status = info.status := by
  rcases Nat.lt_or_ge n k with hlt | hge
  · have hmem : info ∈ infos.take k := by
      refine List.mem_of_getElem? (i := n) ?_
      rw [List.getElem?_take_of_lt hlt]
      exact hget
    rw [hlive info hmem] at h
    cases h
  · rw [getElem_popped hge hk]
    refine popSpine_dead ?_ h
    rw [List.getElem?_drop, Nat.add_sub_cancel' hge]
    exact hget

theorem descending_popped (hd : Descending infos) (hlive : AllLive (infos.take k)) :
    Descending (infos.take k ++ popSpine data (infos.drop k)) :=
  descending_append hlive (descending_popSpine (hd.sublist (List.drop_sublist k infos)))

-- The handle at `n` is live and the one at `k` is popped: either nothing happens, or `k` is
-- ended, and with it `n`.
theorem popped_live (hd : Descending infos) (hle : k ≤ n) (hget : infos[n]? = some info)
    (h : info.terminal = false) :
    ∃ first, infos[k]? = some first ∧ first.terminal = false ∧
      ((infos.take k ++ popSpine data (infos.drop k))[n]? = some info ∨
        data.id.getD "" ≠ "" ∧ first.waits = data.id ∧
          (k < n → (infos.take k ++ popSpine data (infos.drop k))[n]? =
            some (markTerminal (cascade (terminalFromResult data)) info))) := by
  obtain ⟨hn, -⟩ := List.getElem?_eq_some_iff.mp hget
  have hk : k < infos.length := by omega
  have hlive : (infos[k]).terminal = false := by
    refine hd.allLive_take hget h _ ?_
    refine List.mem_of_getElem? (i := k) ?_
    rw [List.getElem?_take_of_lt (by omega)]
    exact List.getElem?_eq_getElem hk
  refine ⟨infos[k], List.getElem?_eq_getElem hk, hlive, ?_⟩
  rw [getElem_popped hle hk, List.drop_eq_getElem_cons hk]
  simp only [popSpine]
  split
  · rename_i hpop
    refine .inr ⟨hpop.1, hpop.2, fun hlt => ?_⟩
    obtain ⟨j, rfl⟩ : ∃ j, n = k + (j + 1) := ⟨n - k - 1, by omega⟩
    rw [Nat.add_sub_cancel_left, List.getElem?_cons_succ, hlive]
    have hrest : (infos.drop (k + 1))[j]? = some info := by
      rw [List.getElem?_drop]
      have hindex : k + 1 + j = k + (j + 1) := by omega
      rw [hindex]
      exact hget
    exact finishSpine_live (hd.sublist (List.drop_sublist _ _)) hrest h
  · left
    rw [← List.drop_eq_getElem_cons hk, List.getElem?_drop, Nat.add_sub_cancel' hle]
    exact hget

end Popped

end Spines

namespace SubgraphTransformer

def Live (t : SubgraphTransformer) (ns : Namespace) : Prop :=
  ∃ info, t.handle ns = some info ∧ info.terminal = false

-- A namespace starts below live handles only, and a result that ends a handle gives a handle
-- still live below it the status that the rest of the run gives to its namespace.
def InOrder (ending : Ending) (t : SubgraphTransformer) (event : TaskEvent)
    (es : List TaskEvent) : Prop :=
  match event.data with
  | .start _ => (triggerCallId event.ns).isSome → shouldTrack t.scope event.ns = true →
      t.handle event.ns = none →
      ∀ a, a <+: event.ns → a ≠ event.ns → t.scope.length < a.length → t.Live a
  | .result data => ∀ ns taskId a info, triggerCallId ns = some taskId → t.Live ns →
      a <+: ns → a ≠ ns → a.dropLast = event.ns → t.handle a = some info →
      info.terminal = false → data.id.getD "" ≠ "" → info.waits = data.id →
      futureStatus ns taskId ending es = (cascade (terminalFromResult data)).1

def Orderly (ending : Ending) : SubgraphTransformer → List TaskEvent → Prop
  | _, [] => True
  | t, event :: es => InOrder ending t event es ∧ Orderly ending (t.process event) es

theorem scope_process (t : SubgraphTransformer) (event : TaskEvent) :
    (t.process event).scope = t.scope := by
  simp only [process]
  split <;> rfl

theorem handle_append (t : SubgraphTransformer) (path : List String) :
    t.handle (t.scope ++ path) = t.subgraphs.lookup path := by
  simp [handle]

theorem process_append {t : SubgraphTransformer} {event : TaskEvent} {path : List String}
    (h : event.ns = t.scope ++ path) :
    (t.process event).subgraphs = t.subgraphs.process event.data path := by
  simp [process, h]

theorem process_outside {t : SubgraphTransformer} {event : TaskEvent}
    (h : ¬ t.scope <+: event.ns) : t.process event = t := by
  have hne : event.ns.take t.scope.length ≠ t.scope := fun heq =>
    h (List.prefix_iff_eq_take.mpr heq.symm)
  simp [process, hne]

end SubgraphTransformer

-- What the handles on the path to a namespace say, next to its phase in the flat transformer.
inductive Agreeing (future : SubgraphStatus) (taskId : String) (n : Nat)
    (infos : List HandleInfo) : Phase → Prop where
  | unseen (missing : infos.length ≤ n) : Agreeing future taskId n infos .unseen
  | live (info : HandleInfo) (found : infos[n]? = some info) (live : info.terminal = false)
      (waits : info.waits = some taskId) : Agreeing future taskId n infos .opened
  | dead (info : HandleInfo) (found : infos[n]? = some info) (terminal : info.terminal = true)
      (status : info.status = future) : Agreeing future taskId n infos .opened
  | ended (info : HandleInfo) (outcome : Outcome) (found : infos[n]? = some info)
      (terminal : info.terminal = true) (status : info.status = outcome.1) :
      Agreeing future taskId n infos (.ended outcome)

section Simulation

variable {t : SubgraphTransformer} {path : List String} {seg taskId : String} {ending : Ending}
  {event : TaskEvent} {es : List TaskEvent} {phase : Phase}

-- The path of a namespace below the scope is `path ++ [seg]`.
theorem getLast_namespace (scope path : List String) (seg : String) :
    triggerCallId (scope ++ (path ++ [seg])) = triggerCallId [seg] := by
  simp [triggerCallId, ← List.append_assoc]

theorem future_start {data : TaskStart} {ns : Namespace} (hdata : event.data = .start data) :
    futureStatus ns taskId ending (event :: es) = futureStatus ns taskId ending es := by
  simp [futureStatus, hdata]

theorem future_result {data : TaskResult} {ns : Namespace} (hdata : event.data = .result data) :
    futureStatus ns taskId ending (event :: es) =
      if closedBy event.ns data.id (ns, taskId) then (terminalFromResult data).1
      else futureStatus ns taskId ending es := by
  simp [futureStatus, hdata]

theorem step_start_other {data : TaskStart} {ns : Namespace} (hdata : event.data = .start data)
    (h : event.ns ≠ ns ∨ phase ≠ .unseen) : phase.step ns taskId event = phase := by
  cases phase with
  | unseen =>
    have hne : event.ns ≠ ns := h.resolve_right fun hnot => hnot rfl
    simp [Phase.step, hdata, hne]
  | opened => simp [Phase.step, hdata]
  | ended outcome => rfl

theorem step_result_other {data : TaskResult} {ns : Namespace} (hdata : event.data = .result data)
    (h : closedBy event.ns data.id (ns, taskId) = false) :
    phase.step ns taskId event = phase := by
  cases phase with
  | unseen => simp [Phase.step, hdata]
  | opened => simp [Phase.step, hdata, h]
  | ended outcome => rfl

theorem closedBy_iff {ns ns' : Namespace} {id : Option String} :
    closedBy ns' id (ns, taskId) = true ↔ id = some taskId ∧ taskId ≠ "" ∧ ns.dropLast = ns' := by
  cases id with
  | none => simp [closedBy]
  | some id =>
    simp only [closedBy, Bool.and_eq_true, decide_eq_true_eq, Option.some.injEq]
    constructor
    · rintro ⟨⟨hne, hns⟩, rfl⟩
      exact ⟨rfl, hne, hns⟩
    · rintro ⟨rfl, hne, hns⟩
      exact ⟨⟨hne, hns⟩, rfl⟩

theorem lookup_spine {k : Nat} (hk : k ≤ path.length) :
    t.handle (t.scope ++ (path ++ [seg]).take (k + 1)) =
      (t.subgraphs.spine (path ++ [seg]))[k]? := by
  rw [t.handle_append]
  refine lookup_take ?_ t.subgraphs
  simp only [List.length_append, List.length_singleton]
  omega

theorem lookup_spine_last :
    t.handle (t.scope ++ (path ++ [seg])) =
      (t.subgraphs.spine (path ++ [seg]))[path.length]? := by
  have hwhole : (path ++ [seg]).take (path.length + 1) = path ++ [seg] := by simp
  rw [← lookup_spine (Nat.le_refl _), hwhole]

theorem ancestor_below (scope : Namespace) {k : Nat} (hk : k < path.length) :
    scope ++ (path ++ [seg]).take (k + 1) <+: scope ++ (path ++ [seg]) ∧
      scope ++ (path ++ [seg]).take (k + 1) ≠ scope ++ (path ++ [seg]) ∧
      scope.length < (scope ++ (path ++ [seg]).take (k + 1)).length := by
  have hlength : ((path ++ [seg]).take (k + 1)).length = k + 1 := by
    simp only [List.length_take, List.length_append, List.length_singleton]
    omega
  refine ⟨(List.prefix_append_right_inj scope).mpr (List.take_prefix _ _), fun heq => ?_, ?_⟩
  · have hsame := congrArg List.length heq
    simp only [List.length_append, hlength, List.length_singleton] at hsame
    omega
  · simp only [List.length_append, hlength]
    omega

theorem agreeing_first {data : TaskStart} (hdata : event.data = .start data)
    (hid : triggerCallId [seg] = some taskId) (hns : event.ns = t.scope ++ (path ++ [seg]))
    (hok : t.InOrder ending event es) (future : SubgraphStatus)
    (hmissing : (t.subgraphs.spine (path ++ [seg])).length ≤ path.length) :
    Descending ((t.process event).subgraphs.spine (path ++ [seg])) ∧
      Agreeing future taskId path.length ((t.process event).subgraphs.spine (path ++ [seg]))
        .opened := by
  have hancestor : ∀ k, k < path.length →
      ∃ info, (t.subgraphs.spine (path ++ [seg]))[k]? = some info ∧ info.terminal = false := by
    intro k hk
    simp only [SubgraphTransformer.InOrder, hdata] at hok
    obtain ⟨habove, hne, hlength⟩ := @ancestor_below path seg t.scope k hk
    rw [hns] at hok
    have hnone : t.handle (t.scope ++ (path ++ [seg])) = none := by
      rw [lookup_spine_last]
      exact List.getElem?_eq_none hmissing
    have htrack : shouldTrack t.scope (t.scope ++ (path ++ [seg])) = true := by
      simp [shouldTrack]
    have hsome : (triggerCallId (t.scope ++ (path ++ [seg]))).isSome = true := by
      rw [getLast_namespace, hid]
      rfl
    obtain ⟨info, hget, hlive⟩ := hok hsome htrack hnone _ habove hne hlength
    rw [lookup_spine (by omega)] at hget
    exact ⟨info, hget, hlive⟩
  have hlength : (t.subgraphs.spine (path ++ [seg])).length = path.length := by
    rcases Nat.lt_or_ge (t.subgraphs.spine (path ++ [seg])).length path.length with hlt | hge
    · obtain ⟨info, hget, -⟩ := hancestor _ hlt
      rw [List.getElem?_eq_none (Nat.le_refl _)] at hget
      cases hget
    · omega
  have hlive : AllLive (t.subgraphs.spine (path ++ [seg])) := by
    intro info hmem
    obtain ⟨k, hget⟩ := List.mem_iff_getElem?.mp hmem
    obtain ⟨hk, -⟩ := List.getElem?_eq_some_iff.mp hget
    obtain ⟨info', hget', hinfo⟩ := hancestor k (by omega)
    cases hget.symm.trans hget'
    exact hinfo
  have hk : path.length < (path ++ [seg]).length := by simp
  obtain ⟨seg', hlast, hnew⟩ := @spine_start_at data _ _ _ hk hlength hlive
  have hwhole : (path ++ [seg]).take (path.length + 1) = path ++ [seg] := by simp
  rw [hwhole] at hlast hnew
  have hseg : seg' = seg := by simpa using hlast.symm
  rw [SubgraphTransformer.process_append hns, hdata, hnew, hseg]
  refine ⟨descending_append hlive (List.pairwise_singleton _ _), ?_⟩
  refine .live (newHandle seg data).1 ?_ rfl hid
  rw [List.getElem?_append_right (by omega), hlength, Nat.sub_self]
  rfl

theorem agreeing_start {data : TaskStart} (hdata : event.data = .start data)
    (hid : triggerCallId [seg] = some taskId) (hok : t.InOrder ending event es)
    (hd : Descending (t.subgraphs.spine (path ++ [seg])))
    (h : Agreeing (futureStatus (t.scope ++ (path ++ [seg])) taskId ending (event :: es)) taskId
      path.length (t.subgraphs.spine (path ++ [seg])) phase) :
    Descending ((t.process event).subgraphs.spine (path ++ [seg])) ∧
      Agreeing (futureStatus (t.scope ++ (path ++ [seg])) taskId ending es) taskId path.length
        ((t.process event).subgraphs.spine (path ++ [seg]))
        (phase.step (t.scope ++ (path ++ [seg])) taskId event) := by
  rw [future_start hdata] at h
  rcases Classical.em (event.ns = t.scope ++ (path ++ [seg]) ∧ phase = .unseen) with
    ⟨hns, rfl⟩ | hother
  · cases h with
    | unseen missing =>
      have hstep : Phase.step (t.scope ++ (path ++ [seg])) taskId .unseen event = .opened := by
        simp [Phase.step, hdata, hns]
      rw [hstep]
      exact agreeing_first hdata hid hns hok _ missing
  · have hsame : event.ns ≠ t.scope ++ (path ++ [seg]) ∨ phase ≠ .unseen := by
      rcases Classical.em (event.ns = t.scope ++ (path ++ [seg])) with hns | hns
      · exact .inr fun hphase => hother ⟨hns, hphase⟩
      · exact .inl hns
    rw [step_start_other hdata hsame]
    rcases Classical.em (t.scope <+: event.ns) with ⟨q, hq⟩ | houtside
    · rw [SubgraphTransformer.process_append hq.symm, hdata]
      rcases @spine_start_cases data q (path ++ [seg]) t.subgraphs with
        hunchanged | ⟨k, seg', htake, -, hlength, hk, hlive, hnew⟩
      · rw [hunchanged]
        exact ⟨hd, h⟩
      · rw [hnew]
        refine ⟨descending_append hlive (List.pairwise_singleton _ _), ?_⟩
        have hle : k ≤ path.length := by
          simp only [List.length_append, List.length_singleton] at hk
          omega
        have hmissing : (t.subgraphs.spine (path ++ [seg]))[path.length]? = none :=
          List.getElem?_eq_none (by omega)
        cases h with
        | unseen missing =>
          refine .unseen ?_
          have hne : k ≠ path.length := by
            rintro rfl
            have hwhole : q = path ++ [seg] := by
              rw [htake]
              simp
            rw [hwhole] at hq
            exact hother ⟨hq.symm, rfl⟩
          simp only [List.length_append, List.length_singleton]
          omega
        | live info found =>
          rw [hmissing] at found
          cases found
        | dead info found =>
          rw [hmissing] at found
          cases found
        | ended info outcome found =>
          rw [hmissing] at found
          cases found
    · rw [SubgraphTransformer.process_outside houtside]
      exact ⟨hd, h⟩

-- A result that closes the namespace in the flat transformer.
theorem agreeing_closed {data : TaskResult} (hdata : event.data = .result data)
    (hclosed : closedBy event.ns data.id (t.scope ++ (path ++ [seg]), taskId) = true)
    (hd : Descending (t.subgraphs.spine (path ++ [seg])))
    (h : Agreeing (terminalFromResult data).1 taskId path.length
      (t.subgraphs.spine (path ++ [seg])) .opened) :
    Descending ((t.process event).subgraphs.spine (path ++ [seg])) ∧
      ∀ future, Agreeing future taskId path.length
        ((t.process event).subgraphs.spine (path ++ [seg])) (.ended (terminalFromResult data)) := by
  obtain ⟨hid, hne, hparent⟩ := closedBy_iff.mp hclosed
  have hns : event.ns = t.scope ++ path := by
    rw [← hparent, ← List.append_assoc, List.dropLast_concat]
  have htake : (path ++ [seg]).take path.length = path := by simp
  rw [SubgraphTransformer.process_append hns, hdata]
  cases h with
  | live info found hlive waits =>
    obtain ⟨hlt, -⟩ := List.getElem?_eq_some_iff.mp found
    have hall : AllLive ((t.subgraphs.spine (path ++ [seg])).take path.length) := by
      intro x hx
      refine hd.allLive_take found hlive x ?_
      exact List.take_subset_take_left _ (Nat.le_succ _) hx
    have hnew := @spine_result_at data (path ++ [seg]) t.subgraphs path.length
      (by simp) (by omega) hall
    rw [htake] at hnew
    rw [hnew]
    have hdrop : ∃ rest, (t.subgraphs.spine (path ++ [seg])).drop path.length = info :: rest := by
      rw [List.drop_eq_getElem_cons hlt]
      exact ⟨_, by rw [(List.getElem?_eq_some_iff.mp found).2]⟩
    obtain ⟨rest, hdrop⟩ := hdrop
    have hlength : ((t.subgraphs.spine (path ++ [seg])).take path.length).length = path.length := by
      simp only [List.length_take]
      omega
    refine ⟨descending_popped hd hall, fun future => ?_⟩
    refine .ended (markTerminal (terminalFromResult data) info) _ ?_
      (terminal_markTerminal _ info) (status_markTerminal_live hlive)
    rw [List.getElem?_append_right (by omega), hlength, Nat.sub_self, hdrop]
    simp [popSpine, hid, hne, waits]
  | dead info found terminal status =>
    rcases @spine_result_cases data path (path ++ [seg]) t.subgraphs with
      hunchanged | ⟨k, -, hk, hlive, hnew⟩
    · rw [hunchanged]
      exact ⟨hd, fun _ => .ended info _ found terminal status⟩
    · rw [hnew]
      obtain ⟨info', found', terminal', status'⟩ := popped_dead hk hlive found terminal
      exact ⟨descending_popped hd hlive,
        fun _ => .ended info' _ found' terminal' (status'.trans status)⟩

theorem agreeing_result {data : TaskResult} {future : SubgraphStatus}
    (hdata : event.data = .result data) (hid : triggerCallId [seg] = some taskId)
    (hok : t.InOrder ending event es)
    (hopen : phase = .opened →
      closedBy event.ns data.id (t.scope ++ (path ++ [seg]), taskId) = false ∧
        futureStatus (t.scope ++ (path ++ [seg])) taskId ending es = future)
    (hd : Descending (t.subgraphs.spine (path ++ [seg])))
    (h : Agreeing future taskId path.length (t.subgraphs.spine (path ++ [seg])) phase) :
    Descending ((t.process event).subgraphs.spine (path ++ [seg])) ∧
      Agreeing future taskId path.length ((t.process event).subgraphs.spine (path ++ [seg]))
        phase := by
  rcases Classical.em (t.scope <+: event.ns) with ⟨q, hq⟩ | houtside
  · rw [SubgraphTransformer.process_append hq.symm, hdata]
    rcases @spine_result_cases data q (path ++ [seg]) t.subgraphs with
      hunchanged | ⟨k, htake, hk, hlive, hnew⟩
    · rw [hunchanged]
      exact ⟨hd, h⟩
    · rw [hnew]
      refine ⟨descending_popped hd hlive, ?_⟩
      cases h with
      | unseen missing => exact .unseen (by rw [length_popped]; exact missing)
      | dead info found terminal status =>
        obtain ⟨info', found', terminal', status'⟩ := popped_dead hk hlive found terminal
        exact .dead info' found' terminal' (status'.trans status)
      | ended info outcome found terminal status =>
        obtain ⟨info', found', terminal', status'⟩ := popped_dead hk hlive found terminal
        exact .ended info' outcome found' terminal' (status'.trans status)
      | live info found hinfo waits =>
        obtain ⟨hnotClosed, hfuture⟩ := hopen rfl
        obtain ⟨hn, -⟩ := List.getElem?_eq_some_iff.mp found
        have hbound := length_spine_le (path ++ [seg]) t.subgraphs
        simp only [List.length_append, List.length_singleton] at hbound
        have hle : k ≤ path.length := by omega
        obtain ⟨first, hfirst, hfirstLive, hsame | ⟨hne, hwaits, hpopped⟩⟩ :=
          @popped_live _ _ data _ _ hd hle found hinfo
        · exact .live info hsame hinfo waits
        · rcases Nat.lt_or_ge k path.length with hlt | hge
          · have hends : futureStatus (t.scope ++ (path ++ [seg])) taskId ending es =
                (cascade (terminalFromResult data)).1 := by
              simp only [SubgraphTransformer.InOrder, hdata] at hok
              obtain ⟨habove, hneq, -⟩ := @ancestor_below path seg t.scope k hlt
              refine hok _ taskId _ first (by rw [getLast_namespace, hid])
                ⟨info, by rw [lookup_spine_last, found], hinfo⟩ habove hneq ?_ ?_ hfirstLive hne
                hwaits
              · rw [← hq, htake, List.take_succ_eq_append_getElem (by simp; omega),
                  ← List.append_assoc, List.dropLast_concat]
              · rw [lookup_spine hle, hfirst]
            refine .dead _ (hpopped hlt) (terminal_markTerminal _ info) ?_
            rw [status_markTerminal_live hinfo, ← hends, hfuture]
          · have hkn : k = path.length := by omega
            subst hkn
            cases hfirst.symm.trans found
            have hclosed :
                closedBy event.ns data.id (t.scope ++ (path ++ [seg]), taskId) = true := by
              refine closedBy_iff.mpr ⟨hwaits.symm.trans waits, ?_, ?_⟩
              · rintro rfl
                rw [← hwaits, waits] at hne
                exact hne rfl
              · rw [← hq, htake, ← List.append_assoc, List.dropLast_concat]
                simp
            rw [hclosed] at hnotClosed
            cases hnotClosed
  · rw [SubgraphTransformer.process_outside houtside]
    exact ⟨hd, h⟩

theorem agreeing_step (hid : triggerCallId [seg] = some taskId) (hok : t.InOrder ending event es)
    (hd : Descending (t.subgraphs.spine (path ++ [seg])))
    (h : Agreeing (futureStatus (t.scope ++ (path ++ [seg])) taskId ending (event :: es)) taskId
      path.length (t.subgraphs.spine (path ++ [seg])) phase) :
    Descending ((t.process event).subgraphs.spine (path ++ [seg])) ∧
      Agreeing (futureStatus (t.scope ++ (path ++ [seg])) taskId ending es) taskId path.length
        ((t.process event).subgraphs.spine (path ++ [seg]))
        (phase.step (t.scope ++ (path ++ [seg])) taskId event) := by
  cases hdata : event.data with
  | start data => exact agreeing_start hdata hid hok hd h
  | result data =>
    rw [future_result hdata] at h
    cases hclosed : closedBy event.ns data.id (t.scope ++ (path ++ [seg]), taskId) with
    | false =>
      rw [step_result_other hdata hclosed]
      rw [hclosed] at h
      exact agreeing_result hdata hid hok (fun _ => ⟨hclosed, rfl⟩) hd h
    | true =>
      rw [hclosed, if_pos rfl] at h
      cases phase with
      | unseen =>
        have hstep : Phase.step (t.scope ++ (path ++ [seg])) taskId .unseen event = .unseen := by
          simp [Phase.step, hdata]
        cases h with
        | unseen missing =>
          rw [hstep]
          exact agreeing_result hdata hid hok (fun hnot => by cases hnot) hd (.unseen missing)
      | opened =>
        have hstep : Phase.step (t.scope ++ (path ++ [seg])) taskId .opened event =
            .ended (terminalFromResult data) := by
          simp [Phase.step, hdata, hclosed]
        obtain ⟨hd', hall⟩ := agreeing_closed hdata hclosed hd h
        rw [hstep]
        exact ⟨hd', hall _⟩
      | ended outcome =>
        cases h with
        | ended info outcome found terminal status =>
          exact agreeing_result hdata hid hok (fun hnot => by cases hnot) hd
            (.ended info outcome found terminal status)

theorem agreeing_run {scope : Namespace} (hid : triggerCallId [seg] = some taskId)
    (hscope : t.scope = scope) (hok : t.Orderly ending es)
    (hd : Descending (t.subgraphs.spine (path ++ [seg])))
    (h : Agreeing (futureStatus (scope ++ (path ++ [seg])) taskId ending es) taskId
      path.length (t.subgraphs.spine (path ++ [seg])) phase) :
    Descending ((run SubgraphTransformer.process t es).subgraphs.spine (path ++ [seg])) ∧
      Agreeing ending.outcome.1 taskId path.length
        ((run SubgraphTransformer.process t es).subgraphs.spine (path ++ [seg]))
        (run (Phase.step (scope ++ (path ++ [seg])) taskId) phase es) ∧
      (run SubgraphTransformer.process t es).scope = scope := by
  induction es generalizing t phase with
  | nil => exact ⟨hd, h, hscope⟩
  | cons event es ih =>
    obtain ⟨hevent, hrest⟩ := hok
    rw [← hscope] at h
    obtain ⟨hd', h'⟩ := agreeing_step hid hevent hd h
    rw [hscope] at h'
    exact ih ((t.scope_process event).trans hscope) hrest hd' h'

theorem agreeing_end {outcome : Outcome}
    (hd : Descending (t.subgraphs.spine (path ++ [seg])))
    (h : Agreeing ending.outcome.1 taskId path.length (t.subgraphs.spine (path ++ [seg])) phase)
    (hended : phase.endRun ending = .ended outcome) :
    ∃ info, (t.endRun ending).handle (t.scope ++ (path ++ [seg])) = some info ∧
      info.status = outcome.1 := by
  have hhandle : (t.endRun ending).handle (t.scope ++ (path ++ [seg])) =
      (finishSpine ending.outcome (t.subgraphs.spine (path ++ [seg])))[path.length]? := by
    rw [← spine_finish]
    exact @lookup_spine_last (t.endRun ending) path seg
  rw [hhandle]
  cases h with
  | unseen missing => cases hended
  | live info found hinfo waits =>
    cases hended
    exact ⟨_, finishSpine_live hd found hinfo, status_markTerminal_live hinfo⟩
  | dead info found terminal status =>
    cases hended
    obtain ⟨info', found', -, status'⟩ := @finishSpine_dead _ ending.outcome _ _ found terminal
    exact ⟨info', found', status'.trans status⟩
  | ended info outcome' found terminal status =>
    cases hended
    obtain ⟨info', found', -, status'⟩ := @finishSpine_dead _ ending.outcome _ _ found terminal
    exact ⟨info', found', status'.trans status⟩

end Simulation

def Started (es : List TaskEvent) (ns : Namespace) : Prop :=
  ∃ event ∈ es, event.ns = ns ∧ ∃ data, event.data = .start data

theorem seen_step {ns : Namespace} {taskId : String} {phase : Phase} (h : phase ≠ .unseen)
    (event : TaskEvent) : phase.step ns taskId event ≠ .unseen := by
  cases phase with
  | unseen => exact absurd rfl h
  | opened =>
    cases hdata : event.data with
    | start data => simp [Phase.step, hdata]
    | result data =>
      simp only [Phase.step, hdata]
      split <;> simp
  | ended outcome => simp [Phase.step]

theorem seen_of_started {ns : Namespace} {taskId : String} {phase : Phase} {es : List TaskEvent}
    (h : phase ≠ .unseen ∨ Started es ns) : run (Phase.step ns taskId) phase es ≠ .unseen := by
  induction es generalizing phase with
  | nil =>
    rcases h with h | ⟨event, hevent, -⟩
    · exact h
    · cases hevent
  | cons event es ih =>
    refine ih ?_
    rcases h with h | ⟨event', hmem, hns, data, hdata⟩
    · exact .inl (seen_step h event)
    · rcases List.mem_cons.mp hmem with rfl | hmem
      · left
        cases phase with
        | unseen => simp [Phase.step, hdata, hns]
        | opened => exact seen_step (by simp) event'
        | ended outcome => exact seen_step (by simp) event'
      · exact .inr ⟨event', hmem, hns, data, hdata⟩

def lifecycleRun (scope : Namespace) (es : List TaskEvent) (ending : Ending) :
    LifecycleTransformer :=
  (run LifecycleTransformer.process (.init scope) es).endRun ending

def subgraphRun (scope : Namespace) (es : List TaskEvent) (ending : Ending) :
    SubgraphTransformer :=
  (run SubgraphTransformer.process (.init scope) es).endRun ending

-- One started payload, then one terminal payload.
def Emits (l : LifecycleTransformer) (ns : Namespace) (outcome : Outcome) : Prop :=
  outcome.1 ≠ .started ∧
    ∃ p, p.event = .started ∧ l.emitted ns = [p, terminalPayload outcome ns]

def WellFormed (scope : Namespace) (es : List TaskEvent) (ending : Ending) : Prop :=
  ∀ ns, shouldTrack scope ns = true → (triggerCallId ns).isSome → Started es ns →
    ∃ outcome, Emits (lifecycleRun scope es ending) ns outcome

def Agrees (scope : Namespace) (es : List TaskEvent) (ending : Ending) : Prop :=
  ∀ ns, shouldTrack scope ns = true → (triggerCallId ns).isSome → Started es ns →
    ∃ outcome info, Emits (lifecycleRun scope es ending) ns outcome ∧
      (subgraphRun scope es ending).handle ns = some info ∧ info.status = outcome.1

theorem emits_of_started {scope ns : Namespace} {taskId : String} {es : List TaskEvent}
    {ending : Ending} (htrack : shouldTrack scope ns = true)
    (hid : triggerCallId ns = some taskId) (hstarted : Started es ns) :
    ∃ outcome, Emits (lifecycleRun scope es ending) ns outcome ∧
      (run (Phase.step ns taskId) .unseen es).endRun ending = .ended outcome := by
  have hphase := (InPhase.run htrack hid es (inPhase_init scope ns taskId)).endRun ending
  have hseen : run (Phase.step ns taskId) .unseen es ≠ .unseen :=
    seen_of_started (.inr hstarted)
  generalize run (Phase.step ns taskId) .unseen es = phase at hphase hseen ⊢
  cases phase with
  | unseen => exact absurd rfl hseen
  | opened =>
    cases hphase with
    | ended p outcome started terminal seen opened emitted =>
      exact ⟨ending.outcome, ⟨terminal, p, started, emitted⟩, rfl⟩
  | ended outcome =>
    cases hphase with
    | ended p outcome started terminal seen opened emitted =>
      exact ⟨outcome, ⟨terminal, p, started, emitted⟩, rfl⟩

theorem exists_path {scope ns : Namespace} (h : shouldTrack scope ns = true) :
    ∃ path seg, ns = scope ++ (path ++ [seg]) := by
  simp only [shouldTrack, Bool.and_eq_true, decide_eq_true_eq] at h
  obtain ⟨hlength, htake⟩ := h
  obtain ⟨rest, rfl⟩ : scope <+: ns := List.prefix_iff_eq_take.mpr htake.symm
  have hne : rest ≠ [] := by
    rintro rfl
    simp at hlength
  exact ⟨rest.dropLast, rest.getLast hne, by rw [List.dropLast_append_getLast]⟩

theorem lifecycles_agree (scope : Namespace) (es : List TaskEvent) (ending : Ending) :
    WellFormed scope es ending ∧
      (SubgraphTransformer.Orderly ending (.init scope) es → Agrees scope es ending) := by
  constructor
  · intro ns htrack hsome hstarted
    obtain ⟨taskId, hid⟩ := Option.isSome_iff_exists.mp hsome
    obtain ⟨outcome, hemits, -⟩ := emits_of_started htrack hid hstarted
    exact ⟨outcome, hemits⟩
  · intro hok ns htrack hsome hstarted
    obtain ⟨taskId, hid⟩ := Option.isSome_iff_exists.mp hsome
    obtain ⟨outcome, hemits, hended⟩ := @emits_of_started _ _ _ _ ending htrack hid hstarted
    obtain ⟨path, seg, rfl⟩ := exists_path htrack
    rw [getLast_namespace] at hid
    have hempty : (SubgraphTransformer.init scope).subgraphs.spine (path ++ [seg]) = [] :=
      spine_empty _
    obtain ⟨hd, hagreeing, hscope⟩ := @agreeing_run (.init scope) path seg taskId ending es
      .unseen scope hid rfl hok (by rw [hempty]; exact List.Pairwise.nil)
      (.unseen (by rw [hempty]; exact Nat.zero_le _))
    obtain ⟨info, hhandle, hstatus⟩ := agreeing_end hd hagreeing hended
    rw [hscope] at hhandle
    exact ⟨outcome, info, hemits, hhandle, hstatus⟩

-- `a:1` is a direct child of the root and `b:2` a child of `a:1`.
def startAt (ns : Namespace) : TaskEvent := ⟨ns, .start ⟨none, none, none⟩⟩

def resultAt (ns : Namespace) (id : String) (error : Option String) : TaskEvent :=
  ⟨ns, .result ⟨some id, false, error⟩⟩

def nestedRun : List TaskEvent :=
  [startAt ["a:1"], startAt ["a:1", "b:2"], resultAt [] "1" none,
    resultAt ["a:1"] "2" (some "boom")]

theorem lifecycles_disagree :
    ¬ (WellFormed [] nestedRun .finalize ∧ Agrees [] nestedRun .finalize) := by
  rintro ⟨-, hagrees⟩
  have hstarted : Started nestedRun ["a:1", "b:2"] :=
    ⟨startAt ["a:1", "b:2"], by simp [nestedRun], rfl, _, rfl⟩
  obtain ⟨outcome, info, ⟨-, p, -, hemitted⟩, hhandle, hstatus⟩ :=
    hagrees ["a:1", "b:2"] (by decide +kernel) (by decide +kernel) hstarted
  have hfailed : ((lifecycleRun [] nestedRun .finalize).emitted ["a:1", "b:2"]).map
      LifecyclePayload.event = [.started, .failed] := by decide +kernel
  have hcompleted : ((subgraphRun [] nestedRun .finalize).handle ["a:1", "b:2"]).map
      HandleInfo.status = some .completed := by decide +kernel
  rw [hemitted] at hfailed
  rw [hhandle, Option.map_some, hstatus] at hcompleted
  simp only [List.map_cons, List.map_nil, List.cons.injEq] at hfailed
  have hterminal : outcome.1 = .failed := hfailed.2.1
  rw [hterminal] at hcompleted
  cases hcompleted

def innerFirst : List TaskEvent :=
  [startAt ["a:1"], startAt ["a:1", "b:2"], resultAt ["a:1"] "2" (some "boom"),
    resultAt [] "1" none]

theorem lookup_single {seg : String} {child : HandleInfo × Subgraphs} {info : HandleInfo}
    {ns : Namespace} (h : (Subgraphs.mk [(seg, child)]).lookup ns = some info) :
    ∃ rest, ns = seg :: rest ∧
      (rest = [] ∧ info = child.1 ∨ child.2.lookup rest = some info) := by
  have hget : ∀ seg', (Subgraphs.mk [(seg, child)]).get seg' =
      if seg' = seg then some child else none := fun seg' => get_concat [] seg seg' child
  match ns with
  | [] => cases h
  | [seg'] =>
    simp only [lookup, hget] at h
    split at h
    · rename_i heq
      exact ⟨[], by rw [heq], .inl ⟨rfl, (Option.some.inj h).symm⟩⟩
    · cases h
  | seg' :: next :: rest =>
    simp only [lookup, hget] at h
    split at h
    · rename_i heq
      exact ⟨next :: rest, by rw [heq], .inr h⟩
    · cases h

theorem lookup_nested {seg seg' : String} {info info' found : HandleInfo} {ns : Namespace}
    (h : (Subgraphs.mk [(seg, info, .mk [(seg', info', .mk [])])]).lookup ns = some found) :
    ns = [seg] ∧ found = info ∨ ns = [seg, seg'] ∧ found = info' := by
  obtain ⟨rest, rfl, ⟨rfl, rfl⟩ | hrest⟩ := lookup_single h
  · exact .inl ⟨rfl, rfl⟩
  · obtain ⟨rest, rfl, ⟨rfl, rfl⟩ | hrest⟩ := lookup_single hrest
    · exact .inr ⟨rfl, rfl⟩
    · match rest, hrest with
      | [_], hrest => cases hrest
      | _ :: _ :: _, hrest => cases hrest

theorem orderly_innerFirst : SubgraphTransformer.Orderly .finalize (.init []) innerFirst := by
  refine ⟨?_, ?_, ?_, ?_, trivial⟩
  · intro _ _ _ a habove hne hlength
    have hle := habove.length_le
    exact absurd (habove.eq_of_length_le hlength) hne
  · intro _ _ _ a habove hne hlength
    have ha : a = ["a:1"] := by
      obtain ⟨rest, hrest⟩ := habove
      match a, hrest with
      | [], _ => cases hlength
      | [seg], hrest =>
        cases hrest
        rfl
      | [seg, seg'], hrest =>
        cases hrest
        exact absurd rfl hne
    subst ha
    exact ⟨(newHandle "a:1" ⟨none, none, none⟩).1, rfl, rfl⟩
  · intro ns taskId a info _ hlive habove hne hparent _ _ _ _
    obtain ⟨info', hhandle, -⟩ := hlive
    have hparent' : a.dropLast = ["a:1"] := hparent
    have hlength := congrArg List.length hparent'
    rw [List.length_dropLast, List.length_singleton] at hlength
    have hle := habove.length_le
    have hshort : ns.length ≤ 2 := by
      rcases lookup_nested hhandle with ⟨rfl, -⟩ | ⟨rfl, -⟩
      · exact Nat.le_succ 1
      · exact Nat.le_refl 2
    exact absurd (habove.eq_of_length (by omega)) hne
  · intro ns taskId a info _ hlive habove hne hparent hhandle' _ _ _
    obtain ⟨info', hhandle, hlive⟩ := hlive
    rcases lookup_nested hhandle with ⟨rfl, -⟩ | ⟨rfl, rfl⟩
    · cases a with
      | nil => cases hhandle'
      | cons seg rest =>
        exact absurd (habove.eq_of_length_le (Nat.succ_le_succ (Nat.zero_le _))) hne
    · cases hlive

theorem lifecycles_agree_innerFirst : Agrees [] innerFirst .finalize :=
  (lifecycles_agree [] innerFirst .finalize).2 orderly_innerFirst

end Stream

end LangGraph

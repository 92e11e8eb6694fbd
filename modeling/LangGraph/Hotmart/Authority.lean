import LangGraph.Collections.Exceptions
import LangGraph.Hotmart.Execution

namespace LangGraph

open Collections Store

namespace Hotmart

variable {F : Type} [Amounts F]

-- The actions in their order, each with what the services reply while it is performed.
def worked (ordered : List (Action F)) (replies : Nat → List Reply) : List (Work F) :=
  ordered.zipIdx.map (fun e => (e.1, replies e.2))

def afterDecidir (normalize : String → String) (settings : Settings F) (response : Json F)
    (approvals : Approvals) (replies : Nat → List Reply) (ordered : List (Action F)) :
    List (Entry F) :=
  match precisaAprovacao ordered with
  | .aprovar =>
      match aprovar normalize ordered response approvals with
      | .ok merged => entries settings merged (worked ordered replies)
      | .error _ => []
  | .executar => entries settings approvals (worked ordered replies)
  | .relatar => []

def Entry.Calls (e : Entry F) : Prop := ∃ a, e.attempted = some a ∧ a.called ≠ []

def OverCeiling (settings : Settings F) (a : Action F) : Prop :=
  Amounts.gt a.cost settings.guardrails.maxDailyBudget = true

instance (settings : Settings F) (a : Action F) : Decidable (OverCeiling settings a) :=
  inferInstanceAs (Decidable (_ = true))

def refundOverLimit (settings : Settings F) (a : Action F) : Bool :=
  match refundValue a with
  | .ok value => Amounts.gt value settings.guardrails.refundAutoApproveMax
  | .error _ => false

def LargeRefund (settings : Settings F) (a : Action F) : Prop :=
  a.type = .issueRefund ∧ refundOverLimit settings a = true

instance (settings : Settings F) (a : Action F) : Decidable (LargeRefund settings a) :=
  inferInstanceAs (Decidable (_ ∧ _))

def Approved (normalize : String → String) (response : Json F) (ordered : List (Action F))
    (a : Action F) : Prop :=
  (parseApproval normalize response (pendingIds ordered)).toOption.bind (fun d => d.get? a.id) =
    some .approved

instance (normalize : String → String) (response : Json F) (ordered : List (Action F))
    (a : Action F) : Decidable (Approved normalize response ordered a) :=
  inferInstanceAs (Decidable (_ = _))

structure Authorised (settings : Settings F) (approved : Prop) (a : Action F) : Prop where
  live : settings.dryRun = false
  level : settings.autonomy = .approve ∨ settings.autonomy = .autonomous
  affordable : ¬ OverCeiling settings a
  granted : WithinAutonomy a.type settings.autonomy ∨ approved
  refund : LargeRefund settings a → approved

section Modes

variable {settings : Settings F} {action a : Action F}

structure SameRequest (action a : Action F) : Prop where
  id : a.id = action.id
  type : a.type = action.type
  payload : a.payload = action.payload
  cost : a.cost = action.cost

omit [Amounts F] in
theorem sameRequest_decided (mode : ExecutionMode) (reason : String) :
    SameRequest action (decided action mode reason) := ⟨rfl, rfl, rfl, rfl⟩

omit [Amounts F] in
theorem byRisk_auto (h : (byRisk action settings).mode = .auto) :
    WithinAutonomy action.type settings.autonomy := by
  by_contra hnot
  rw [byRisk, if_neg hnot] at h
  split at h <;> cases h

omit [Amounts F] in
theorem byRisk_approval (h : (byRisk action settings).mode = .approval) :
    settings.autonomy = .approve ∨ settings.autonomy = .autonomous := by
  rw [byRisk] at h
  split at h
  · cases h
  · split at h
    · rename_i hlevel
      cases hlevels : settings.autonomy <;> simp [hlevels, autonomyOrder] at hlevel ⊢
    · cases h

omit [Amounts F] in
theorem sameRequest_byRisk (action : Action F) (settings : Settings F) :
    SameRequest action (byRisk action settings) := by
  rw [byRisk]
  split
  · exact sameRequest_decided _ _
  · split <;> exact sameRequest_decided _ _

-- What the guards let through before autonomy is weighed.
structure Considered (settings : Settings F) (a : Action F) : Prop where
  affordable : ¬ OverCeiling settings a
  reports : settings.autonomy = .observe → a.type = .report

theorem considered_of_guards {action a : Action F} (hsame : SameRequest action a)
    (hobserve : ¬ (settings.autonomy = .observe ∧ action.type ≠ .report))
    (hcost : ¬ Amounts.gt action.cost settings.guardrails.maxDailyBudget = true) :
    Considered settings a := by
  refine ⟨fun hover => hcost ?_, fun hlevel => ?_⟩
  · rw [OverCeiling, hsame.cost] at hover
    exact hover
  · rw [hsame.type]
    by_contra hne
    exact hobserve ⟨hlevel, hne⟩

theorem resolveMode_cases (h : resolveMode action settings = .ok a) :
    SameRequest action a ∧
      (settings.autonomy = .observe ∧ a.mode = .recommend ∨
        OverCeiling settings a ∧ a.mode = .blocked ∨
        Considered settings a ∧ LargeRefund settings a ∧ a.mode = .approval ∨
        Considered settings a ∧ ¬ LargeRefund settings a ∧ a = byRisk action settings) := by
  rw [resolveMode] at h
  split at h
  · cases h
    rename_i hobserve
    exact ⟨sameRequest_decided _ _, .inl ⟨hobserve.1, rfl⟩⟩
  · rename_i hobserve
    split at h
    · rename_i hcost
      cases h
      exact ⟨sameRequest_decided _ _, .inr (.inl ⟨hcost, rfl⟩)⟩
    · rename_i hcost
      split at h
      · rename_i htype
        cases hvalue : refundValue action with
        | error e => simp [hvalue, bind, Except.bind] at h
        | ok value =>
          simp only [hvalue, bind, Except.bind, pure, Except.pure] at h
          split at h
          · rename_i hlarge
            cases h
            have hsame := @sameRequest_decided _ action
            refine ⟨hsame _ _, .inr (.inr (.inl ⟨considered_of_guards (hsame _ _) hobserve hcost, ?_, rfl⟩))⟩
            refine ⟨htype, ?_⟩
            have hv : refundValue (decided action .approval
              ("reembolso de " ++ Amounts.brl value ++ " acima do limite automático de " ++
                Amounts.brl settings.guardrails.refundAutoApproveMax)) = .ok value := hvalue
            simp only [refundOverLimit, hv]
            exact hlarge
          · rename_i hsmall
            cases h
            have hsame := sameRequest_byRisk action settings
            refine ⟨hsame, .inr (.inr (.inr ⟨considered_of_guards hsame hobserve hcost, ?_, rfl⟩))⟩
            rintro ⟨-, hover⟩
            have hv : refundValue (byRisk action settings) = .ok value := by
              rw [refundValue, hsame.payload]
              exact hvalue
            simp only [refundOverLimit, hv] at hover
            exact hsmall hover
      · rename_i htype
        cases h
        have hsame := sameRequest_byRisk action settings
        refine ⟨hsame, .inr (.inr (.inr ⟨considered_of_guards hsame hobserve hcost, ?_, rfl⟩))⟩
        rintro ⟨hrefund, -⟩
        exact htype (hsame.type ▸ hrefund)

theorem rankAction_ok {findings : List (Finding F)} (h : rankAction findings settings action = .ok a) :
    ∃ base, resolveMode (prioritized action base) settings = .ok a := by
  obtain ⟨base, -, hresolve⟩ := Exceptions.bind_ok h
  exact ⟨base, hresolve⟩

-- Every mode an action can leave the ranking with, and when.
structure Ranked (settings : Settings F) (a : Action F) : Prop where
  auto : a.mode = .auto →
    Considered settings a ∧ ¬ LargeRefund settings a ∧ WithinAutonomy a.type settings.autonomy
  approval : a.mode = .approval → Considered settings a ∧
    (LargeRefund settings a ∨ settings.autonomy = .approve ∨ settings.autonomy = .autonomous)
  refund : settings.autonomy ≠ .observe → ¬ OverCeiling settings a → LargeRefund settings a →
    a.mode = .approval

theorem ranked_of_resolveMode (h : resolveMode action settings = .ok a) : Ranked settings a := by
  obtain ⟨hsame, ⟨hobserve, hmode⟩ | ⟨hover, hmode⟩ | ⟨hconsidered, hlarge, hmode⟩ |
    ⟨hconsidered, hsmall, hrisk⟩⟩ := resolveMode_cases h
  · exact ⟨fun h => absurd (hmode.symm.trans h) (by decide),
      fun h => absurd (hmode.symm.trans h) (by decide), fun hlevel _ _ => absurd hobserve hlevel⟩
  · exact ⟨fun h => absurd (hmode.symm.trans h) (by decide),
      fun h => absurd (hmode.symm.trans h) (by decide), fun _ hcost _ => absurd hover hcost⟩
  · exact ⟨fun h => absurd (hmode.symm.trans h) (by decide),
      fun _ => ⟨hconsidered, .inl hlarge⟩, fun _ _ _ => hmode⟩
  · refine ⟨fun h => ⟨hconsidered, hsmall, ?_⟩, fun h => ⟨hconsidered, .inr ?_⟩,
      fun _ _ hlarge => absurd hlarge hsmall⟩
    · rw [hsame.type]
      exact byRisk_auto (hrisk ▸ h)
    · exact byRisk_approval (hrisk ▸ h)

end Modes

theorem rankActions_ranked {settings : Settings F} {actions ordered : List (Action F)}
    {findings : List (Finding F)} (h : rankActions actions findings settings = .ok ordered) :
    ∀ a ∈ ordered, Ranked settings a := by
  obtain ⟨ranked, hranked, hsorted⟩ := Exceptions.bind_ok h
  cases hsorted
  intro a ha
  refine Exceptions.forall_of_mapM (fun x y hxy => ?_) hranked a (List.mem_mergeSort.mp ha)
  obtain ⟨base, hresolve⟩ := rankAction_ok hxy
  exact ranked_of_resolveMode hresolve

section Performing

variable {settings : Settings F} {approvals : Approvals} {w : Work F} {work : List (Work F)}

omit [Amounts F] in
theorem calls_unattempted {a : Action F} {status : Status} {detail : String} :
    ¬ (unattempted a status detail).Calls := by
  rintro ⟨attempted, hnone, -⟩
  cases hnone

def Executes (settings : Settings F) (approvals : Approvals) (a : Action F) : Prop :=
  settings.dryRun = false ∧
    (a.mode = .auto ∨ a.mode = .approval ∧ approvals.get? a.id = some .approved)

omit [Amounts F] in
theorem report_attempted (a : Action F) (t : Attempt F) : (report a t).attempted = some t := by
  rw [report]
  split <;> rfl

theorem executeAction_executes (h : Executes settings approvals w.1) :
    executeAction settings approvals w = report w.1 (attempt (perform w.1 settings) w.2) := by
  obtain ⟨hlive, hmode⟩ := h
  have hcarried : carriedOut settings w = report w.1 (attempt (perform w.1 settings) w.2) := by
    rw [carriedOut, hlive]
    rfl
  rw [executeAction]
  rcases hmode with hauto | ⟨happroval, hget⟩
  · simp only [hauto, hcarried]
  · simp only [happroval, hget, hcarried]

theorem executeAction_idle (h : ¬ Executes settings approvals w.1) :
    ∃ status detail, executeAction settings approvals w = unattempted w.1 status detail := by
  have hcarried (hmode : w.1.mode = .auto ∨
      w.1.mode = .approval ∧ approvals.get? w.1.id = some .approved) :
      carriedOut settings w =
        unattempted w.1 .done "simulada (dry-run): nenhuma chamada externa foi feita" := by
    have hdry : settings.dryRun = true := by
      by_contra hlive
      exact h ⟨Bool.not_eq_true _ ▸ hlive, hmode⟩
    rw [carriedOut, hdry]
    rfl
  rw [executeAction]
  cases hmode : w.1.mode with
  | blocked => exact ⟨_, _, rfl⟩
  | recommend => exact ⟨_, _, rfl⟩
  | auto => exact ⟨_, _, hcarried (.inl hmode)⟩
  | approval =>
    cases hget : approvals.get? w.1.id with
    | none => exact ⟨_, _, rfl⟩
    | some decision =>
      cases decision with
      | approved => exact ⟨_, _, hcarried (.inr ⟨hmode, hget⟩)⟩
      | rejected => exact ⟨_, _, rfl⟩

theorem calls_executeAction_iff :
    (executeAction settings approvals w).Calls ↔
      Executes settings approvals w.1 ∧ (attempt (perform w.1 settings) w.2).called ≠ [] := by
  by_cases h : Executes settings approvals w.1
  · rw [executeAction_executes h, Entry.Calls, report_attempted]
    simp [h]
  · obtain ⟨status, detail, hidle⟩ := executeAction_idle h
    rw [hidle]
    exact iff_of_false calls_unattempted fun hc => h hc.1

theorem mem_entries {e : Entry F} (h : e ∈ entries settings approvals work) :
    ∃ w ∈ work, e = executeAction settings approvals w := by
  induction work with
  | nil => cases h
  | cons w rest ih =>
    rw [entries] at h
    split at h
    · rcases List.mem_cons.mp h with rfl | hrest
      · exact ⟨w, List.mem_cons_self, rfl⟩
      · obtain ⟨v, hv, he⟩ := ih hrest
        exact ⟨v, List.mem_cons_of_mem _ hv, he⟩
    · rw [List.mem_singleton] at h
      exact ⟨w, List.mem_cons_self, h⟩

theorem entries_reach {before after : List (Work F)}
    (h : ∀ v ∈ before, ∃ r, (executeAction settings approvals v).result = .ok r) :
    executeAction settings approvals w ∈ entries settings approvals (before ++ w :: after) := by
  induction before with
  | nil =>
    rw [List.nil_append, entries]
    split <;> exact List.mem_cons_self
  | cons v before ih =>
    obtain ⟨⟨r, hr⟩, hbefore⟩ := List.forall_mem_cons.mp h
    rw [List.cons_append, entries]
    simp only [hr]
    exact List.mem_cons_of_mem _ (ih hbefore)

end Performing

section Decisions

theorem get?_decisions (picked : String → Bool) (ids : List String) (k : String) :
    (decisions picked ids).get? k =
      if k ∈ ids then some (if picked k then .approved else .rejected) else none := by
  have hfind (l : List String) :
      ((l.map (fun id => (id, if picked id then Decision.approved else .rejected))).find?
        (fun e => e.1 = k)).map Prod.snd =
        if k ∈ l then some (if picked k then .approved else .rejected) else none := by
    induction l with
    | nil => rfl
    | cons id l ih =>
      rw [List.map_cons, List.find?_cons]
      by_cases hid : id = k
      · simp [hid]
      · have hne : k ≠ id := fun h => hid h.symm
        simp only [hid, decide_false, List.mem_cons, hne, false_or]
        exact ih
  rw [decisions, Dict.ofList, Dict.get?_update, Dict.get?_empty, Option.or_none, ← List.map_reverse,
    hfind]
  simp only [List.mem_reverse]

theorem get?_mergeDicts (left right : Approvals) (k : String) :
    (mergeDicts left right).get? k = (right.get? k).or (left.get? k) := by
  rw [mergeDicts, Dict.get?_update]
  congr 1
  cases hfind : right.items.reverse.find? (fun e => e.1 = k) with
  | none =>
    rw [List.find?_eq_none] at hfind
    refine (Dict.get?_eq_none.mpr ?_).symm
    intro hk
    obtain ⟨e, he, hek⟩ := List.mem_map.mp hk
    exact hfind e (List.mem_reverse.mpr he) (decide_eq_true hek)
  | some e =>
    have hmem := List.mem_reverse.mp (List.mem_of_find?_eq_some hfind)
    have hk : e.1 = k := by simpa using List.find?_some hfind
    subst hk
    exact (Dict.get?_eq_some.mpr hmem).symm

variable {normalize : String → String} {response : Json F} {ids : List String}
  {parsed : Approvals}

theorem parseApproval_decisions (h : parseApproval normalize response ids = .ok parsed) :
    ∃ picked, parsed = decisions picked ids := by
  cases response with
  | str s =>
    simp only [parseApproval] at h
    split_ifs at h <;> cases h <;> exact ⟨_, rfl⟩
  | dict items =>
    simp only [parseApproval, bind, Except.bind, pure, Except.pure] at h
    split at h
    · split at h
      · cases h
      · cases h
        exact ⟨_, rfl⟩
    · cases h
      exact ⟨_, rfl⟩
  | list xs =>
    simp only [parseApproval, bind, Except.bind, pure, Except.pure] at h
    split at h
    · cases h
    · cases h
      exact ⟨_, rfl⟩
  | null =>
    cases h
    exact ⟨_, rfl⟩
  | bool b =>
    cases h
    exact ⟨_, rfl⟩
  | int n =>
    cases h
    exact ⟨_, rfl⟩
  | float x =>
    cases h
    exact ⟨_, rfl⟩

variable {ordered : List (Action F)} {approvals merged : Approvals} {a : Action F}

theorem aprovar_get? (h : aprovar normalize ordered response approvals = .ok merged)
    (ha : a ∈ ordered) (hmode : a.mode = .approval) :
    merged.get? a.id = some .approved ↔ Approved normalize response ordered a := by
  obtain ⟨parsed, hparsed, hmerged⟩ := Exceptions.bind_ok h
  cases hmerged
  obtain ⟨picked, rfl⟩ := parseApproval_decisions hparsed
  have hid : a.id ∈ pendingIds ordered :=
    List.mem_map.mpr ⟨a, List.mem_filter.mpr ⟨ha, decide_eq_true hmode⟩, rfl⟩
  rw [get?_mergeDicts, get?_decisions, if_pos hid, Option.some_or, Approved, hparsed]
  simp only [Except.toOption, Option.bind_some, get?_decisions, if_pos hid]

theorem aprovar_of_approved (h : Approved normalize response ordered a) (approvals : Approvals) :
    ∃ merged, aprovar normalize ordered response approvals = .ok merged := by
  rw [Approved] at h
  rw [aprovar]
  cases hparsed : parseApproval normalize response (pendingIds ordered) with
  | error e => simp [hparsed, Except.toOption] at h
  | ok parsed => exact ⟨_, rfl⟩

end Decisions

section Runs

variable {normalize : String → String} {settings : Settings F} {response : Json F}
  {approvals : Approvals} {replies : Nat → List Reply} {ordered : List (Action F)}

omit [Amounts F] in
theorem mem_worked {w : Work F} (h : w ∈ worked ordered replies) : w.1 ∈ ordered := by
  obtain ⟨e, he, rfl⟩ := List.mem_map.mp h
  exact List.fst_mem_of_mem_zipIdx he

theorem action_executeAction {w : Work F} :
    (executeAction settings approvals w).action = w.1 := by
  by_cases h : Executes settings approvals w.1
  · rw [executeAction_executes h, report]
    split <;> rfl
  · obtain ⟨status, detail, hidle⟩ := executeAction_idle h
    rw [hidle]
    rfl

theorem perform_report {a : Action F} (h : a.type = .report) : perform a settings = [] := by
  rw [perform]
  simp only [h]

-- The actions the loop may carry out.
def Granted (settings : Settings F) (approved : Prop) (a : Action F) : Prop :=
  settings.dryRun = false ∧ (a.mode = .auto ∨ a.mode = .approval ∧ approved)

theorem afterDecidir_calls {e : Entry F}
    (he : e ∈ afterDecidir normalize settings response approvals replies ordered)
    (hcalls : e.Calls) :
    e.action ∈ ordered ∧ e.action.type ≠ .report ∧
      Granted settings (Approved normalize response ordered e.action) e.action := by
  have hcarried {held : Approvals} {w : Work F} (hw : w ∈ worked ordered replies)
      (he : e = executeAction settings held w)
      (happroved : w.1.mode = .approval → held.get? w.1.id = some .approved →
        Approved normalize response ordered w.1) :
      e.action ∈ ordered ∧ e.action.type ≠ .report ∧
        Granted settings (Approved normalize response ordered e.action) e.action := by
    subst he
    obtain ⟨⟨hlive, hmode⟩, hcalled⟩ := calls_executeAction_iff.mp hcalls
    rw [action_executeAction]
    refine ⟨mem_worked hw, fun hreport => ?_, hlive, ?_⟩
    · rw [perform_report hreport] at hcalled
      exact hcalled rfl
    · exact hmode.imp id fun h => ⟨h.1, happroved h.1 h.2⟩
  rw [afterDecidir] at he
  cases hnode : precisaAprovacao ordered with
  | relatar =>
    rw [hnode] at he
    cases he
  | executar =>
    rw [hnode] at he
    obtain ⟨w, hw, rfl⟩ := mem_entries he
    refine hcarried hw rfl fun hmode _ => ?_
    have hany : ordered.any (fun a => a.mode = .approval) = true :=
      List.any_eq_true.mpr ⟨w.1, mem_worked hw, decide_eq_true hmode⟩
    rw [precisaAprovacao, if_pos hany] at hnode
    cases hnode
  | aprovar =>
    rw [hnode] at he
    cases hmerged : aprovar normalize ordered response approvals with
    | error e => simp [hmerged] at he
    | ok merged =>
      simp only [hmerged] at he
      obtain ⟨w, hw, rfl⟩ := mem_entries he
      exact hcarried hw rfl fun hmode hget =>
        (aprovar_get? hmerged (mem_worked hw) hmode).mp hget

theorem within_recommend {type : ActionType} (h : WithinAutonomy type .recommend) :
    type = .report := by
  cases type <;> first | rfl | exact absurd h (by decide)

-- The refunds that are let through at a level that only recommends.
def GrantedRefund (normalize : String → String) (settings : Settings F) (response : Json F)
    (ordered : List (Action F)) (a : Action F) : Prop :=
  LargeRefund settings a ∧ ¬ OverCeiling settings a ∧ Approved normalize response ordered a

instance (normalize : String → String) (settings : Settings F) (response : Json F)
    (ordered : List (Action F)) (a : Action F) :
    Decidable (GrantedRefund normalize settings response ordered a) :=
  inferInstanceAs (Decidable (_ ∧ _))

theorem authorised_or_refund {a : Action F} (hranked : Ranked settings a)
    (htype : a.type ≠ .report)
    (hgranted : Granted settings (Approved normalize response ordered a) a) :
    Authorised settings (Approved normalize response ordered a) a ∨
      settings.autonomy = .recommend ∧ GrantedRefund normalize settings response ordered a := by
  obtain ⟨hlive, hauto | ⟨happroval, happroved⟩⟩ := hgranted
  · obtain ⟨hconsidered, hsmall, hwithin⟩ := hranked.auto hauto
    left
    refine ⟨hlive, ?_, hconsidered.affordable, .inl hwithin, fun h => absurd h hsmall⟩
    cases hlevel : settings.autonomy with
    | observe => exact absurd (hconsidered.reports hlevel) htype
    | recommend => exact absurd (within_recommend (hlevel ▸ hwithin)) htype
    | approve => exact .inl rfl
    | autonomous => exact .inr rfl
  · obtain ⟨hconsidered, hwhy⟩ := hranked.approval happroval
    have hauthorised (hlevel : settings.autonomy = .approve ∨ settings.autonomy = .autonomous) :
        Authorised settings (Approved normalize response ordered a) a :=
      ⟨hlive, hlevel, hconsidered.affordable, .inr happroved, fun _ => happroved⟩
    rcases hwhy with hlarge | hlevel
    · cases hlevel : settings.autonomy with
      | observe => exact absurd (hconsidered.reports hlevel) htype
      | recommend => exact .inr ⟨rfl, hlarge, hconsidered.affordable, happroved⟩
      | approve => exact .inl (hauthorised (.inl hlevel))
      | autonomous => exact .inl (hauthorised (.inr hlevel))
    · exact .inl (hauthorised hlevel)

def Served (normalize : String → String) (settings : Settings F) (response : Json F)
    (ordered : List (Action F)) : Prop :=
  settings.dryRun = false → settings.autonomy = .recommend →
    ∀ a, ordered.find? (fun a => GrantedRefund normalize settings response ordered a) = some a →
      Dict.lookup "transaction" a.payload = none

omit [Amounts F] in
theorem result_unattempted (a : Action F) (status : Status) (detail : String) :
    (unattempted a status detail).result = .ok ⟨a.id, status, detail⟩ := rfl

theorem result_of_report {w : Work F} (h : w.1.type = .report) :
    ∃ r, (executeAction settings approvals w).result = .ok r := by
  by_cases hexecutes : Executes settings approvals w.1
  · rw [executeAction_executes hexecutes, perform_report h]
    exact ⟨_, rfl⟩
  · obtain ⟨status, detail, hidle⟩ := executeAction_idle hexecutes
    exact ⟨_, by rw [hidle, result_unattempted]⟩

-- At a level that only recommends, whatever is carried out is a report or a granted refund.
theorem result_ok_recommend {w : Work F} {merged : Approvals}
    (hmerged : aprovar normalize ordered response approvals = .ok merged)
    (hranked : Ranked settings w.1) (hw : w.1 ∈ ordered) (hlevel : settings.autonomy = .recommend)
    (hrefund : ¬ GrantedRefund normalize settings response ordered w.1) :
    ∃ r, (executeAction settings merged w).result = .ok r := by
  by_cases hexecutes : Executes settings merged w.1
  · obtain ⟨-, hauto | ⟨happroval, hget⟩⟩ := id hexecutes
    · have hwithin := (hranked.auto hauto).2.2
      rw [hlevel] at hwithin
      exact result_of_report (within_recommend hwithin)
    · obtain ⟨hconsidered, hlarge | happrove | hautonomous⟩ := hranked.approval happroval
      · exact absurd ⟨hlarge, hconsidered.affordable, (aprovar_get? hmerged hw happroval).mp hget⟩
          hrefund
      · exact absurd (hlevel.symm.trans happrove) (by decide)
      · exact absurd (hlevel.symm.trans hautonomous) (by decide)
  · obtain ⟨status, detail, hidle⟩ := executeAction_idle hexecutes
    exact ⟨_, by rw [hidle, result_unattempted]⟩

omit [Amounts F] in
theorem worked_append (before after : List (Action F)) (a : Action F) :
    worked (before ++ a :: after) (fun _ => []) =
      before.map (fun b => (b, [])) ++ (a, []) :: after.map (fun b => (b, [])) := by
  have hall (l : List (Action F)) : worked l (fun _ => []) = l.map (fun b => (b, [])) := by
    have hfst : l.zipIdx.map Prod.fst = l := List.zipIdx_map_fst 0 l
    calc worked l (fun _ => []) = (l.zipIdx.map Prod.fst).map (fun b => (b, [])) := by
          rw [List.map_map]
          rfl
      _ = l.map (fun b => (b, [])) := by rw [hfst]
  rw [hall, List.map_append, List.map_cons]

theorem called_refund {a : Action F} (htype : a.type = .issueRefund) {t : Json F}
    (ht : Dict.lookup "transaction" a.payload = some t) (replies : List Reply) :
    (attempt (perform a settings) replies).called ≠ [] := by
  rw [perform]
  simp only [htype, item, ht, Call.items, attempt, Attempt.calling]
  exact List.cons_ne_nil _ _

theorem granted_refund_called {a : Action F} {t : Json F}
    (hranked : ∀ b ∈ ordered, Ranked settings b) (hlive : settings.dryRun = false)
    (hlevel : settings.autonomy = .recommend)
    (hfind : ordered.find? (fun a => GrantedRefund normalize settings response ordered a) = some a)
    (ht : Dict.lookup "transaction" a.payload = some t) :
    ∃ e ∈ afterDecidir normalize settings response approvals (fun _ => []) ordered,
      e.Calls ∧ e.action = a := by
  obtain ⟨hgranted, before, after, hsplit, hbefore⟩ := List.find?_eq_some_iff_append.mp hfind
  obtain ⟨hlarge, hcost, happroved⟩ := of_decide_eq_true hgranted
  have hmem : a ∈ ordered := hsplit ▸ List.mem_append_right _ List.mem_cons_self
  have hmode : a.mode = .approval :=
    (hranked a hmem).refund (by rw [hlevel]; decide) hcost hlarge
  have hnode : precisaAprovacao ordered = .aprovar :=
    if_pos (List.any_eq_true.mpr ⟨a, hmem, decide_eq_true hmode⟩)
  obtain ⟨merged, hmerged⟩ := aprovar_of_approved happroved approvals
  refine ⟨executeAction settings merged (a, []), ?_, ?_, action_executeAction⟩
  · have hwork : worked ordered (fun _ => []) =
        before.map (fun b => (b, [])) ++ (a, []) :: after.map (fun b => (b, [])) := by
      rw [hsplit, worked_append]
    simp only [afterDecidir, hnode, hmerged, hwork]
    refine entries_reach fun v hv => ?_
    obtain ⟨b, hb, rfl⟩ := List.mem_map.mp hv
    have hbmem : b ∈ ordered := hsplit ▸ List.mem_append_left _ hb
    refine result_ok_recommend hmerged (hranked b hbmem) hbmem hlevel ?_
    exact of_decide_eq_false (by simpa using hbefore b hb)
  · refine calls_executeAction_iff.mpr ⟨⟨hlive, .inr ⟨hmode, ?_⟩⟩, called_refund hlarge.1 ht _⟩
    exact (aprovar_get? hmerged hmem hmode).mpr happroved

theorem stops_without_transaction {w : Work F} {merged : Approvals}
    (hexecutes : Executes settings merged w.1) (htype : w.1.type = .issueRefund)
    (ht : Dict.lookup "transaction" w.1.payload = none) :
    ¬ (executeAction settings merged w).Calls ∧
      (executeAction settings merged w).result = .error "transaction" := by
  have hperform : perform w.1 settings = [.raises (keyError "transaction")] := by
    rw [perform]
    simp only [htype, item, ht]
  rw [calls_executeAction_iff, executeAction_executes hexecutes, hperform]
  exact ⟨fun h => h.2 rfl, rfl⟩

theorem entries_served {work : List (Work F)} {merged : Approvals}
    (hexecutes : ∀ w ∈ work, GrantedRefund normalize settings response ordered w.1 →
      Executes settings merged w.1)
    (hserved : ∀ a, (work.map Prod.fst).find?
        (fun a => GrantedRefund normalize settings response ordered a) = some a →
      Dict.lookup "transaction" a.payload = none)
    {e : Entry F} (he : e ∈ entries settings merged work) (hcalls : e.Calls) :
    ¬ GrantedRefund normalize settings response ordered e.action := by
  induction work with
  | nil => cases he
  | cons w rest ih =>
    obtain ⟨hw, hrest⟩ := List.forall_mem_cons.mp hexecutes
    by_cases hgranted : GrantedRefund normalize settings response ordered w.1
    · have ht := hserved w.1 (List.find?_cons_of_pos (decide_eq_true hgranted))
      obtain ⟨hsilent, hstop⟩ := stops_without_transaction (hw hgranted) hgranted.1.1 ht
      rw [entries] at he
      simp only [hstop, List.mem_singleton] at he
      exact absurd (he ▸ hcalls) hsilent
    · rw [entries] at he
      have hnext : ∀ a, (rest.map Prod.fst).find?
          (fun a => GrantedRefund normalize settings response ordered a) = some a →
          Dict.lookup "transaction" a.payload = none := by
        intro a ha
        refine hserved a ?_
        rw [List.map_cons, List.find?_cons_of_neg (by simpa using hgranted)]
        exact ha
      have hfirst : e = executeAction settings merged w →
          ¬ GrantedRefund normalize settings response ordered e.action := by
        rintro rfl
        rw [action_executeAction]
        exact hgranted
      split at he
      · rcases List.mem_cons.mp he with hhead | htail
        · exact hfirst hhead
        · exact ih hrest hnext htail
      · exact hfirst (List.mem_singleton.mp he)

omit [Amounts F] in
theorem map_worked : (worked ordered replies).map Prod.fst = ordered := by
  rw [worked, List.map_map]
  exact List.zipIdx_map_fst 0 ordered

theorem served_refund {e : Entry F} (hranked : ∀ a ∈ ordered, Ranked settings a)
    (hlive : settings.dryRun = false) (hlevel : settings.autonomy = .recommend)
    (hserved : Served normalize settings response ordered)
    (he : e ∈ afterDecidir normalize settings response approvals replies ordered)
    (hcalls : e.Calls) (hmem : e.action ∈ ordered) :
    ¬ GrantedRefund normalize settings response ordered e.action := by
  intro hgranted
  have hmode {a : Action F} (ha : a ∈ ordered)
      (hgranted : GrantedRefund normalize settings response ordered a) : a.mode = .approval :=
    (hranked a ha).refund (by rw [hlevel]; decide) hgranted.2.1 hgranted.1
  have hnode : precisaAprovacao ordered = .aprovar :=
    if_pos (List.any_eq_true.mpr ⟨e.action, hmem, decide_eq_true (hmode hmem hgranted)⟩)
  obtain ⟨merged, hmerged⟩ := aprovar_of_approved hgranted.2.2 approvals
  simp only [afterDecidir, hnode, hmerged] at he
  refine entries_served (fun w hw hrefund => ⟨hlive, .inr ⟨?_, ?_⟩⟩) ?_ he hcalls hgranted
  · exact hmode (mem_worked hw) hrefund
  · exact (aprovar_get? hmerged (mem_worked hw) (hmode (mem_worked hw) hrefund)).mpr hrefund.2.2
  · rw [map_worked]
    exact hserved hlive hlevel

end Runs

def liveSettings (autonomy : Autonomy) : Settings Rat where
  product := ⟨"Ebook", 97, 0, 0.099, 7⟩
  thresholds := ⟨1, 0.35, 0.6⟩
  guardrails := ⟨150, 2, 0.3, 50, 2, 25, 300, true⟩
  autonomy := autonomy
  dryRun := false
  metaPixelId := ""
  analysisWindowDays := 7

def refund : Action Rat where
  id := "refund-1"
  type := .issueRefund
  domain := .support
  title := "Reembolsar"
  payload := [("transaction", .str "HP1"), ("value_brl", .float 500)]
  rationale := ""
  expectedImpact := 0
  cost := 0
  reversible := false
  priority := 0
  mode := .recommend
  modeReason := ""
  sourceFinding := none

def rankedRefund : Action Rat :=
  decided (prioritized refund 0.3) .approval
    ("reembolso de " ++ Amounts.brl (500 : Rat) ++ " acima do limite automático de " ++
      Amounts.brl (300 : Rat))

theorem rank_refund (autonomy : Autonomy) (h : autonomy ≠ .observe) :
    rankActions [refund] [] (liveSettings autonomy) = .ok [rankedRefund] := by
  have hresolve : resolveMode (prioritized refund 0.3) (liveSettings autonomy) =
      .ok rankedRefund := by
    cases autonomy with
    | observe => exact absurd rfl h
    | recommend => rfl
    | approve => rfl
    | autonomous => rfl
  have hrank : rankAction [] (liveSettings autonomy) refund = .ok rankedRefund := hresolve
  rw [rankActions, List.mapM_cons, hrank]
  exact congrArg Except.ok (List.mergeSort_singleton _)

end Hotmart

end LangGraph

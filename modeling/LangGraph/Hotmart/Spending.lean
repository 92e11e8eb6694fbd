import LangGraph.Hotmart.Graph
import Mathlib.Data.List.Perm.Basic

namespace LangGraph

open Collections Store

namespace Hotmart

section Calls

variable {F : Type}

def callsOf (es : List (Entry F)) : List (Call F) :=
  es.flatMap (fun e => e.attempted.elim [] Attempt.called)

def Item.call? : Item F → Option (Call F)
  | .call c => some c
  | _ => none

theorem called_sublist (items : List (Item F)) (replies : List Reply) :
    (attempt items replies).called.Sublist (items.filterMap Item.call?) := by
  induction items generalizing replies with
  | nil => exact .slnil
  | cons item items ih =>
    cases item with
    | call c => exact (ih replies).cons_cons c
    | raises e => exact List.nil_sublist _
    | command c =>
      rw [attempt]
      split
      · exact ih _
      · exact List.nil_sublist _

variable [Amounts F] {settings : Settings F} {approvals : Approvals}

def planned (settings : Settings F) (a : Action F) : List (Call F) :=
  (perform a settings).filterMap Item.call?

theorem attempted_sublist (w : Work F) :
    ((executeAction settings approvals w).attempted.elim [] Attempt.called).Sublist
      (planned settings w.1) := by
  by_cases h : Executes settings approvals w.1
  · rw [executeAction_executes h, report_attempted]
    exact called_sublist _ _
  · obtain ⟨status, detail, hidle⟩ := executeAction_idle h
    rw [hidle]
    exact List.nil_sublist _

theorem callsOf_sublist (work : List (Work F)) :
    (callsOf (entries settings approvals work)).Sublist
      ((work.map Prod.fst).flatMap (planned settings)) := by
  induction work with
  | nil => exact .slnil
  | cons w rest ih =>
    rw [entries, List.map_cons, List.flatMap_cons]
    split
    · exact (attempted_sublist w).append ih
    · rw [callsOf, List.flatMap_singleton]
      exact (attempted_sublist w).trans (List.sublist_append_left _ _)

omit [Amounts F] in
theorem mem_callsOf {es : List (Entry F)} {c : Call F} (h : c ∈ callsOf es) :
    ∃ e ∈ es, ∃ a, e.attempted = some a ∧ c ∈ a.called := by
  obtain ⟨e, he, hc⟩ := List.mem_flatMap.mp h
  cases ha : e.attempted with
  | none => simp [ha] at hc
  | some a => exact ⟨e, he, a, ha, by simpa [ha] using hc⟩

theorem perform_congr {a b : Action F} (h : SameRequest a b) :
    perform b settings = perform a settings := by
  rw [perform, perform, h.type, h.payload]

theorem planned_congr {a b : Action F} (h : SameRequest a b) :
    planned settings b = planned settings a := by
  rw [planned, planned, perform_congr h]

end Calls

section Ranking

variable {F : Type} [Amounts F] {settings : Settings F} {findings : List (Finding F)}

theorem sameRequest_rankAction {action a : Action F}
    (h : rankAction findings settings action = .ok a) : SameRequest action a := by
  obtain ⟨base, hresolve⟩ := rankAction_ok h
  obtain ⟨hid, htype, hpayload, hcost⟩ := (resolveMode_cases hresolve).1
  exact ⟨hid, htype, hpayload, hcost⟩

-- Ranking keeps the requests and reorders them.
theorem rankActions_requests {actions ordered : List (Action F)}
    (h : rankActions actions findings settings = .ok ordered) :
    ∃ ranked, ordered.Perm ranked ∧ List.Forall₂ SameRequest actions ranked := by
  obtain ⟨ranked, hranked, hsorted⟩ := Exceptions.bind_ok h
  cases hsorted
  refine ⟨ranked, List.mergeSort_perm _ _, ?_⟩
  exact (Exceptions.forall₂_of_mapM hranked).imp fun _ _ => sameRequest_rankAction

theorem planned_perm {actions ordered : List (Action F)}
    (h : rankActions actions findings settings = .ok ordered) :
    (ordered.flatMap (planned settings)).Perm (actions.flatMap (planned settings)) := by
  obtain ⟨ranked, hperm, hsame⟩ := rankActions_requests h
  have hplanned : ranked.flatMap (planned settings) = actions.flatMap (planned settings) := by
    clear hperm h
    induction hsame with
    | nil => rfl
    | cons hsame _ ih => rw [List.flatMap_cons, List.flatMap_cons, ih, planned_congr hsame]
  exact hplanned ▸ hperm.flatMap_right _

theorem request_of_mem {actions ordered : List (Action F)}
    (h : rankActions actions findings settings = .ok ordered) {a : Action F} (ha : a ∈ ordered) :
    ∃ action ∈ actions, SameRequest action a := by
  obtain ⟨ranked, hperm, hsame⟩ := rankActions_requests h
  have hranked := hperm.mem_iff.mp ha
  clear hperm h
  induction hsame with
  | nil => cases hranked
  | cons hsame _ ih =>
    rcases List.mem_cons.mp hranked with rfl | hrest
    · exact ⟨_, List.mem_cons_self, hsame⟩
    · obtain ⟨action, hmem, h⟩ := ih hrest
      exact ⟨action, List.mem_cons_of_mem _ hmem, h⟩

end Ranking

section Observations

variable {F : Type}

def Call.plan? : Call F → Option (List (String × Json F))
  | .createCampaign plan => some plan
  | _ => none

-- The campaign that a pause or a budget call is about.
def Call.campaign? : Call F → Option (Json F)
  | .updateDailyBudget adsetId _ => some adsetId
  | .pauseCampaign campaignId => some campaignId
  | _ => none

variable [Amounts F] {settings : Settings F} {β : Type} (seen : Call F → Option β)

def observed (settings : Settings F) (a : Action F) : List β :=
  (planned settings a).filterMap seen

theorem observed_sublist {approvals : Approvals} (work : List (Work F)) :
    ((callsOf (entries settings approvals work)).filterMap seen).Sublist
      ((work.map Prod.fst).flatMap (observed seen settings)) := by
  have hcalls := (@callsOf_sublist _ _ settings approvals work).filterMap seen
  rw [List.filterMap_flatMap] at hcalls
  exact hcalls

theorem observed_perm {actions ordered : List (Action F)} {findings : List (Finding F)}
    (h : rankActions actions findings settings = .ok ordered) :
    (ordered.flatMap (observed seen settings)).Perm
      (actions.flatMap (observed seen settings)) := by
  have hplanned := (planned_perm h).filterMap seen
  rw [List.filterMap_flatMap, List.filterMap_flatMap] at hplanned
  exact hplanned

end Observations

section Proposals

variable {F : Type} [Amounts F] {settings : Settings F} {fresh : Nat → String}

theorem planned_escalation (n : Nat) (r : EmailReply F) :
    planned settings (escalation fresh settings n r) =
      [.markHandled (.str r.emailId) "agente/escalado"] := rfl

theorem planned_response (n : Nat) (r : EmailReply F) :
    planned settings (response fresh n r) =
      [.sendReply (.str r.recipient) (.str r.subject) (.str r.body) (.str ""),
        .markHandled (.str r.emailId) "agente/respondido"] := rfl

theorem planned_draft (n : Nat) (r : EmailReply F) :
    planned settings (draft fresh n r) =
      [.saveDraft (.str r.recipient) (.str r.subject) (.str r.body)] := rfl

theorem planned_campaignAction (n : Nat) (p : CampaignPlan F) :
    planned settings (campaignAction fresh n p) = [.createCampaign p.toDict] := rfl

theorem planned_pause (n : Nat) (f : Finding F) (id : Json F) :
    planned settings (pause fresh n f id) = [.pauseCampaign id] := rfl

theorem planned_budgetIncrease (n : Nat) (f : Finding F) (id : Json F) (current : F) :
    planned settings (budgetIncrease fresh settings n f id current) =
      if Amounts.gt (raised settings current) settings.guardrails.maxDailyBudget then []
      else [.updateDailyBudget id (raised settings current)] := by
  have hperform : perform (budgetIncrease fresh settings n f id current) settings =
      if Amounts.gt (raised settings current) settings.guardrails.maxDailyBudget then
        [.raises (.guardrail ("guardrail 'max_daily_budget_brl': " ++
          Amounts.brl (raised settings current) ++ " acima do teto configurado"))]
      else (Call.updateDailyBudget id (raised settings current)).items := rfl
  rw [planned, hperform]
  split <;> rfl

theorem observed_emails {β : Type} (seen : Call F → Option β)
    (hreply : ∀ recipient subject body inReplyTo,
      seen (.sendReply recipient subject body inReplyTo) = none)
    (hdraft : ∀ recipient subject body, seen (.saveDraft recipient subject body) = none)
    (hmark : ∀ id label, seen (.markHandled id label) = none)
    (n : Nat) (autoBudget : Int) (replies : List (EmailReply F)) :
    (actionsFromEmails fresh settings n autoBudget replies).flatMap (observed seen settings) =
      [] := by
  induction replies generalizing n autoBudget with
  | nil => rfl
  | cons r replies ih =>
    have hescalation : observed seen settings (escalation fresh settings n r) = [] := by
      rw [observed, planned_escalation, List.filterMap_cons_none (hmark _ _), List.filterMap_nil]
    have hresponse : observed seen settings (response fresh n r) = [] := by
      rw [observed, planned_response, List.filterMap_cons_none (hreply _ _ _ _),
        List.filterMap_cons_none (hmark _ _), List.filterMap_nil]
    have hdrafted : observed seen settings (draft fresh n r) = [] := by
      rw [observed, planned_draft, List.filterMap_cons_none (hdraft _ _ _), List.filterMap_nil]
    rw [actionsFromEmails]
    split
    · rw [List.flatMap_cons, hescalation, ih, List.append_nil]
    · split
      · rw [List.flatMap_cons, hresponse, ih, List.append_nil]
      · rw [List.flatMap_cons, hdrafted, ih, List.append_nil]

theorem plans_of_campaigns (n : Nat) (plans : List (CampaignPlan F)) :
    (actionsFromCampaigns fresh n plans).flatMap (observed Call.plan? settings) =
      plans.map CampaignPlan.toDict := by
  induction plans generalizing n with
  | nil => rfl
  | cons p plans ih =>
    rw [actionsFromCampaigns, List.flatMap_cons, ih, observed, planned_campaignAction]
    rfl

theorem changed_of_campaigns (n : Nat) (plans : List (CampaignPlan F)) :
    (actionsFromCampaigns fresh n plans).flatMap (observed Call.campaign? settings) = [] := by
  induction plans generalizing n with
  | nil => rfl
  | cons p plans ih =>
    rw [actionsFromCampaigns, List.flatMap_cons, ih, observed, planned_campaignAction]
    rfl

-- The campaign a finding suggests to pause or to scale.
def Finding.campaign? (f : Finding F) : Option (Json F) :=
  if ("pausar_campanha" ∈ f.suggestedActions ∨ "escalar_orcamento" ∈ f.suggestedActions) ∧
      namesCampaign f = true then
    some (field f.evidence "campaign_id" .null)
  else none

-- What a finding turns into, with the finding it comes from.
theorem actionFromFinding_cases {n : Nat} {f : Finding F} {a : Option (Action F)}
    (h : actionFromFinding fresh settings n f = .ok a) :
    a = none ∨ ∃ id, f.campaign? = some id ∧
      (a = some (pause fresh n f id) ∨ ∃ current,
        (field f.evidence "daily_budget_brl" (.float 0.0)).toFloat = .ok current ∧
          a = some (budgetIncrease fresh settings n f id current)) := by
  rw [actionFromFinding] at h
  split at h
  · rename_i hpause
    cases h
    have hid : f.campaign? = some (field f.evidence "campaign_id" .null) :=
      if_pos ⟨.inl hpause.1, hpause.2⟩
    exact .inr ⟨_, hid, .inl rfl⟩
  · split at h
    · rename_i hscale
      obtain ⟨current, hcurrent, h⟩ := Exceptions.bind_ok h
      cases h
      have hid : f.campaign? = some (field f.evidence "campaign_id" .null) :=
        if_pos ⟨.inr hscale.1, hscale.2⟩
      exact .inr ⟨_, hid, .inr ⟨current, hcurrent, rfl⟩⟩
    · cases h
      exact .inl rfl

theorem actionsFromFindings_cons {n : Nat} {f : Finding F} {findings : List (Finding F)}
    {actions : List (Action F)}
    (h : actionsFromFindings fresh settings n (f :: findings) = .ok actions) :
    ∃ a rest, actionFromFinding fresh settings n f = .ok a ∧
      actionsFromFindings fresh settings (if a.isSome then n + 1 else n) findings = .ok rest ∧
      actions = a.toList ++ rest := by
  rw [actionsFromFindings] at h
  obtain ⟨a, ha, h⟩ := Exceptions.bind_ok h
  cases a with
  | none => exact ⟨none, actions, ha, h, rfl⟩
  | some a =>
    obtain ⟨rest, hrest, h⟩ := Exceptions.bind_ok h
    cases h
    exact ⟨some a, rest, ha, hrest, rfl⟩

theorem observed_budgetIncrease (n : Nat) (f : Finding F) (id : Json F) (current : F) :
    (observed Call.campaign? settings (budgetIncrease fresh settings n f id current)).Sublist
      [id] := by
  rw [observed, planned_budgetIncrease]
  split
  · exact List.nil_sublist _
  · exact .refl _

theorem changed_of_finding {n : Nat} {f : Finding F} {a : Option (Action F)}
    (h : actionFromFinding fresh settings n f = .ok a) :
    (a.toList.flatMap (observed Call.campaign? settings)).Sublist f.campaign?.toList := by
  rcases actionFromFinding_cases h with rfl | ⟨id, hid, rfl | ⟨current, -, rfl⟩⟩
  · exact List.nil_sublist _
  · rw [hid]
    exact .refl _
  · rw [hid, Option.toList_some, Option.toList_some, List.flatMap_singleton]
    exact observed_budgetIncrease n f id current

theorem changed_of_findings {n : Nat} {findings : List (Finding F)} {actions : List (Action F)}
    (h : actionsFromFindings fresh settings n findings = .ok actions) :
    (actions.flatMap (observed Call.campaign? settings)).Sublist
      (findings.filterMap Finding.campaign?) := by
  induction findings generalizing n actions with
  | nil =>
    cases h
    exact .slnil
  | cons f findings ih =>
    obtain ⟨a, rest, ha, hrest, rfl⟩ := actionsFromFindings_cons h
    rw [List.flatMap_append, List.filterMap_eq_flatMap_toList, List.flatMap_cons,
      ← List.filterMap_eq_flatMap_toList]
    exact (changed_of_finding ha).append (ih hrest)

theorem plans_of_finding {n : Nat} {f : Finding F} {a : Option (Action F)}
    (h : actionFromFinding fresh settings n f = .ok a) :
    a.toList.flatMap (observed Call.plan? settings) = [] := by
  rcases actionFromFinding_cases h with rfl | ⟨id, -, rfl | ⟨current, -, rfl⟩⟩
  · rfl
  · rfl
  · rw [Option.toList_some, List.flatMap_singleton, observed, planned_budgetIncrease]
    split <;> rfl

theorem plans_of_findings {n : Nat} {findings : List (Finding F)} {actions : List (Action F)}
    (h : actionsFromFindings fresh settings n findings = .ok actions) :
    actions.flatMap (observed Call.plan? settings) = [] := by
  induction findings generalizing n actions with
  | nil =>
    cases h
    rfl
  | cons f findings ih =>
    obtain ⟨a, rest, ha, hrest, rfl⟩ := actionsFromFindings_cons h
    rw [List.flatMap_append, plans_of_finding ha, ih hrest]
    rfl

end Proposals

section Findings

variable {F : Type} [Amounts F] {settings : Settings F} {c : CampaignPerformance F}
  {campaigns : List (CampaignPerformance F)} {f : Finding F} {findings silent : List (Finding F)}

theorem prioritize_perm {ranked : List (Finding F)}
    (h : prioritize findings settings = .ok ranked) : ranked.Perm findings := by
  obtain ⟨scored, hscored, hsorted⟩ := Exceptions.bind_ok h
  cases hsorted
  have hpairs := Exceptions.forall₂_of_mapM hscored
  have hfst : scored.map Prod.fst = findings := by
    clear hscored h
    induction hpairs with
    | nil => rfl
    | cons hpair _ ih =>
      obtain ⟨score, -, hpair⟩ := Exceptions.bind_ok hpair
      cases hpair
      rw [List.map_cons, ih]
  have hmerged := (List.mergeSort_perm scored (fun a b => !rankedBefore b a)).map Prod.fst
  rw [hfst] at hmerged
  exact hmerged

theorem campaign?_of_lookup (h : Dict.lookup "campaign_id" f.evidence = none) :
    f.campaign? = none := by
  refine if_neg ?_
  rw [namesCampaign, field, h]
  exact fun hnamed => Bool.noConfusion hnamed.2

theorem campaign?_of_evidence (h : f.evidence = c.toDict) :
    f.campaign? = none ∨ f.campaign? = some (.str c.campaignId) := by
  have hid : field f.evidence "campaign_id" .null = .str c.campaignId := by rw [h]; rfl
  rw [Finding.campaign?, hid]
  split
  · exact .inr rfl
  · exact .inl rfl

def Silent (findings : List (Finding F)) : Prop := ∀ f ∈ findings, f.campaign? = none

theorem silent_filterMap (h : Silent findings) : findings.filterMap Finding.campaign? = [] :=
  List.filterMap_eq_nil_iff.mpr h

-- Every campaign is named by one finding at most, and by what was read of it.
structure Named (campaigns : List (CampaignPerformance F)) (findings : List (Finding F)) :
    Prop where
  once : (findings.filterMap Finding.campaign?).Sublist
    (campaigns.map (fun c => Json.str c.campaignId))
  known : ∀ f ∈ findings, ∀ id, f.campaign? = some id → ∃ c ∈ campaigns, f.evidence = c.toDict

theorem Named.append_silent (h : Named campaigns findings) (hsilent : Silent silent) :
    Named campaigns (findings ++ silent) := by
  refine ⟨?_, fun f hf id hid => ?_⟩
  · rw [List.filterMap_append, silent_filterMap hsilent, List.append_nil]
    exact h.once
  · rcases List.mem_append.mp hf with hf | hf
    · exact h.known f hf id hid
    · exact absurd (hsilent f hf) (by simp [hid])

theorem Silent.append_named (hsilent : Silent silent) (h : Named campaigns findings) :
    Named campaigns (silent ++ findings) := by
  refine ⟨?_, fun f hf id hid => ?_⟩
  · rw [List.filterMap_append, silent_filterMap hsilent, List.nil_append]
    exact h.once
  · rcases List.mem_append.mp hf with hf | hf
    · exact absurd (hsilent f hf) (by simp [hid])
    · exact h.known f hf id hid

theorem named_nil : Named campaigns ([] : List (Finding F)) :=
  ⟨List.nil_sublist _, fun _ hf => absurd hf List.not_mem_nil⟩

theorem named_append {more : List (CampaignPerformance F)} {findings' : List (Finding F)}
    (h : Named campaigns findings) (h' : Named more findings') :
    Named (campaigns ++ more) (findings ++ findings') := by
  refine ⟨?_, fun f hf id hid => ?_⟩
  · rw [List.filterMap_append, List.map_append]
    exact h.once.append h'.once
  · rcases List.mem_append.mp hf with hf | hf
    · obtain ⟨c, hc, hevidence⟩ := h.known f hf id hid
      exact ⟨c, List.mem_append_left _ hc, hevidence⟩
    · obtain ⟨c, hc, hevidence⟩ := h'.known f hf id hid
      exact ⟨c, List.mem_append_right _ hc, hevidence⟩

theorem named_single (h : f.evidence = c.toDict) : Named [c] [f] := by
  refine ⟨?_, fun g hg _ _ => ⟨c, List.mem_singleton_self c, by rw [List.mem_singleton.mp hg, h]⟩⟩
  rcases campaign?_of_evidence h with hnone | hsome
  · rw [List.filterMap_cons_none hnone]
    exact List.nil_sublist _
  · rw [List.filterMap_cons_some hsome]
    exact .refl _

theorem named_judged (c : CampaignPerformance F) (settings : Settings F) :
    Named [c] (judged c settings) := by
  rw [judged]
  split
  · exact named_single rfl
  · split
    · exact named_single rfl
    · split
      · exact named_single rfl
      · exact named_nil

theorem named_diagnoseCampaign (c : CampaignPerformance F) :
    Named [c] (diagnoseCampaign settings c) := by
  have hobjective : (wrongObjective c).campaign? = none :=
    if_neg (fun h => h.1.elim List.not_mem_nil List.not_mem_nil)
  rw [diagnoseCampaign]
  split
  · exact named_nil
  · split
    · exact named_single rfl
    · refine (named_judged c settings).append_silent ?_
      split
      · exact fun f hf => List.mem_singleton.mp hf ▸ hobjective
      · exact fun f hf => absurd hf List.not_mem_nil

theorem named_diagnoseCampaigns (campaigns : List (CampaignPerformance F)) :
    Named campaigns (diagnoseCampaigns campaigns settings) := by
  induction campaigns with
  | nil => exact named_nil
  | cons c campaigns ih => exact named_append (named_diagnoseCampaign c) ih

theorem silent_checkFunding (status : AdAccountStatus F) (settings : Settings F) :
    Silent (checkFunding status settings) := by
  have hone {f : Finding F} (h : f.evidence = status.toDict) : Silent [f] := by
    intro g hg
    refine campaign?_of_lookup ?_
    rw [List.mem_singleton.mp hg, h]
    rfl
  rw [checkFunding]
  split
  · exact hone rfl
  · split
    · exact hone rfl
    · split
      · exact hone rfl
      · exact fun f hf => absurd hf List.not_mem_nil

theorem silent_analytics (found : List (Finding F × AnalyticsEvidence F)) :
    Silent (found.map (fun f => signal f.1 f.2.toDict)) := by
  intro f hf
  obtain ⟨⟨f, evidence⟩, -, rfl⟩ := List.mem_map.mp hf
  refine campaign?_of_lookup ?_
  cases evidence <;> rfl

theorem silent_support (found : List (Finding F × SupportEvidence)) :
    Silent (found.map (fun f => signal f.1 f.2.toDict)) := by
  intro f hf
  obtain ⟨⟨f, evidence⟩, -, rfl⟩ := List.mem_map.mp hf
  refine campaign?_of_lookup ?_
  cases evidence <;> rfl

end Findings

section Thread

variable {F : Type} [Amounts F] {texts : Texts} {settings : Settings F} {r : Request F}
  {s : AgentState F}

structure Gathered (r : Request F) (s : AgentState F) : Prop where
  named : Named (r.insights.getD []) s.findings
  account : ∀ status, s.adAccount = some status → r.account = .ok status

theorem gathered_interpreted : Gathered r (interpreted texts r .empty) := by
  rw [interpreted]
  split
  · exact ⟨named_nil, fun _ h => nomatch h⟩
  · exact ⟨named_nil, fun _ h => nomatch h⟩

theorem gathered_ads (hfindings : s.findings = []) (h : Gathered r s) :
    Gathered r (ads settings r s) := by
  rw [ads]
  cases haccount : r.account with
  | error e => exact ⟨h.named, h.account⟩
  | ok status =>
    refine ⟨?_, fun _ hs => by cases hs; exact haccount⟩
    simp only [hfindings, List.nil_append]
    exact (silent_checkFunding status settings).append_named (named_diagnoseCampaigns _)

theorem gathered_analytics (h : Gathered r s) : Gathered r (analytics r s) := by
  rw [analytics]
  cases r.analytics with
  | error e => exact ⟨h.named, h.account⟩
  | ok found => exact ⟨h.named.append_silent (silent_analytics _), h.account⟩

theorem gathered_suporte (h : Gathered r s) : Gathered r (suporte r s) := by
  rw [suporte]
  cases r.mailbox with
  | error e => exact ⟨h.named, h.account⟩
  | ok found => exact ⟨h.named.append_silent (silent_support _), h.account⟩

theorem gathered_modules :
    Gathered r (modules settings r (interpreted texts r .empty)) := by
  have hempty : (interpreted texts r .empty).findings = [] := by
    rw [interpreted]
    split <;> rfl
  have hads : Gathered r (if Module.ads ∈ despachar (interpreted texts r .empty).routing then
      ads settings r (interpreted texts r .empty) else interpreted texts r .empty) := by
    split
    · exact gathered_ads hempty gathered_interpreted
    · exact gathered_interpreted
  rw [modules]
  split
  · split
    · exact gathered_suporte (gathered_analytics hads)
    · exact gathered_suporte hads
  · split
    · exact gathered_analytics hads
    · exact hads

theorem approved_actions {s' : AgentState F} (h : approved texts r s = .ok s') :
    s'.actions = s.actions := by
  rw [approved] at h
  split at h
  · obtain ⟨merged, -, h⟩ := Exceptions.bind_ok h
    cases h
    rfl
  · cases h
    rfl

-- How the run gets from what the modules found to the actions it executes.
structure Planning (texts : Texts) (settings : Settings F) (r : Request F) (m : AgentState F)
    (ranked : List (Finding F)) (actions ordered : List (Action F)) : Prop where
  prioritized : prioritize m.findings settings = .ok ranked
  proposed : proposed settings r.fresh m (plansOf texts settings m).1 ranked = .ok actions
  ordered : rankActions actions ranked settings = .ok ordered

theorem planning_of_reached {s₀ : AgentState F} (h : reached texts settings r s₀ = .ok s) :
    ∃ ranked actions, Planning texts settings r
      (modules settings r (interpreted texts r s₀)) ranked actions s.actions := by
  obtain ⟨d, hd, happroved⟩ := Exceptions.bind_ok h
  obtain ⟨ranked, hranked, hd⟩ := Exceptions.bind_ok hd
  obtain ⟨actions, hactions, hd⟩ := Exceptions.bind_ok hd
  obtain ⟨ordered, hordered, hd⟩ := Exceptions.bind_ok hd
  refine ⟨ranked, actions, hranked, hactions, ?_⟩
  rw [approved_actions happroved]
  cases hd
  exact hordered

theorem executed_sublist {β : Type} (seen : Call F → Option β) (r : Request F)
    (s : AgentState F) :
    ((callsOf (executed settings r s)).filterMap seen).Sublist
      (s.actions.flatMap (observed seen settings)) := by
  have hrun := @observed_sublist _ _ settings _ seen s.approvals (worked s.actions r.replies)
  rw [map_worked] at hrun
  rw [executed]
  split
  · exact List.nil_sublist _
  · exact hrun

theorem mem_executed {c : Call F} (h : c ∈ callsOf (executed settings r s)) :
    ∃ a ∈ s.actions, Executes settings s.approvals a ∧ c ∈ planned settings a := by
  obtain ⟨e, he, t, ht, hc⟩ := mem_callsOf h
  have hentries : e ∈ entries settings s.approvals (worked s.actions r.replies) := by
    rw [executed] at he
    split at he
    · cases he
    · exact he
  obtain ⟨w, hw, rfl⟩ := mem_entries hentries
  have hexecutes : Executes settings s.approvals w.1 :=
    (calls_executeAction_iff.mp ⟨t, ht, List.ne_nil_of_mem hc⟩).1
  rw [executeAction_executes hexecutes, report_attempted] at ht
  cases ht
  exact ⟨w.1, mem_worked hw, hexecutes, (called_sublist _ _).subset hc⟩

theorem Ranked.affordable {approvals : Approvals} {a : Action F}
    (h : Ranked settings a) (hexecutes : Executes settings approvals a) :
    ¬ OverCeiling settings a := by
  rcases hexecutes.2 with hauto | ⟨happroval, -⟩
  · exact (h.auto hauto).1.affordable
  · exact (h.approval happroval).1.affordable

theorem unseen_of_nil {β : Type} {seen : Call F → Option β} {actions : List (Action F)}
    (h : actions.flatMap (observed seen settings) = []) {a : Action F} (ha : a ∈ actions)
    {c : Call F} (hc : c ∈ planned settings a) : seen c = none :=
  List.filterMap_eq_nil_iff.mp (List.flatMap_eq_nil_iff.mp h a ha) c hc

theorem mem_actionsFromCampaigns {fresh : Nat → String} {n : Nat} {plans : List (CampaignPlan F)}
    {a : Action F} (h : a ∈ actionsFromCampaigns fresh n plans) :
    ∃ m p, a = campaignAction fresh m p := by
  induction plans generalizing n with
  | nil => cases h
  | cons p plans ih =>
    rcases List.mem_cons.mp h with rfl | hrest
    · exact ⟨n, p, rfl⟩
    · exact ih hrest

theorem mem_actionsFromFindings {fresh : Nat → String} {n : Nat} {findings : List (Finding F)}
    {actions : List (Action F)} (h : actionsFromFindings fresh settings n findings = .ok actions)
    {a : Action F} (ha : a ∈ actions) :
    ∃ f ∈ findings, ∃ m, actionFromFinding fresh settings m f = .ok (some a) := by
  induction findings generalizing n actions with
  | nil =>
    cases h
    cases ha
  | cons f findings ih =>
    obtain ⟨b, rest, hb, hrest, rfl⟩ := actionsFromFindings_cons h
    rcases List.mem_append.mp ha with hfirst | hlater
    · rw [Option.mem_toList] at hfirst
      exact ⟨f, List.mem_cons_self, n, hfirst ▸ hb⟩
    · obtain ⟨g, hg, m, hm⟩ := ih hrest hlater
      exact ⟨g, List.mem_cons_of_mem _ hg, m, hm⟩

theorem plansOf_length (texts : Texts) (settings : Settings F) (s : AgentState F) :
    (plansOf texts settings s).1.length ≤ settings.guardrails.maxNewCampaignsPerRun.toNat := by
  rw [plansOf]
  split
  · split
    · exact selectCampaigns_length _ _ _
    · exact Nat.zero_le _
  · exact Nat.zero_le _

theorem plansOf_active (h : (plansOf texts settings s).1 ≠ []) :
    ∃ status, s.adAccount = some status ∧ status.isActive = true := by
  rw [plansOf] at h
  split at h
  · rename_i status haccount
    refine ⟨status, haccount, ?_⟩
    by_contra hinactive
    have hnone := selectCampaigns_inactive (Bool.not_eq_true _ ▸ hinactive)
      (buildCampaignCatalog texts.lower s.snapshot s.campaigns settings) settings
    split at h
    · exact h hnone
    · exact h rfl
  · exact absurd rfl h

end Thread

section Guarded

variable {F : Type} [Amounts F] {texts : Texts} {settings : Settings F} {r : Request F}
  {m : AgentState F} {ranked : List (Finding F)} {actions ordered : List (Action F)}

theorem Planning.plans (h : Planning texts settings r m ranked actions ordered) :
    (ordered.flatMap (observed Call.plan? settings)).Perm
      ((plansOf texts settings m).1.map CampaignPlan.toDict) := by
  obtain ⟨onFindings, hfindings, hactions⟩ := Exceptions.bind_ok h.proposed
  cases hactions
  have hperm := observed_perm Call.plan? h.ordered
  rw [List.flatMap_append, List.flatMap_append, plans_of_campaigns, plans_of_findings hfindings,
    observed_emails Call.plan? (fun _ _ _ _ => rfl) (fun _ _ _ => rfl) (fun _ _ => rfl),
    List.nil_append, List.append_nil] at hperm
  exact hperm

theorem Planning.changed {campaigns : List (CampaignPerformance F)}
    (h : Planning texts settings r m ranked actions ordered) (hnamed : Named campaigns m.findings)
    (hids : (campaigns.map CampaignPerformance.campaignId).Nodup) :
    (ordered.flatMap (observed Call.campaign? settings)).Nodup := by
  obtain ⟨onFindings, hfindings, hactions⟩ := Exceptions.bind_ok h.proposed
  cases hactions
  have hperm := observed_perm Call.campaign? h.ordered
  rw [List.flatMap_append, List.flatMap_append, changed_of_campaigns,
    observed_emails Call.campaign? (fun _ _ _ _ => rfl) (fun _ _ _ => rfl) (fun _ _ => rfl),
    List.nil_append, List.nil_append] at hperm
  have hjson : (campaigns.map (fun c => (Json.str c.campaignId : Json F))).Nodup := by
    have hinj : Function.Injective (Json.str : String → Json F) := fun _ _ h => by cases h; rfl
    have hmapped := hids.map hinj
    rw [List.map_map] at hmapped
    exact hmapped
  have hfound : (m.findings.filterMap Finding.campaign?).Nodup := hjson.sublist hnamed.once
  have hranked : (ranked.filterMap Finding.campaign?).Nodup :=
    ((prioritize_perm h.prioritized).filterMap _).nodup_iff.mpr hfound
  exact hperm.nodup_iff.mpr (hranked.sublist (changed_of_findings hfindings))

-- The action that a planned call was proposed as.
theorem Planning.proposal (h : Planning texts settings r m ranked actions ordered) {a : Action F}
    (ha : a ∈ ordered) {c : Call F} (hc : c ∈ planned settings a)
    (hseen : c.plan? ≠ none ∨ c.campaign? ≠ none) :
    ∃ action, SameRequest action a ∧ c ∈ planned settings action ∧
      ((∃ n p, action = campaignAction r.fresh n p) ∨
        ∃ f ∈ ranked, ∃ n, actionFromFinding r.fresh settings n f = .ok (some action)) := by
  obtain ⟨action, haction, hsame⟩ := request_of_mem h.ordered ha
  have hplanned : c ∈ planned settings action := planned_congr hsame ▸ hc
  refine ⟨action, hsame, hplanned, ?_⟩
  obtain ⟨onFindings, hfindings, hactions⟩ := Exceptions.bind_ok h.proposed
  cases hactions
  rcases List.mem_append.mp haction with hproposed | hfinding
  · rcases List.mem_append.mp hproposed with hemail | hcampaign
    · have hplan := unseen_of_nil (observed_emails Call.plan? (fun _ _ _ _ => rfl)
        (fun _ _ _ => rfl) (fun _ _ => rfl) _ _ _) hemail hplanned
      have hchange := unseen_of_nil (observed_emails Call.campaign? (fun _ _ _ _ => rfl)
        (fun _ _ _ => rfl) (fun _ _ => rfl) _ _ _) hemail hplanned
      exact absurd hseen (not_or.mpr ⟨not_not.mpr hplan, not_not.mpr hchange⟩)
    · exact .inl (mem_actionsFromCampaigns hcampaign)
  · exact .inr (mem_actionsFromFindings hfindings hfinding)

theorem Planning.budget (h : Planning texts settings r m ranked actions ordered) {a : Action F}
    (ha : a ∈ ordered) (hcost : ¬ OverCeiling settings a) {plan : List (String × Json F)}
    (hc : .createCampaign plan ∈ planned settings a) :
    ∃ budget, Dict.lookup "daily_budget_brl" plan = some (.float budget) ∧
      Amounts.gt budget settings.guardrails.maxDailyBudget = false := by
  obtain ⟨action, hsame, hplanned, ⟨n, p, rfl⟩ | ⟨f, -, n, haction⟩⟩ :=
    h.proposal ha hc (.inl (Option.some_ne_none plan))
  · rw [planned_campaignAction, List.mem_singleton] at hplanned
    cases hplanned
    refine ⟨p.dailyBudget, rfl, ?_⟩
    have hbudget : a.cost = p.dailyBudget := hsame.cost
    rw [OverCeiling, hbudget] at hcost
    exact Bool.not_eq_true _ ▸ hcost
  · have hnone := plans_of_finding haction
    rw [Option.toList_some] at hnone
    cases unseen_of_nil hnone (List.mem_singleton_self action) hplanned

theorem current_of_evidence {c : CampaignPerformance F} {f : Finding F}
    (h : f.evidence = c.toDict) :
    (field f.evidence "daily_budget_brl" (.float 0.0)).toFloat = .ok c.dailyBudget := by
  rw [h]
  rfl

theorem Planning.raise (h : Planning texts settings r m ranked actions ordered)
    {campaigns : List (CampaignPerformance F)} (hnamed : Named campaigns m.findings)
    {a : Action F} (ha : a ∈ ordered) {id : Json F} {target : F}
    (hc : .updateDailyBudget id target ∈ planned settings a) :
    Amounts.gt target settings.guardrails.maxDailyBudget = false ∧
      ∃ c ∈ campaigns, id = .str c.campaignId ∧ target = raised settings c.dailyBudget := by
  obtain ⟨action, -, hplanned, ⟨n, p, rfl⟩ | ⟨f, hf, n, haction⟩⟩ :=
    h.proposal ha hc (.inr (Option.some_ne_none id))
  · rw [planned_campaignAction, List.mem_singleton] at hplanned
    cases hplanned
  · rcases actionFromFinding_cases haction with hnone | ⟨v, hv, hpause | ⟨current, hcurrent, hraise⟩⟩
    · cases hnone
    · cases hpause
      rw [planned_pause, List.mem_singleton] at hplanned
      cases hplanned
    · cases hraise
      rw [planned_budgetIncrease] at hplanned
      split at hplanned
      · cases hplanned
      · rename_i hbelow
        rw [List.mem_singleton] at hplanned
        cases hplanned
        refine ⟨Bool.not_eq_true _ ▸ hbelow, ?_⟩
        have hfound := (prioritize_perm h.prioritized).mem_iff.mp hf
        obtain ⟨c, hmem, hevidence⟩ := hnamed.known f hfound id hv
        refine ⟨c, hmem, ?_, ?_⟩
        · rcases campaign?_of_evidence hevidence with hnone | hsome
          · rw [hv] at hnone
            cases hnone
          · rw [hv] at hsome
            exact Option.some.inj hsome
        · rw [current_of_evidence hevidence] at hcurrent
          cases hcurrent
          rfl

structure WithinGuardrails (settings : Settings F) (r : Request F) (calls : List (Call F)) :
    Prop where
  few : (calls.filterMap Call.plan?).length ≤ settings.guardrails.maxNewCampaignsPerRun.toNat
  budgets : ∀ plan, .createCampaign plan ∈ calls →
    ∃ budget, Dict.lookup "daily_budget_brl" plan = some (.float budget) ∧
      Amounts.gt budget settings.guardrails.maxDailyBudget = false
  active : ∀ plan, .createCampaign plan ∈ calls →
    ∃ status, r.account = .ok status ∧ status.isActive = true
  raises : ∀ id target, .updateDailyBudget id target ∈ calls →
    Amounts.gt target settings.guardrails.maxDailyBudget = false ∧
      ∃ c ∈ r.insights.getD [], id = .str c.campaignId ∧ target = raised settings c.dailyBudget
  once : (calls.filterMap Call.campaign?).Nodup

end Guarded

def unsold : CampaignPerformance Rat :=
  ⟨"c1", "Frio", "ACTIVE", "OUTCOME_SALES", 100, 200, 5000, 90, 0, 0⟩

def fundedAccount : AdAccountStatus Rat :=
  ⟨"act_1", 1, 0, "BRL", 0, 0, 0, 0, true, "VISA"⟩

def checkBudget : Texts := ⟨fun _ => [.checkAdBudget], id, id⟩

def unsoldRequest : Request Rat where
  command := "verificar verba"
  clarification := ""
  analytics := .error "503"
  mailbox := .error "login"
  account := .ok fundedAccount
  insights := some [unsold]
  approval := .null
  replies := fun _ => []
  fresh := fun n => toString n

theorem unsold_reached :
    ((reached checkBudget (liveSettings .approve) unsoldRequest .empty).toOption.map (fun s =>
      (callsOf (executed (liveSettings .approve) unsoldRequest s)).length)) = some 1 := by
  decide +kernel

end Hotmart

end LangGraph

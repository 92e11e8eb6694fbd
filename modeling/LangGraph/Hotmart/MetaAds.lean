import LangGraph.Hotmart.Ads
import LangGraph.Hotmart.Http
import LangGraph.Hotmart.Policy
import Mathlib.Data.List.Perm.Subperm

namespace LangGraph

open Collections Store

namespace Hotmart

-- Python's `int` of a float cuts it off, and refuses what is not a finite number.
class WholeAmounts (F : Type) extends Amounts F where
  toInt : F → Except CompareError Int

instance : WholeAmounts Rat where
  toInt x := .ok (if x < 0 then -(-x).floor else x.floor)

namespace MetaAds

open Http

structure MetaAdsClient (T : Type) where
  account : String
  accessToken : String
  pixelId : String
  maxRetries : Int
  breaker : CircuitBreaker T

-- The exchange of every attempt to send a body to a path.
abbrev Server (F : Type) := String → List (String × Json F) → Nat → Exchange F

section Create

variable {F T : Type} [WholeAmounts F]

def campaignStatus (plan : CampaignPlan F) : String :=
  if plan.startPaused then "PAUSED" else "ACTIVE"

def campaignBody (client : MetaAdsClient T) (plan : CampaignPlan F) : List (String × Json F) :=
  [("name", .str plan.name), ("objective", .str plan.objective),
    ("status", .str (campaignStatus plan)), ("special_ad_categories", .list []),
    ("access_token", .str client.accessToken)]

def adsetBody (client : MetaAdsClient T) (plan : CampaignPlan F) (campaignId : Json F) :
    Except CompareError (List (String × Json F)) := do
  let dailyBudget ← WholeAmounts.toInt (plan.dailyBudget * 100.0)
  return [("name", .str (plan.name ++ " — " ++ plan.audience)), ("campaign_id", campaignId),
    ("daily_budget", .int dailyBudget), ("billing_event", .str "IMPRESSIONS"),
    ("optimization_goal", .str plan.optimizationGoal),
    ("bid_strategy", .str "LOWEST_COST_WITHOUT_CAP"), ("targeting", .dict plan.audienceSpec),
    ("promoted_object", .dict [("pixel_id", .str client.pixelId),
      ("custom_event_type", .str "PURCHASE")]),
    ("status", .str (campaignStatus plan)), ("access_token", .str client.accessToken)]

def campaignPost (client : MetaAdsClient T) (server : Server F) (plan : CampaignPlan F) :
    Nat → Exchange F :=
  server ("/" ++ client.account ++ "/campaigns") (campaignBody client plan)

def adsetPost (client : MetaAdsClient T) (server : Server F) (body : List (String × Json F)) :
    Nat → Exchange F :=
  server ("/" ++ client.account ++ "/adsets") body

def answeredId (answer : List (String × Json F)) : Json F := field answer "id" (.str "")

def appliedAttempts (exchange : Nat → Exchange F) (made : Nat) : List Nat :=
  (List.range made).filter (fun k => (exchange k).applied)

-- The result, with what is then on the account: campaigns by the attempt that made them, and for
-- each ad set the campaign that it names.
structure Creation (F : Type) where
  result : Except (Http.Raised F) (List (String × Json F))
  campaigns : List Nat
  adsets : List (Option Nat)

variable [AddCommGroup T] [LinearOrder T]

-- The clock is read when a request is let in and when it has failed.
def createCampaign (client : MetaAdsClient T) (server : Server F) (clock : Nat → T)
    (plan : CampaignPlan F) : Creation F :=
  let sent := request client.maxRetries client.breaker (clock 0) (clock 1)
    (campaignPost client server plan)
  let campaigns := appliedAttempts (campaignPost client server plan) sent.made
  match sent.result with
  | .error e => ⟨.error e, campaigns, []⟩
  | .ok campaign =>
      let named := if Amounts.truthy (answeredId campaign) then some (sent.made - 1) else none
      match adsetBody client plan (answeredId campaign) with
      | .error _ => ⟨.error (.escaped "int"), campaigns, []⟩
      | .ok body =>
          let sent := request client.maxRetries sent.breaker (clock 2) (clock 3)
            (adsetPost client server body)
          ⟨sent.result.map (fun adset => [("campaign_id", answeredId campaign),
              ("adset_id", answeredId adset), ("status", .str (campaignStatus plan))]),
            campaigns,
            (appliedAttempts (adsetPost client server body) sent.made).map (fun _ => named)⟩

end Create

section Applied

variable {F : Type} {exchange : Nat → Exchange F} {made k last : Nat}

theorem mem_appliedAttempts :
    k ∈ appliedAttempts exchange made ↔ k < made ∧ (exchange k).applied = true := by
  rw [appliedAttempts, List.mem_filter, List.mem_range]

theorem length_appliedAttempts (hlast : last ∈ appliedAttempts exchange made) :
    (appliedAttempts exchange made).length ≤ 1 ↔
      ∀ k ∈ appliedAttempts exchange made, k = last := by
  constructor
  · intro hle k hk
    obtain ⟨x, hx⟩ := List.length_eq_one_iff.mp
      (le_antisymm hle (List.length_pos_of_mem hlast))
    rw [hx, List.mem_singleton] at hlast hk
    rw [hk, hlast]
  · intro hall
    have hnodup : (appliedAttempts exchange made).Nodup := List.nodup_range.filter _
    exact (List.subperm_of_subset hnodup
      (fun k hk => List.mem_singleton.mpr (hall k hk))).length_le

theorem some_mem_adsets {named : Option Nat} {last : Nat} :
    some last ∈ (appliedAttempts exchange made).map (fun _ => named) ↔
      named = some last ∧ ∃ j, j < made ∧ (exchange j).applied = true := by
  rw [List.mem_map]
  constructor
  · rintro ⟨j, hj, hnamed⟩
    exact ⟨hnamed, j, mem_appliedAttempts.mp hj⟩
  · rintro ⟨hnamed, j, hj⟩
    exact ⟨j, mem_appliedAttempts.mpr hj, hnamed⟩

end Applied

section Once

variable {F T : Type} [WholeAmounts F] {client : MetaAdsClient T} {server : Server F}
  {clock : Nat → T} {plan : CampaignPlan F}

structure Once (c : Creation F) : Prop where
  single : c.campaigns.length ≤ 1
  complete : ∀ e, c.result = .error e → ∀ k ∈ c.campaigns, some k ∈ c.adsets

def MadeBy (client : MetaAdsClient T) (exchange : Nat → Exchange F) (k : Nat) : Prop :=
  Made client.maxRetries client.breaker.name exchange k

def Answers (client : MetaAdsClient T) (exchange : Nat → Exchange F) (k : Nat)
    (answer : List (String × Json F)) : Prop :=
  call client.breaker.name exchange k = .ok answer

-- Some attempt for the ad set is answered, or done by the server for the campaign just made.
def Completed (client : MetaAdsClient T) (server : Server F) (plan : CampaignPlan F)
    (answer : List (String × Json F)) : Prop :=
  ∃ body, adsetBody client plan (answeredId answer) = .ok body ∧
    ∃ j, MadeBy client (adsetPost client server body) j ∧
      ((∃ adset, Answers client (adsetPost client server body) j adset) ∨
        Amounts.truthy (answeredId answer) = true ∧
          (adsetPost client server body j).applied = true)

-- No attempt for the campaign that failed was done by the server after all.
structure Unrepeated (client : MetaAdsClient T) (server : Server F) (plan : CampaignPlan F) :
    Prop where
  quiet : ∀ k, MadeBy client (campaignPost client server plan) k →
    (∀ answer, ¬ Answers client (campaignPost client server plan) k answer) →
    (campaignPost client server plan k).applied = false
  completed : ∀ k, MadeBy client (campaignPost client server plan) k →
    ∀ answer, Answers client (campaignPost client server plan) k answer →
    Completed client server plan answer

-- The campaign that was answered is the last one made; the others must not exist.
theorem single_iff {sent : Sent F T}
    (hspec : Spec client.maxRetries client.breaker.name (campaignPost client server plan) sent)
    {answer : List (String × Json F)} (hanswered : sent.result = .ok answer) :
    (appliedAttempts (campaignPost client server plan) sent.made).length ≤ 1 ↔
      ∀ k, MadeBy client (campaignPost client server plan) k →
        (∀ answer, ¬ Answers client (campaignPost client server plan) k answer) →
        (campaignPost client server plan k).applied = false := by
  obtain ⟨hlt, hcall, honly⟩ := hspec.last hanswered
  have hlast : sent.made - 1 ∈ appliedAttempts (campaignPost client server plan) sent.made :=
    mem_appliedAttempts.mpr ⟨hlt, applied_of_answered hcall⟩
  rw [length_appliedAttempts hlast]
  constructor
  · intro hall k hmade hno
    cases happlied : (campaignPost client server plan k).applied with
    | false => rfl
    | true =>
      obtain rfl := hall k (mem_appliedAttempts.mpr ⟨(hspec.made_iff k).mpr hmade, happlied⟩)
      exact absurd hcall (hno answer)
  · intro hquiet k hk
    obtain ⟨hmade, happlied⟩ := mem_appliedAttempts.mp hk
    by_contra hne
    have hno : ∀ other, ¬ Answers client (campaignPost client server plan) k other :=
      fun other hother => hne (honly k hmade other hother)
    rw [hquiet k ((hspec.made_iff k).mp hmade) hno] at happlied
    cases happlied

omit [WholeAmounts F] in
theorem once_iff_last {c : Creation F} {last : Nat} (hlast : last ∈ c.campaigns)
    (hsingle : c.campaigns.length ≤ 1 ↔ ∀ k ∈ c.campaigns, k = last) :
    Once c ↔ c.campaigns.length ≤ 1 ∧ ∀ e, c.result = .error e → some last ∈ c.adsets := by
  constructor
  · exact fun h => ⟨h.single, fun e he => h.complete e he last hlast⟩
  · rintro ⟨hle, hcomplete⟩
    exact ⟨hle, fun e he k hk => hsingle.mp hle k hk ▸ hcomplete e he⟩

theorem completed_iff {sent : Sent F T} {answer body : List (String × Json F)} {last : Nat}
    (hbody : adsetBody client plan (answeredId answer) = .ok body)
    (hspec : Spec client.maxRetries client.breaker.name (adsetPost client server body) sent)
    (g : List (String × Json F) → List (String × Json F)) :
    (∀ e, sent.result.map g = .error e → some last ∈
        (appliedAttempts (adsetPost client server body) sent.made).map (fun _ =>
          if Amounts.truthy (answeredId answer) then some last else none)) ↔
      Completed client server plan answer := by
  rw [some_mem_adsets]
  constructor
  · intro h
    cases hresult : sent.result with
    | ok adset =>
      obtain ⟨j, hmade, hcall⟩ := (hspec.answered_iff adset).mp hresult
      exact ⟨body, hbody, j, hmade, .inl ⟨adset, hcall⟩⟩
    | error e =>
      obtain ⟨hnamed, j, hlt, happlied⟩ := h e (by rw [hresult]; rfl)
      have htruthy : Amounts.truthy (answeredId answer) = true := by
        by_contra hno
        rw [if_neg hno] at hnamed
        cases hnamed
      exact ⟨body, hbody, j, (hspec.made_iff j).mp hlt, .inr ⟨htruthy, happlied⟩⟩
  · rintro ⟨body', hbody', j, hmade, hdone⟩ e he
    cases hbody.symm.trans hbody'
    rcases hdone with ⟨adset, hcall⟩ | ⟨htruthy, happlied⟩
    · rw [(hspec.answered_iff adset).mpr ⟨j, hmade, hcall⟩] at he
      cases he
    · exact ⟨if_pos htruthy, j, (hspec.made_iff j).mpr hmade, happlied⟩

-- Nothing is answered: what was done all the same stays without an ad set.
theorem once_of_failed {c : Creation F} {sent : Sent F T}
    (hspec : Spec client.maxRetries client.breaker.name (campaignPost client server plan) sent)
    {e : Http.Raised F} (hfailed : sent.result = .error e)
    (hc : c = ⟨.error e, appliedAttempts (campaignPost client server plan) sent.made, []⟩) :
    Once c ↔ Unrepeated client server plan := by
  have hnone : ∀ k, MadeBy client (campaignPost client server plan) k →
      ∀ answer, ¬ Answers client (campaignPost client server plan) k answer := by
    intro k hmade answer hanswer
    cases hfailed.symm.trans ((hspec.answered_iff answer).mpr ⟨k, hmade, hanswer⟩)
  subst hc
  constructor
  · intro honce
    refine ⟨fun k hmade _ => ?_, fun k hmade answer hanswer =>
      absurd hanswer (hnone k hmade answer)⟩
    cases happlied : (campaignPost client server plan k).applied with
    | false => rfl
    | true =>
      have hmem : k ∈ appliedAttempts (campaignPost client server plan) sent.made :=
        mem_appliedAttempts.mpr ⟨(hspec.made_iff k).mpr hmade, happlied⟩
      exact absurd (honce.complete e rfl k hmem) List.not_mem_nil
  · intro h
    have hnil : appliedAttempts (campaignPost client server plan) sent.made = [] := by
      refine List.eq_nil_iff_forall_not_mem.mpr (fun k hk => ?_)
      obtain ⟨hlt, happlied⟩ := mem_appliedAttempts.mp hk
      have hmade := (hspec.made_iff k).mp hlt
      rw [h.quiet k hmade (hnone k hmade)] at happlied
      cases happlied
    rw [hnil]
    exact ⟨Nat.zero_le 1, fun _ _ k hk => absurd hk List.not_mem_nil⟩

theorem unrepeated_iff {sent : Sent F T}
    (hspec : Spec client.maxRetries client.breaker.name (campaignPost client server plan) sent)
    {answer : List (String × Json F)} (hanswered : sent.result = .ok answer) :
    Unrepeated client server plan ↔
      (appliedAttempts (campaignPost client server plan) sent.made).length ≤ 1 ∧
        Completed client server plan answer := by
  rw [single_iff hspec hanswered]
  constructor
  · intro h
    obtain ⟨k, hmade, hcall⟩ := (hspec.answered_iff answer).mp hanswered
    exact ⟨h.quiet, h.completed k hmade answer hcall⟩
  · rintro ⟨hquiet, hcompleted⟩
    refine ⟨hquiet, fun k hmade other hother => ?_⟩
    have hsame := (hspec.answered_iff other).mpr ⟨k, hmade, hother⟩
    cases hanswered.symm.trans hsame
    exact hcompleted

variable [AddCommGroup T] [LinearOrder T]

theorem once_of_refused (h : (client.breaker.guard (clock 0)).2 ≠ .ok ()) :
    Once (createCampaign client server clock plan) := by
  obtain ⟨message, hresult, hmade⟩ := request_refused client.maxRetries (clock 1)
    (campaignPost client server plan) h
  rw [createCampaign]
  simp only [hresult, hmade]
  exact ⟨Nat.zero_le 1, fun _ _ k hk => absurd hk List.not_mem_nil⟩

theorem create_campaign_once_iff (client : MetaAdsClient T) (server : Server F) (clock : Nat → T)
    (plan : CampaignPlan F) : Once (createCampaign client server clock plan) ↔
      ((client.breaker.guard (clock 0)).2 = .ok () → Unrepeated client server plan) := by
  by_cases hguard : (client.breaker.guard (clock 0)).2 = .ok ()
  · rw [imp_iff_right hguard]
    have hspec := request_admitted client.maxRetries (clock 1) (campaignPost client server plan)
      hguard
    have hclosed := @request_closed F T _ (campaignPost client server plan) _ _ client.breaker
      (clock 0) (clock 1) client.maxRetries
    rw [createCampaign]
    cases hresult : (request client.maxRetries client.breaker (clock 0) (clock 1)
        (campaignPost client server plan)).result with
    | error e => exact once_of_failed hspec hresult rfl
    | ok answer =>
      obtain ⟨hlt, hcall, -⟩ := hspec.last hresult
      have hlast := mem_appliedAttempts.mpr ⟨hlt, applied_of_answered hcall⟩
      obtain ⟨hname, hpass⟩ := hclosed hresult (clock 2)
      rw [unrepeated_iff hspec hresult]
      simp only
      cases hbody : adsetBody client plan (answeredId answer) with
      | error e =>
        refine iff_of_false (fun honce => ?_) (fun h => ?_)
        · exact absurd (honce.complete _ rfl _ hlast) List.not_mem_nil
        · obtain ⟨body, hbody', -⟩ := h.2
          cases hbody.symm.trans hbody'
      | ok body =>
        simp only
        have hspec' := request_admitted client.maxRetries (clock 3)
          (adsetPost client server body) hpass
        rw [hname] at hspec'
        rw [once_iff_last hlast (length_appliedAttempts hlast), completed_iff hbody hspec']
  · exact iff_of_true (once_of_refused hguard) (fun h => absurd h hguard)

end Once

def lostAnswer : Exchange Rat where
  wire := .status 503 "" none
  applied := true
  jitter := 0
  answered_applied := fun _ h => (by cases h)
  refused_not_applied := fun _ _ _ h hlt => (by
    cases h
    exact absurd hlt (by decide))

def refusal : Exchange Rat where
  wire := .status 400 "" none
  applied := false
  jitter := 0
  answered_applied := fun _ h => (by cases h)
  refused_not_applied := fun _ _ _ _ _ => rfl

def created (id : String) : Exchange Rat where
  wire := .answered (.dict [("id", .str id)])
  applied := true
  jitter := 0
  answered_applied := fun _ _ => rfl
  refused_not_applied := fun _ _ _ h => (by cases h)

def lossy : Server Rat := fun path _ k =>
  if path = "/act_1/campaigns" then if k = 0 then lostAnswer else created "c2" else created "a1"

def refusing : Server Rat := fun path _ _ =>
  if path = "/act_1/campaigns" then created "c1" else refusal

def liveClient : MetaAdsClient Int := ⟨"act_1", "token", "", 3, .new "meta-ads" 4 60⟩

def salesPlan : CampaignPlan Rat :=
  ⟨"lead_magnet", "Isca", "OUTCOME_LEADS", "LEAD_GENERATION", 15, "Frio", [], "", 0, 0, 0, "", true⟩

theorem campaign_created_twice :
    let twice := createCampaign liveClient lossy (fun _ => 0) salesPlan
    let bare := createCampaign liveClient refusing (fun _ => 0) salesPlan
    (twice.campaigns = [0, 1] ∧ ¬ Once twice) ∧
      bare.campaigns = [0] ∧ bare.adsets = [] ∧ ¬ Once bare := by
  have htwice : (createCampaign liveClient lossy (fun _ => 0) salesPlan).campaigns = [0, 1] := by
    decide +kernel
  have hbare : (createCampaign liveClient refusing (fun _ => 0) salesPlan).campaigns = [0] := by
    decide +kernel
  have hadsets : (createCampaign liveClient refusing (fun _ => 0) salesPlan).adsets = [] := by
    decide +kernel
  have hraised : (createCampaign liveClient refusing (fun _ => 0) salesPlan).result.toOption =
      none := by
    decide +kernel
  refine ⟨⟨htwice, fun honce => ?_⟩, hbare, hadsets, fun honce => ?_⟩
  · have hle := honce.single
    rw [htwice] at hle
    exact absurd hle (by decide)
  · cases hresult : (createCampaign liveClient refusing (fun _ => 0) salesPlan).result with
    | ok answer =>
      rw [hresult] at hraised
      cases hraised
    | error e =>
      have hmem := honce.complete e hresult 0 (by rw [hbare]; exact List.mem_singleton.mpr rfl)
      rw [hadsets] at hmem
      exact absurd hmem List.not_mem_nil

end MetaAds

end Hotmart

end LangGraph

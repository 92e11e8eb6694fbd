import LangGraph.Hotmart.Commands
import LangGraph.Hotmart.FloatLaws

namespace LangGraph

open Collections Store

namespace Hotmart

section Ranking

variable {F : Type} [Amounts F] {settings : Settings F} {findings : List (Finding F)}
  {action a b : Action F}

theorem resolveMode_priority (h : resolveMode action settings = .ok a) :
    a.priority = action.priority := by
  rw [resolveMode] at h
  have hrisk : (byRisk action settings).priority = action.priority := by
    rw [byRisk]
    split_ifs <;> rfl
  split_ifs at h with hobserve hcost hrefund
  · cases h
    rfl
  · cases h
    rfl
  · obtain ⟨value, -, h⟩ := Exceptions.bind_ok h
    split_ifs at h with hlarge
    · cases h
      rfl
    · cases h
      exact hrisk
  · cases h
    exact hrisk

theorem rankAction_priority (h : rankAction findings settings action = .ok a) :
    ∃ base, basePriority action findings settings = .ok base ∧
      a.priority = (prioritized action base).priority := by
  obtain ⟨base, hbase, hresolve⟩ := Exceptions.bind_ok h
  exact ⟨base, hbase, resolveMode_priority hresolve⟩

theorem prioritized_mono [MonotoneAmounts F] {x y : F} (hbonus : (contactBonus a.type : Option F) = none)
    (htype : a.type = b.type) (hcost : a.cost = b.cost)
    (himpact : a.expectedImpact = b.expectedImpact) (h : Floats.lt y x = true) :
    Floats.lt (prioritized a x).priority (prioritized b y).priority = false := by
  rw [prioritized, prioritized, ← htype, ← hcost, ← himpact, hbonus]
  exact MonotoneAmounts.round_mono _ _ 4 (MonotoneAmounts.add_mono _ _ _ h)

end Ranking

section Proposals

variable {F : Type} [Amounts F] {fresh : Nat → String} {settings : Settings F}
  {findings : List (Finding F)} {actions : List (Action F)}

def Finding.proposes (f : Finding F) : Bool := f.campaign?.isSome

-- The actions with the findings that they come from, both in the order of the findings.
def proposals (findings : List (Finding F)) (actions : List (Action F)) :
    List (Finding F × Action F) :=
  (findings.filter Finding.proposes).zip actions

def lastWithCode (findings : List (Finding F)) (code : String) : Option (Finding F) :=
  findings.reverse.find? (fun f => f.code = code)

structure FromFinding (f : Finding F) (a : Action F) : Prop where
  code : a.sourceFinding = some f.code
  impact : a.expectedImpact = f.impact
  bonus : (contactBonus a.type : Option F) = none

theorem actionFromFinding_some {n : Nat} {f : Finding F} {a : Option (Action F)}
    (h : actionFromFinding fresh settings n f = .ok a) :
    a.isSome = f.proposes ∧ ∀ b ∈ a, FromFinding f b := by
  cases hid : f.campaign? with
  | none =>
    rw [actionFromFinding_unnamed hid] at h
    cases h
    exact ⟨by rw [Finding.proposes, hid]; rfl, fun b hb => (by cases hb)⟩
  | some id =>
    rcases actionFromFinding_cases h with rfl | ⟨id', -, rfl | ⟨current, -, rfl⟩⟩
    · have hproposes : ("pausar_campanha" ∈ f.suggestedActions ∨
          "escalar_orcamento" ∈ f.suggestedActions) ∧ namesCampaign f = true := by
        by_contra hno
        rw [Finding.campaign?, if_neg hno] at hid
        cases hid
      rw [actionFromFinding] at h
      split_ifs at h with hpause hraise
      · cases h
      · obtain ⟨current, -, h⟩ := Exceptions.bind_ok h
        cases h
      · exact hproposes.1.elim (fun hp => absurd ⟨hp, hproposes.2⟩ hpause)
          (fun hr => absurd ⟨hr, hproposes.2⟩ hraise)
    · refine ⟨by rw [Finding.proposes, hid]; rfl, fun b hb => ?_⟩
      cases hb
      exact ⟨rfl, rfl, rfl⟩
    · refine ⟨by rw [Finding.proposes, hid]; rfl, fun b hb => ?_⟩
      cases hb
      exact ⟨rfl, rfl, rfl⟩

theorem forall₂_proposals {n : Nat} (h : actionsFromFindings fresh settings n findings = .ok actions) :
    List.Forall₂ FromFinding (findings.filter Finding.proposes) actions := by
  induction findings generalizing n actions with
  | nil =>
    cases h
    exact .nil
  | cons f findings ih =>
    obtain ⟨a, rest, ha, hrest, rfl⟩ := actionsFromFindings_cons h
    obtain ⟨hsome, hfrom⟩ := actionFromFinding_some ha
    cases a with
    | none =>
      rw [List.filter_cons_of_neg (by rw [← hsome]; exact Bool.false_ne_true)]
      exact ih hrest
    | some a =>
      rw [List.filter_cons_of_pos (hsome ▸ rfl)]
      exact .cons (hfrom a rfl) (ih hrest)

theorem mem_proposals (h : List.Forall₂ FromFinding (findings.filter Finding.proposes) actions)
    {p : Finding F × Action F} (hp : p ∈ proposals findings actions) :
    p.1 ∈ findings ∧ p.1.proposes = true ∧ FromFinding p.1 p.2 := by
  have hfrom : FromFinding p.1 p.2 := (List.forall₂_iff_zip.mp h).2 hp
  obtain ⟨hmem, hproposes⟩ := List.mem_filter.mp (List.of_mem_zip hp).1
  exact ⟨hmem, hproposes, hfrom⟩

theorem exists_proposal (h : List.Forall₂ FromFinding (findings.filter Finding.proposes) actions)
    {f : Finding F} (hf : f ∈ findings) (hproposes : f.proposes = true) :
    ∃ a, (f, a) ∈ proposals findings actions := by
  have hmem : f ∈ findings.filter Finding.proposes := List.mem_filter.mpr ⟨hf, hproposes⟩
  rw [← List.map_fst_zip h.length_eq.le] at hmem
  obtain ⟨⟨g, a⟩, hpair, rfl⟩ := List.mem_map.mp hmem
  exact ⟨a, hpair⟩

theorem basePriority_from (settings : Settings F) {f : Finding F} {a : Action F}
    (h : FromFinding f a) (hf : f ∈ findings) : ∃ g, lastWithCode findings f.code = some g ∧
      basePriority a findings settings = priorityScore g settings := by
  cases hlast : lastWithCode findings f.code with
  | none =>
    have hnone := List.find?_eq_none.mp hlast f (List.mem_reverse.mpr hf)
    exact absurd (decide_eq_true rfl) hnone
  | some g =>
    refine ⟨g, rfl, ?_⟩
    have hfind : findings.reverse.find? (fun f => f.code = a.sourceFinding.getD "") = some g := by
      rw [h.code]
      exact hlast
    rw [basePriority, hfind]

end Proposals

section Urgency

variable {F : Type} [Amounts F] {fresh : Nat → String} {settings : Settings F}
  {findings : List (Finding F)} {actions : List (Action F)}

structure Inherits (settings : Settings F) (findings : List (Finding F))
    (pairs : List (Finding F × Action F)) : Prop where
  base : ∀ p ∈ pairs, basePriority p.2 findings settings = priorityScore p.1 settings
  order : ∀ p ∈ pairs, ∀ q ∈ pairs, p.2.type = q.2.type → p.2.cost = q.2.cost →
    p.2.expectedImpact = q.2.expectedImpact → p.1.severity = q.1.severity →
    ∀ x y, priorityScore p.1 settings = .ok x → priorityScore q.1 settings = .ok y →
    Floats.lt y x = true → ∀ a b, rankAction findings settings p.2 = .ok a →
    rankAction findings settings q.2 = .ok b → Floats.lt a.priority b.priority = false

-- Of the findings with one code, only the last one counts.
def LastScores (settings : Settings F) (findings : List (Finding F)) : Prop :=
  ∀ f ∈ findings, f.proposes = true → ∀ g, lastWithCode findings f.code = some g →
    priorityScore g settings = priorityScore f settings

theorem basePriority_own_iff (settings : Settings F)
    (h : List.Forall₂ FromFinding (findings.filter Finding.proposes) actions) :
    (∀ p ∈ proposals findings actions,
        basePriority p.2 findings settings = priorityScore p.1 settings) ↔
      LastScores settings findings := by
  constructor
  · intro hbase f hf hproposes g hg
    obtain ⟨a, hpair⟩ := exists_proposal h hf hproposes
    obtain ⟨-, -, hfrom⟩ := mem_proposals h hpair
    obtain ⟨last, hlast, hscore⟩ := basePriority_from settings hfrom hf
    obtain rfl := Option.some.inj (hg.symm.trans hlast)
    exact hscore.symm.trans (hbase _ hpair)
  · intro hlast p hp
    obtain ⟨hf, hproposes, hfrom⟩ := mem_proposals h hp
    obtain ⟨g, hg, hscore⟩ := basePriority_from settings hfrom hf
    exact hscore.trans (hlast p.1 hf hproposes g hg)

theorem own_urgency_iff [MonotoneAmounts F] {n : Nat}
    (h : actionsFromFindings fresh settings n findings = .ok actions) :
    Inherits settings findings (proposals findings actions) ↔ LastScores settings findings := by
  have hfrom := forall₂_proposals h
  constructor
  · exact fun hinherits => (basePriority_own_iff settings hfrom).mp hinherits.base
  · intro hlast
    have hbase := (basePriority_own_iff settings hfrom).mpr hlast
    refine ⟨hbase, ?_⟩
    intro p hp q hq htype hcost himpact _ x y hx hy hlt a b ha hb
    obtain ⟨base, hown, hpriority⟩ := rankAction_priority ha
    obtain ⟨base', hown', hpriority'⟩ := rankAction_priority hb
    rw [hbase p hp, hx] at hown
    rw [hbase q hq, hy] at hown'
    obtain rfl := Except.ok.inj hown
    obtain rfl := Except.ok.inj hown'
    rw [hpriority, hpriority']
    exact prioritized_mono (mem_proposals hfrom hp).2.2.bonus htype hcost himpact hlt

end Urgency

theorem own_urgency_single : ∃ actions,
    actionsFromFindings (fun n => toString n) (liveSettings .approve) 0 [noConversion unsold] =
        .ok actions ∧
      Inherits (liveSettings .approve) [noConversion unsold]
        (proposals [noConversion unsold] actions) := by
  obtain ⟨actions, hactions⟩ : ∃ actions, actionsFromFindings (fun n => toString n)
      (liveSettings .approve) 0 [noConversion unsold] = .ok actions := ⟨_, rfl⟩
  refine ⟨actions, hactions, (own_urgency_iff hactions).mpr ?_⟩
  intro f hf _ g hg
  have hmem := List.mem_reverse.mp (List.mem_of_find?_eq_some hg)
  rw [List.mem_singleton.mp hf, List.mem_singleton.mp hmem]

def unsoldToo : CampaignPerformance Rat := { unsold with campaignId := "c2", spend := 400 }

theorem diagnosed_unsold : diagnoseCampaigns [unsold, unsoldToo] (liveSettings .approve) =
    [noConversion unsold, noConversion unsoldToo] := by
  have hsilent (c : CampaignPerformance Rat)
      (h : ¬ (c.status ≠ "ACTIVE" ∨ Floats.lt c.spend (liveSettings .approve).product.price))
      (hnone : c.purchases = 0) : diagnoseCampaign (liveSettings .approve) c = [noConversion c] := by
    rw [diagnoseCampaign, if_neg h, if_pos hnone]
  rw [diagnoseCampaigns, List.flatMap_cons, List.flatMap_singleton,
    hsilent unsold (by decide +kernel) rfl, hsilent unsoldToo (by decide +kernel) rfl]
  rfl

theorem last_campaign_urgency : ∃ actions,
    actionsFromFindings (fun n => toString n) (liveSettings .approve) 0
        (diagnoseCampaigns [unsold, unsoldToo] (liveSettings .approve)) = .ok actions ∧
      ¬ Inherits (liveSettings .approve)
        (diagnoseCampaigns [unsold, unsoldToo] (liveSettings .approve))
        (proposals (diagnoseCampaigns [unsold, unsoldToo] (liveSettings .approve)) actions) := by
  rw [diagnosed_unsold]
  have hproposes : (noConversion unsold).proposes = true := by decide +kernel
  have hscores : (priorityScore (noConversion unsold) (liveSettings .approve)).toOption ≠
      (priorityScore (noConversion unsoldToo) (liveSettings .approve)).toOption := by
    decide +kernel
  obtain ⟨actions, hactions⟩ : ∃ actions, actionsFromFindings (fun n => toString n)
      (liveSettings .approve) 0 [noConversion unsold, noConversion unsoldToo] = .ok actions :=
    ⟨_, rfl⟩
  refine ⟨actions, hactions, fun hinherits => hscores ?_⟩
  have hlast := (basePriority_own_iff (liveSettings .approve) (forall₂_proposals hactions)).mp
    hinherits.base
  exact congrArg Except.toOption
    (hlast _ List.mem_cons_self hproposes (noConversion unsoldToo) rfl).symm

end Hotmart

end LangGraph

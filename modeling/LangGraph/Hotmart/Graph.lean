import LangGraph.Hotmart.Authority
import LangGraph.Hotmart.Campaigns

namespace LangGraph

open Collections Store

namespace Hotmart

inductive Intent where
  | analyzePerformance
  | handleEmails
  | manageAds
  | checkAdBudget
  | dailyBriefing
  | answerQuestion
  | clarify
  deriving DecidableEq

structure Triage (F : Type) where
  category : String
  confidence : F
  sentiment : String
  flags : List String

structure EmailReply (F : Type) where
  emailId : String
  recipient : String
  subject : String
  body : String
  triage : Triage F
  autoSendable : Bool
  reason : String

section Actions

variable {F : Type} [Amounts F] (fresh : Nat → String)

-- `_new_id` of the n-th action of a run.
def newId (kind : String) (n : Nat) : String := kind ++ "-" ++ fresh n

def escalation (settings : Settings F) (n : Nat) (r : EmailReply F) : Action F where
  id := newId fresh "esc" n
  type := .escalate
  domain := .support
  title := "Escalar para humano: " ++ r.recipient
  payload := [("email_id", .str r.emailId), ("to", .str r.recipient),
    ("flags", .list (r.triage.flags.map .str)), ("draft", .str r.body)]
  rationale := r.reason
  expectedImpact := settings.product.contributionMargin * 3.0
  cost := 0.0
  reversible := true
  priority := 0.0
  mode := .recommend
  modeReason := ""
  sourceFinding := some "SUPPORT_ESCALATION"

def response (n : Nat) (r : EmailReply F) : Action F where
  id := newId fresh "mail" n
  type := .sendEmail
  domain := .support
  title := "Responder '" ++ r.triage.category ++ "' para " ++ r.recipient
  payload := [("email_id", .str r.emailId), ("to", .str r.recipient), ("subject", .str r.subject),
    ("body", .str r.body), ("category", .str r.triage.category),
    ("confidence", .float r.triage.confidence)]
  rationale := r.reason
  expectedImpact := 0.0
  cost := 0.0
  reversible := false
  priority := 0.0
  mode := .recommend
  modeReason := ""
  sourceFinding := none

def draft (n : Nat) (r : EmailReply F) : Action F where
  id := newId fresh "draft" n
  type := .draftEmail
  domain := .support
  title := "Rascunho para revisão — " ++ r.recipient
  payload := [("email_id", .str r.emailId), ("to", .str r.recipient), ("subject", .str r.subject),
    ("body", .str r.body), ("category", .str r.triage.category)]
  rationale := if r.autoSendable then "limite de respostas automáticas por execução atingido"
    else r.reason
  expectedImpact := 0.0
  cost := 0.0
  reversible := true
  priority := 0.0
  mode := .recommend
  modeReason := ""
  sourceFinding := none

def actionsFromEmails (settings : Settings F) : Nat → Int → List (EmailReply F) → List (Action F)
  | _, _, [] => []
  | n, autoBudget, r :: replies =>
      if r.triage.flags ≠ [] ∨ r.triage.sentiment = "hostil" then
        escalation fresh settings n r :: actionsFromEmails settings (n + 1) autoBudget replies
      else if r.autoSendable = true ∧ 0 < autoBudget then
        response fresh n r :: actionsFromEmails settings (n + 1) (autoBudget - 1) replies
      else draft fresh n r :: actionsFromEmails settings (n + 1) autoBudget replies

def campaignAction (n : Nat) (p : CampaignPlan F) : Action F where
  id := newId fresh "camp" n
  type := .createCampaign
  domain := .ads
  title := "Criar campanha: " ++ p.name
  payload := p.toDict
  rationale := p.rationale
  expectedImpact := Amounts.round (p.dailyBudget * 30.0 * Amounts.max p.expectedRoas 0.0) 2
  cost := p.dailyBudget
  reversible := true
  priority := 0.0
  mode := .recommend
  modeReason := ""
  sourceFinding := some "ADS_PLAN"

def actionsFromCampaigns : Nat → List (CampaignPlan F) → List (Action F)
  | _, [] => []
  | n, p :: plans => campaignAction fresh n p :: actionsFromCampaigns (n + 1) plans

def pause (n : Nat) (f : Finding F) (campaignId : Json F) : Action F where
  id := newId fresh "pause" n
  type := .pauseCampaign
  domain := .ads
  title := "Pausar campanha '" ++ Amounts.text (field f.evidence "name" (.str "")) ++ "'"
  payload := [("campaign_id", campaignId)]
  rationale := f.detail
  expectedImpact := f.impact
  cost := 0.0
  reversible := true
  priority := 0.0
  mode := .recommend
  modeReason := ""
  sourceFinding := some f.code

def raised (settings : Settings F) (current : F) : F :=
  Amounts.round (current * (1.0 + settings.guardrails.maxBudgetIncreasePct)) 2

def budgetIncrease (settings : Settings F) (n : Nat) (f : Finding F) (campaignId : Json F)
    (current : F) : Action F where
  id := newId fresh "budget" n
  type := .updateBudget
  domain := .ads
  title := "Aumentar orçamento de '" ++ Amounts.text (field f.evidence "name" (.str "")) ++
    "' para " ++ Amounts.brl (raised settings current) ++ "/dia"
  payload := [("campaign_id", campaignId), ("current_brl", .float current),
    ("target_brl", .float (raised settings current))]
  rationale := f.recommendation
  expectedImpact := f.impact
  cost := Amounts.max 0.0 (raised settings current - current)
  reversible := true
  priority := 0.0
  mode := .recommend
  modeReason := ""
  sourceFinding := some f.code

def namesCampaign (f : Finding F) : Bool := Amounts.truthy (field f.evidence "campaign_id" .null)

def actionFromFinding (settings : Settings F) (n : Nat) (f : Finding F) :
    Except CompareError (Option (Action F)) :=
  if "pausar_campanha" ∈ f.suggestedActions ∧ namesCampaign f = true then
    .ok (some (pause fresh n f (field f.evidence "campaign_id" .null)))
  else if "escalar_orcamento" ∈ f.suggestedActions ∧ namesCampaign f = true then do
    let current ← (field f.evidence "daily_budget_brl" (.float 0.0)).toFloat
    return some (budgetIncrease fresh settings n f (field f.evidence "campaign_id" .null) current)
  else .ok none

def actionsFromFindings (settings : Settings F) :
    Nat → List (Finding F) → Except CompareError (List (Action F))
  | _, [] => .ok []
  | n, f :: findings => do
      match ← actionFromFinding fresh settings n f with
      | some a => return a :: (← actionsFromFindings settings (n + 1) findings)
      | none => actionsFromFindings settings n findings

end Actions

section Signals

variable {F : Type}

-- The evidence literals of the findings of `analyze`.
inductive AnalyticsEvidence (F : Type) where
  | refunds (refunds units : Int) (rate : F) (within48h : Int)
  | chargebacks (chargebacks units : Int)
  | conversion (current previous deltaPct : F)
  | revenue (currentBrl previousBrl : F) (trend : String)
  | traffic (current previous : Int)
  | pending (pending : Int) (ratio : F)
  | affiliate (share : F)
  | paidSource (source : String) (roas cpaBrl spendBrl : F)
  | organicSource (source : String) (conversionRate : F) (units : Int)
  | silence (windowDays : Int)
  | stable

def AnalyticsEvidence.toDict : AnalyticsEvidence F → List (String × Json F)
  | .refunds n units rate within48h =>
      [("refunds", .int n), ("units", .int units), ("rate", .float rate),
        ("within_48h", .int within48h)]
  | .chargebacks n units => [("chargebacks", .int n), ("units", .int units)]
  | .conversion current previous deltaPct =>
      [("current", .float current), ("previous", .float previous), ("delta_pct", .float deltaPct)]
  | .revenue currentBrl previousBrl trend =>
      [("current_brl", .float currentBrl), ("previous_brl", .float previousBrl),
        ("trend", .str trend)]
  | .traffic current previous => [("current", .int current), ("previous", .int previous)]
  | .pending n ratio => [("pending", .int n), ("ratio", .float ratio)]
  | .affiliate share => [("share", .float share)]
  | .paidSource source roas cpaBrl spendBrl =>
      [("source", .str source), ("roas", .float roas), ("cpa_brl", .float cpaBrl),
        ("spend_brl", .float spendBrl)]
  | .organicSource source conversionRate units =>
      [("source", .str source), ("conversion_rate", .float conversionRate), ("units", .int units)]
  | .silence windowDays => [("window_days", .int windowDays)]
  | .stable => []

-- The evidence literals of the findings of `triage_inbox`.
inductive SupportEvidence where
  | share (count total : Int)
  | escalations (ids flags : List String)
  | content (count : Int)

def SupportEvidence.toDict : SupportEvidence → List (String × Json F)
  | .share count total => [("count", .int count), ("total", .int total)]
  | .escalations ids flags =>
      [("ids", .list (ids.map .str)), ("flags", .list (flags.map .str))]
  | .content count => [("count", .int count)]

def signal (f : Finding F) (evidence : List (String × Json F)) : Finding F :=
  { f with evidence := evidence }

end Signals

-- The channels of the thread that decide what is done.
structure AgentState (F : Type) where
  command : String
  routing : List Intent
  clarified : Bool
  snapshot : Option (SalesWindow F)
  findings : List (Finding F)
  adAccount : Option (AdAccountStatus F)
  campaigns : List (CampaignPerformance F)
  campaignPlans : List (CampaignPlan F)
  planNotes : List String
  emailReplies : List (EmailReply F)
  actions : List (Action F)
  approvals : Approvals
  results : List ActionResult
  degraded : List String

def AgentState.empty {F : Type} : AgentState F where
  command := ""
  routing := []
  clarified := false
  snapshot := none
  findings := []
  adAccount := none
  campaigns := []
  campaignPlans := []
  planNotes := []
  emailReplies := []
  actions := []
  approvals := ∅
  results := []
  degraded := []

-- `route` and the string methods the nodes use.
structure Texts where
  route : String → List Intent
  strip : String → String
  lower : String → String

-- One command, with what the services and the user answer while it runs. The insights of the
-- campaigns are none when they could not be read.
structure Request (F : Type) where
  command : String
  clarification : String
  analytics : Except String (SalesWindow F × List (Finding F × AnalyticsEvidence F))
  mailbox : Except String (List (EmailReply F) × List (Finding F × SupportEvidence))
  account : Except String (AdAccountStatus F)
  insights : Option (List (CampaignPerformance F))
  approval : Json F
  replies : Nat → List Reply
  fresh : Nat → String

inductive Module where
  | analytics
  | suporte
  | ads
  deriving DecidableEq

section Run

variable {F : Type} [Amounts F] (texts : Texts) (settings : Settings F)

def briefing : List Intent := [.analyzePerformance, .handleEmails, .manageAds, .checkAdBudget]

def interpretar (r : Request F) (s : AgentState F) : AgentState F :=
  { s with command := r.command, routing := texts.route r.command }

def esclarecer (r : Request F) (s : AgentState F) : AgentState F :=
  let combined := texts.strip (s.command ++ " " ++ r.clarification)
  let intents := texts.route combined
  { s with
    command := combined
    routing := if .clarify ∈ intents then briefing else intents
    clarified := true }

def interpreted (r : Request F) (s : AgentState F) : AgentState F :=
  let s := interpretar texts r s
  if .clarify ∈ s.routing ∧ s.clarified = false then esclarecer texts r s else s

def despachar (intents : List Intent) : List Module :=
  let targets :=
    (if .analyzePerformance ∈ intents ∨ .answerQuestion ∈ intents then [.analytics] else []) ++
      (if .handleEmails ∈ intents then [.suporte] else []) ++
      (if .manageAds ∈ intents ∨ .checkAdBudget ∈ intents then [.ads] else [])
  if targets.isEmpty then [.analytics] else targets

def analytics (r : Request F) (s : AgentState F) : AgentState F :=
  match r.analytics with
  | .error e => { s with degraded := s.degraded ++ ["Hotmart indisponível: " ++ e] }
  | .ok (snapshot, findings) =>
      { s with
        snapshot := some snapshot
        findings := s.findings ++ findings.map (fun f => signal f.1 f.2.toDict) }

def suporte (r : Request F) (s : AgentState F) : AgentState F :=
  match r.mailbox with
  | .error e => { s with degraded := s.degraded ++ ["Caixa de entrada indisponível: " ++ e] }
  | .ok (replies, findings) =>
      { s with
        emailReplies := replies
        findings := s.findings ++ findings.map (fun f => signal f.1 f.2.toDict) }

def ads (r : Request F) (s : AgentState F) : AgentState F :=
  match r.account with
  | .error e => { s with degraded := s.degraded ++ ["Meta Ads indisponível: " ++ e] }
  | .ok status =>
      let campaigns := r.insights.getD []
      { s with
        adAccount := some status
        campaigns := campaigns
        findings := s.findings ++ checkFunding status settings ++
          diagnoseCampaigns campaigns settings }

-- The updates of the modules that ran are applied in the order of the nodes' names.
def modules (r : Request F) (s : AgentState F) : AgentState F :=
  let targets := despachar s.routing
  let s := if .ads ∈ targets then ads settings r s else s
  let s := if .analytics ∈ targets then analytics r s else s
  if .suporte ∈ targets then suporte r s else s

def plansOf (s : AgentState F) : List (CampaignPlan F) × List String :=
  match s.adAccount with
  | some status =>
      if .manageAds ∈ s.routing then
        selectCampaigns (buildCampaignCatalog texts.lower s.snapshot s.campaigns settings) status
          settings
      else ([], [])
  | none => ([], [])

def proposed (fresh : Nat → String) (s : AgentState F) (plans : List (CampaignPlan F))
    (ranked : List (Finding F)) : Except CompareError (List (Action F)) := do
  let emails := actionsFromEmails fresh settings 0 settings.guardrails.maxAutoEmailsPerRun
    s.emailReplies
  let campaigns := actionsFromCampaigns fresh emails.length plans
  let onFindings ← actionsFromFindings fresh settings (emails.length + campaigns.length) ranked
  return emails ++ campaigns ++ onFindings

def decidir (r : Request F) (s : AgentState F) : Except CompareError (AgentState F) := do
  let plans := plansOf texts settings s
  let ranked ← prioritize s.findings settings
  let actions ← proposed settings r.fresh s plans.1 ranked
  let ordered ← rankActions actions ranked settings
  return { s with
    campaignPlans := plans.1
    planNotes := s.planNotes ++ plans.2
    actions := ordered }

def normalize (s : String) : String := texts.lower (texts.strip s)

def approved (r : Request F) (s : AgentState F) : Except CompareError (AgentState F) :=
  match precisaAprovacao s.actions with
  | .aprovar => do
      return { s with
        approvals := ← aprovar (normalize texts) s.actions r.approval s.approvals }
  | _ => .ok s

def executed (r : Request F) (s : AgentState F) : List (Entry F) :=
  match precisaAprovacao s.actions with
  | .relatar => []
  | _ => entries settings s.approvals (worked s.actions r.replies)

-- The thread when the run gets to `executar`.
def reached (r : Request F) (s : AgentState F) : Except CompareError (AgentState F) := do
  let s ← decidir texts settings r (modules settings r (interpreted texts r s))
  approved texts r s

end Run

end Hotmart

end LangGraph

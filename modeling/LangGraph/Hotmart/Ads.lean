import LangGraph.Hotmart.Policy
import Mathlib.Data.List.Infix

namespace LangGraph

open Collections Store

namespace Hotmart

variable {F : Type} [Amounts F]

structure AdAccountStatus (F : Type) where
  accountId : String
  accountStatus : Int
  disableReason : Int
  currency : String
  balance : F
  prepaidBalance : F
  spendCap : F
  amountSpent : F
  hasValidFunding : Bool
  fundingSource : String

namespace AdAccountStatus

def isActive (s : AdAccountStatus F) : Bool := s.accountStatus = 1 && s.disableReason = 0

def available (s : AdAccountStatus F) : F :=
  let capLeft := if Amounts.gt s.spendCap 0.0 then s.spendCap - s.amountSpent else Amounts.inf
  let prepaid := if Amounts.gt s.prepaidBalance 0.0 then s.prepaidBalance
    else if s.hasValidFunding then Amounts.inf else 0.0
  Amounts.max 0.0 (Amounts.min capLeft prepaid)

def toDict (s : AdAccountStatus F) : List (String × Json F) :=
  [("account_id", .str s.accountId), ("account_status", .int s.accountStatus),
    ("disable_reason", .int s.disableReason), ("currency", .str s.currency),
    ("balance_brl", .float s.balance), ("prepaid_balance_brl", .float s.prepaidBalance),
    ("spend_cap_brl", .float s.spendCap), ("amount_spent_brl", .float s.amountSpent),
    ("has_valid_funding", .bool s.hasValidFunding), ("funding_source", .str s.fundingSource),
    ("is_active", .bool s.isActive),
    ("available_brl", if Floats.eq s.available Amounts.inf then .null else .float s.available)]

end AdAccountStatus

structure CampaignPerformance (F : Type) where
  campaignId : String
  name : String
  status : String
  objective : String
  dailyBudget : F
  spend : F
  impressions : Int
  clicks : Int
  purchases : Int
  revenue : F

namespace CampaignPerformance

def roas (c : CampaignPerformance F) : F :=
  if Amounts.nonzero c.spend then c.revenue / c.spend else 0.0

def cpa (c : CampaignPerformance F) : F :=
  if c.purchases ≠ 0 then c.spend / Amounts.count c.purchases else 0.0

def ctr (c : CampaignPerformance F) : F :=
  if c.impressions ≠ 0 then Amounts.count c.clicks / Amounts.count c.impressions else 0.0

def toDict (c : CampaignPerformance F) : List (String × Json F) :=
  [("campaign_id", .str c.campaignId), ("name", .str c.name), ("status", .str c.status),
    ("objective", .str c.objective), ("daily_budget_brl", .float c.dailyBudget),
    ("spend_brl", .float c.spend), ("impressions", .int c.impressions), ("clicks", .int c.clicks),
    ("purchases", .int c.purchases), ("revenue_brl", .float c.revenue), ("roas", .float c.roas),
    ("cpa_brl", .float c.cpa), ("ctr", .float c.ctr)]

end CampaignPerformance

structure CampaignPlan (F : Type) where
  blueprint : String
  name : String
  objective : String
  optimizationGoal : String
  dailyBudget : F
  audience : String
  audienceSpec : List (String × Json F)
  creativeAngle : String
  expectedCpa : F
  expectedRoas : F
  score : F
  rationale : String
  startPaused : Bool

def CampaignPlan.toDict (p : CampaignPlan F) : List (String × Json F) :=
  [("blueprint", .str p.blueprint), ("name", .str p.name), ("objective", .str p.objective),
    ("optimization_goal", .str p.optimizationGoal), ("daily_budget_brl", .float p.dailyBudget),
    ("audience", .str p.audience), ("audience_spec", .dict p.audienceSpec),
    ("creative_angle", .str p.creativeAngle), ("expected_cpa_brl", .float p.expectedCpa),
    ("expected_roas", .float p.expectedRoas), ("score", .float p.score),
    ("rationale", .str p.rationale), ("start_paused", .bool p.startPaused)]

structure SourceStats (F : Type) where
  source : String
  units : Int
  adSpend : F

-- The parts of a sales window that the catalog reads.
structure SalesWindow (F : Type) where
  units : Int
  checkoutSessions : Int
  pendingBillets : Int
  bySource : List (SourceStats F)

def disableReasons : List (Int × String) :=
  [(1, "conta desativada por violação de política"),
    (2, "conta desativada por problema de pagamento (IP_CENTRAL)"),
    (3, "conta desativada por atividade suspeita"),
    (4, "conta em análise de anúncios"),
    (5, "conta desativada por risco (RISK_PAYMENT)"),
    (7, "conta fechada pelo anunciante"),
    (8, "revisão de política pendente"),
    (9, "conta desativada por gasto não pago")]

def checkFunding (status : AdAccountStatus F) (settings : Settings F) : List (Finding F) :=
  if !status.isActive then
    let reason := (Dict.lookup status.disableReason disableReasons).getD
      ("motivo " ++ toString status.disableReason)
    [{ code := "AD_ACCOUNT_DISABLED"
       domain := .ads
       severity := .critical
       title := "Conta de anúncios inativa"
       detail := "Status " ++ toString status.accountStatus ++ ": " ++ reason ++
         ". Nenhuma campanha pode ser criada ou veiculada até a regularização."
       evidence := status.toDict
       recommendation := "Abrir a Central de Contas do Meta Business, revisar a pendência e " ++
         "solicitar revisão. Enquanto isso, redirecionar esforço para canais orgânicos e lista " ++
         "de e-mail."
       impact := 0.0
       effort := 1.0
       confidence := 0.8
       suggestedActions := ["regularizar_conta_meta"] }]
  else if !status.hasValidFunding then
    [{ code := "AD_NO_FUNDING"
       domain := .ads
       severity := .critical
       title := "Conta sem meio de pagamento válido"
       detail := "Não há cartão nem saldo pré-pago associado à conta."
       evidence := status.toDict
       recommendation := "Cadastrar meio de pagamento antes de subir campanha."
       impact := 0.0
       effort := 0.5
       confidence := 0.8
       suggestedActions := [] }]
  else if !Floats.eq status.available Amounts.inf &&
      Floats.lt status.available settings.guardrails.minAccountBalance then
    [{ code := "AD_LOW_BALANCE"
       domain := .ads
       severity := .warning
       title := "Saldo disponível de " ++ Amounts.brl status.available
       detail := "Abaixo do mínimo operacional de " ++
         Amounts.brl settings.guardrails.minAccountBalance ++
         ". Campanhas podem parar de entregar no meio do dia."
       evidence := status.toDict
       recommendation := "Recarregar a conta antes de aprovar novos planos."
       impact := 0.0
       effort := 0.5
       confidence := 0.8
       suggestedActions := ["recarregar_conta"] }]
  else []

def campaignFinding (c : CampaignPerformance F) (code : String) (severity : Severity)
    (title detail recommendation : String) (impact effort : F) (suggestedActions : List String) :
    Finding F where
  code := code
  domain := .ads
  severity := severity
  title := title
  detail := detail
  evidence := c.toDict
  recommendation := recommendation
  impact := impact
  effort := effort
  confidence := 0.8
  suggestedActions := suggestedActions

def noConversion (c : CampaignPerformance F) : Finding F :=
  campaignFinding c "CAMPAIGN_NO_CONVERSION" .critical
    ("'" ++ c.name ++ "' gastou " ++ Amounts.brl c.spend ++ " sem venda")
    ("Gasto acima de um ticket sem nenhuma conversão. Pode ser pixel mal configurado, público " ++
      "errado ou objetivo inadequado para venda direta.")
    "Pausar e validar o evento de compra no pixel." (Amounts.round (c.spend * 4.0) 2) 0.5
    ["pausar_campanha"]

-- What the return on a campaign with sales says: cut, fix or scale.
def judged (c : CampaignPerformance F) (settings : Settings F) : List (Finding F) :=
  let t := settings.thresholds
  let g := settings.guardrails
  let price := settings.product.price
  let cpaTarget := price * t.cpaTargetRatio
  let cpaCritical := price * t.cpaCriticalRatio
  if Floats.lt c.roas t.roasCritical then
    [campaignFinding c "CAMPAIGN_ROAS_CRITICAL" .critical
      ("'" ++ c.name ++ "' com ROAS " ++ Amounts.times c.roas)
      ("Cada real investido devolve " ++ Amounts.brl c.roas ++ ". CPA de " ++ Amounts.brl c.cpa ++
        " contra ticket de " ++ Amounts.brl price ++ ".")
      "Pausar ou reduzir orçamento e refazer criativo/público."
      (Amounts.round (c.spend * (1.0 - c.roas) * 4.0) 2) 1.0 ["pausar_campanha"]]
  else if Amounts.gt c.cpa cpaCritical then
    [campaignFinding c "CAMPAIGN_CPA_HIGH" .warning
      ("'" ++ c.name ++ "' com CPA de " ++ Amounts.brl c.cpa)
      ("Acima do teto de " ++ Amounts.brl cpaCritical ++ " (" ++ Amounts.pct t.cpaCriticalRatio 0 ++
        " do ticket).")
      "Testar novo criativo antes de mexer no orçamento."
      (Amounts.round ((c.cpa - cpaTarget) * Amounts.count c.purchases * 4.0) 2) 1.0 []]
  else if Floats.le g.minRoasToScale c.roas then
    [campaignFinding c "CAMPAIGN_SCALABLE" .opportunity
      ("'" ++ c.name ++ "' com ROAS " ++ Amounts.times c.roas ++ " — pronta para escalar")
      ("CPA de " ++ Amounts.brl c.cpa ++ " e " ++ toString c.purchases ++ " vendas. Aumento de até " ++
        Amounts.pct g.maxBudgetIncreasePct 0 ++ " preserva a fase de aprendizado.")
      ("Subir orçamento diário de " ++ Amounts.brl c.dailyBudget ++ " para " ++
        Amounts.brl (c.dailyBudget * (1.0 + g.maxBudgetIncreasePct)) ++ " e reavaliar em 72h.")
      (Amounts.round (c.revenue * g.maxBudgetIncreasePct * 4.0) 2) 0.3 ["escalar_orcamento"]]
  else []

def wrongObjective (c : CampaignPerformance F) : Finding F :=
  campaignFinding c "CAMPAIGN_WRONG_OBJECTIVE" .warning
    ("'" ++ c.name ++ "' otimiza tráfego, não venda")
    ("Campanhas de tráfego compram cliques baratos de quem não compra. Para produto de ticket " ++
      "baixo, otimizar por compra quase sempre sai mais barato por venda.")
    "Migrar para objetivo de vendas com otimização por compra."
    (Amounts.round (c.spend * 4.0 * 0.6) 2) 1.0 []

def diagnoseCampaign (settings : Settings F) (c : CampaignPerformance F) : List (Finding F) :=
  if c.status ≠ "ACTIVE" ∨ Floats.lt c.spend settings.product.price then []
  else if c.purchases = 0 then [noConversion c]
  else
    judged c settings ++
      if c.objective = "OUTCOME_TRAFFIC" ∧
          Floats.lt (Amounts.count c.purchases / Amounts.count (max c.clicks 1)) (0.002 : F) then
        [wrongObjective c]
      else []

def diagnoseCampaigns (campaigns : List (CampaignPerformance F)) (settings : Settings F) :
    List (Finding F) :=
  campaigns.flatMap (diagnoseCampaign settings)

end Hotmart

end LangGraph

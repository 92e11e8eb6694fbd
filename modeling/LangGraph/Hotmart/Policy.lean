import LangGraph.Hotmart.Models

namespace LangGraph

open Collections Store

namespace Hotmart

variable {F : Type} [Amounts F]

def actionRisk : ActionType → Risk
  | .report => .none
  | .draftEmail => .low
  | .pauseCampaign => .low
  | .escalate => .low
  | .sendEmail => .medium
  | .updateBudget => .high
  | .createCampaign => .high
  | .issueRefund => .high

def autonomyMaxRisk : Autonomy → Risk
  | .observe => .none
  | .recommend => .none
  | .approve => .low
  | .autonomous => .high

def WithinAutonomy (type : ActionType) (autonomy : Autonomy) : Prop :=
  riskOrder (actionRisk type) ≤ riskOrder (autonomyMaxRisk autonomy)

instance (type : ActionType) (autonomy : Autonomy) : Decidable (WithinAutonomy type autonomy) :=
  inferInstanceAs (Decidable (_ ≤ _))

def severityWeight : Severity → F
  | .critical => 1.0
  | .warning => 0.6
  | .opportunity => 0.45
  | .info => 0.15

-- `min` refuses to compare a complex number, which the root of a negative ratio is.
def priorityScore (finding : Finding F) (settings : Settings F) : Except CompareError F :=
  let reference := Amounts.max (settings.product.price * 10.0) 1.0
  let effort := Amounts.max 0.3 finding.effort
  let score := fun impact : F =>
    Amounts.round (severityWeight finding.severity * (0.5 + impact) * finding.confidence / effort) 4
  if Amounts.nonzero finding.impact then
    match Amounts.sqrt (finding.impact / reference) with
    | some root => .ok (score (Amounts.min 3.0 root))
    | none => .error .typeError
  else .ok (score 0.0)

def severityRank : Severity → Nat
  | .critical => 0
  | .warning => 1
  | .opportunity => 2
  | .info => 3

-- The order of the key `(rank, -score, -impact)`.
def rankedBefore (a b : Finding F × F) : Bool :=
  if severityRank a.1.severity ≠ severityRank b.1.severity then
    severityRank a.1.severity < severityRank b.1.severity
  else if Floats.eq (-a.2) (-b.2) then Floats.lt (-a.1.impact) (-b.1.impact)
  else Floats.lt (-a.2) (-b.2)

def prioritize (findings : List (Finding F)) (settings : Settings F) :
    Except CompareError (List (Finding F)) := do
  let scored ← findings.mapM (fun f => return (f, ← priorityScore f settings))
  return (scored.mergeSort (fun a b => !rankedBefore b a)).map Prod.fst

def field (items : List (String × Json F)) (k : String) (default : Json F) : Json F :=
  (Dict.lookup k items).getD default

def decided (action : Action F) (mode : ExecutionMode) (reason : String) : Action F :=
  { action with mode := mode, modeReason := reason }

def byRisk (action : Action F) (settings : Settings F) : Action F :=
  let risk := actionRisk action.type
  if WithinAutonomy action.type settings.autonomy then
    decided action .auto
      ("risco " ++ risk.value ++ " dentro do permitido para autonomia " ++ settings.autonomy.value ++
        if settings.dryRun then " (dry-run: nada será enviado de fato)" else "")
  else if autonomyOrder .approve ≤ autonomyOrder settings.autonomy then
    decided action .approval ("risco " ++ risk.value ++ " exige aprovação humana")
  else decided action .recommend ("risco " ++ risk.value ++ " acima da autonomia configurada")

def refundValue (action : Action F) : Except CompareError F :=
  (field action.payload "value_brl" (.float 0.0)).toFloat

def resolveMode (action : Action F) (settings : Settings F) : Except CompareError (Action F) :=
  let g := settings.guardrails
  if settings.autonomy = .observe ∧ action.type ≠ .report then
    .ok (decided action .recommend "modo observação (L0): o agente apenas relata")
  else if Amounts.gt action.cost g.maxDailyBudget then
    .ok (decided action .blocked
      ("custo diário de " ++ Amounts.brl action.cost ++ " acima do teto de " ++
        Amounts.brl g.maxDailyBudget))
  else if action.type = .issueRefund then do
    let value ← refundValue action
    if Amounts.gt value g.refundAutoApproveMax then
      return decided action .approval
        ("reembolso de " ++ Amounts.brl value ++ " acima do limite automático de " ++
          Amounts.brl g.refundAutoApproveMax)
    else return byRisk action settings
  else .ok (byRisk action settings)

def basePriority (action : Action F) (findings : List (Finding F)) (settings : Settings F) :
    Except CompareError F :=
  match findings.reverse.find? (fun f => f.code = action.sourceFinding.getD "") with
  | some source => priorityScore source settings
  | none => .ok 0.3

def contactBonus : ActionType → Option F
  | .escalate => some 1.5
  | .sendEmail => some 0.6
  | _ => none

def prioritized (action : Action F) (base : F) : Action F :=
  let base := (contactBonus action.type).elim base (base + ·)
  let roi := action.expectedImpact / Amounts.max action.cost 1.0
  { action with priority := Amounts.round (base + Amounts.min (roi / 50.0) 1.0) 4 }

def rankAction (findings : List (Finding F)) (settings : Settings F) (action : Action F) :
    Except CompareError (Action F) := do
  let base ← basePriority action findings settings
  resolveMode (prioritized action base) settings

def rankActions (actions : List (Action F)) (findings : List (Finding F))
    (settings : Settings F) : Except CompareError (List (Action F)) := do
  let ranked ← actions.mapM (rankAction findings settings)
  return ranked.mergeSort (fun a b => !Floats.lt (-b.priority) (-a.priority))

end Hotmart

end LangGraph

import LangGraph.Hotmart.Clients
import Mathlib.Data.List.Infix

namespace LangGraph

open Collections Store

namespace Hotmart

inductive Decision where
  | approved
  | rejected
  deriving DecidableEq

abbrev Approvals := Dict String Decision

section Approval

variable {F : Type} [Amounts F]

def hashable : Json F → Bool
  | .list _ | .dict _ => false
  | _ => true

def string? : Json F → Option String
  | .str s => some s
  | _ => none

-- The strings of `set(value)`; an id equals no other element.
def toSet : Json F → Except CompareError (List String)
  | .str s => .ok (s.toList.map (fun c => String.ofList [c]))
  | .list xs => if xs.all hashable then .ok (xs.filterMap string?) else .error .typeError
  | .dict items => .ok (items.map Prod.fst)
  | _ => .error .typeError

def approveAll : List String := ["aprovar tudo", "aprovar", "sim", "ok", "approve all", "y"]

def rejectAll : List String := ["rejeitar tudo", "rejeitar", "nao", "não", "no", "n"]

def decisions (picked : String → Bool) (pendingIds : List String) : Approvals :=
  Dict.ofList (pendingIds.map (fun id => (id, if picked id then .approved else .rejected)))

-- `normalize` is `.strip().lower()`.
def parseApproval (normalize : String → String) (response : Json F) (pendingIds : List String) :
    Except CompareError Approvals :=
  match response with
  | .str s =>
      let normalized := normalize s
      if normalized ∈ approveAll then .ok (decisions (fun _ => true) pendingIds)
      else if normalized ∈ rejectAll then .ok (decisions (fun _ => false) pendingIds)
      else .ok (decisions (fun id => decide (id.toList <:+: normalized.toList)) pendingIds)
  | .dict items => do
      let listed := field items "approved" .null
      let approved ← if Amounts.truthy listed then toSet listed else .ok []
      let all := Amounts.truthy (field items "approve_all" .null)
      return decisions (fun id => all || id ∈ approved) pendingIds
  | .list xs => do
      let approved ← toSet (.list xs)
      return decisions (fun id => id ∈ approved) pendingIds
  | _ => .ok (decisions (fun _ => false) pendingIds)

end Approval

inductive Node where
  | aprovar
  | executar
  | relatar
  deriving DecidableEq

section Nodes

variable {F : Type} [Amounts F]

def pendingIds (actions : List (Action F)) : List String :=
  (actions.filter (fun a => a.mode = .approval)).map Action.id

def precisaAprovacao (actions : List (Action F)) : Node :=
  if actions.any (fun a => a.mode = .approval) then .aprovar
  else if actions.any (fun a => a.mode = .auto) then .executar
  else .relatar

def mergeDicts (left right : Approvals) : Approvals := left.update right.items

def aprovar (normalize : String → String) (actions : List (Action F)) (response : Json F)
    (approvals : Approvals) : Except CompareError Approvals := do
  let parsed ← parseApproval normalize response (pendingIds actions)
  return mergeDicts approvals parsed

inductive Raised where
  | guardrail (text : String)
  | agent (text : String)
  | other (text : String)
  deriving DecidableEq

inductive Item (F : Type) where
  | call (c : Call F)
  | command (c : Command)
  | raises (e : Raised)

def Call.items (c : Call F) : List (Item F) := .call c :: c.commands.map .command

def keyError (k : String) : Raised := .other k

def item (p : List (String × Json F)) (k : String) (next : Json F → List (Item F)) :
    List (Item F) :=
  match Dict.lookup k p with
  | some v => next v
  | none => [.raises (keyError k)]

def planFields : List String :=
  ["blueprint", "name", "objective", "optimization_goal", "daily_budget_brl", "audience",
    "audience_spec", "creative_angle", "expected_cpa_brl", "expected_roas", "score", "rationale",
    "start_paused"]

def requiredPlanFields : List String := planFields.take 6

-- `CampaignPlan(**p)`: no unknown keyword and none of the required ones missing.
def IsPlan (p : List (String × Json F)) : Prop :=
  (∀ k ∈ p.map Prod.fst, k ∈ planFields) ∧ ∀ k ∈ requiredPlanFields, k ∈ p.map Prod.fst

instance (p : List (String × Json F)) : Decidable (IsPlan p) :=
  inferInstanceAs (Decidable (_ ∧ _))

def describe : CompareError → String
  | .typeError => "TypeError"
  | .valueError => "ValueError"
  | .overflowError => "OverflowError"

-- What `_perform` does, in order: the arguments are read before the call they go into.
def perform (action : Action F) (settings : Settings F) : List (Item F) :=
  let p := action.payload
  match action.type with
  | .sendEmail =>
      item p "to" fun recipient => item p "subject" fun subject => item p "body" fun body =>
        (Call.sendReply recipient subject body (field p "thread_id" (.str ""))).items ++
          item p "email_id" fun id => (Call.markHandled id "agente/respondido").items
  | .draftEmail =>
      item p "to" fun recipient => item p "subject" fun subject => item p "body" fun body =>
        (Call.saveDraft recipient subject body).items
  | .escalate => item p "email_id" fun id => (Call.markHandled id "agente/escalado").items
  | .createCampaign =>
      if IsPlan p then (Call.createCampaign p).items else [.raises (.other "TypeError")]
  | .updateBudget =>
      item p "target_brl" fun value =>
        match value.toFloat with
        | .error e => [.raises (.other (describe e))]
        | .ok target =>
            if Amounts.gt target settings.guardrails.maxDailyBudget then
              [.raises (.guardrail ("guardrail 'max_daily_budget_brl': " ++ Amounts.brl target ++
                " acima do teto configurado"))]
            else item p "campaign_id" fun id => (Call.updateDailyBudget id target).items
  | .pauseCampaign => item p "campaign_id" fun id => (Call.pauseCampaign id).items
  | .issueRefund =>
      item p "transaction" fun transaction =>
        (Call.requestRefund transaction (field p "reason" (.str ""))).items
  | .report => []

structure Attempt (F : Type) where
  called : List (Call F)
  effects : List Effect
  outcome : Except Raised Unit

def raisedBy (c : Command) (e : WireError) : Except Raised Unit :=
  match c.handling e.kind with
  | .converts service => .error (.agent ("[" ++ service ++ "] " ++ e.text))
  | .swallows => .ok ()
  | .passes => if e.kind = .agent then .error (.agent e.text) else .error (.other e.text)

def Attempt.calling (c : Call F) (a : Attempt F) : Attempt F := { a with called := c :: a.called }

def Attempt.after (effect : Option Effect) (a : Attempt F) : Attempt F :=
  { a with effects := effect.toList ++ a.effects }

-- Only the last method of a performance swallows an error, so that nothing follows.
def attempt : List (Item F) → List Reply → Attempt F
  | [], _ => ⟨[], [], .ok ()⟩
  | .call c :: items, replies => (attempt items replies).calling c
  | .raises e :: _, _ => ⟨[], [], .error e⟩
  | .command c :: items, replies =>
      match replies.headD .ok with
      | .ok => (attempt items replies.tail).after c.effect
      | .failed e tookEffect => ⟨[], if tookEffect then c.effect.toList else [], raisedBy c e⟩

-- An action of the list, and the replies of the services while it is performed.
abbrev Work (F : Type) := Action F × List Reply

-- What the loop does with one action; a result that is an error has left the loop.
structure Entry (F : Type) where
  action : Action F
  attempted : Option (Attempt F)
  result : Except String ActionResult
  degraded : List String

def unattempted (action : Action F) (status : Status) (detail : String) : Entry F :=
  ⟨action, none, .ok ⟨action.id, status, detail⟩, []⟩

def report (action : Action F) (a : Attempt F) : Entry F :=
  match a.outcome with
  | .ok () => ⟨action, some a, .ok ⟨action.id, .done, action.title⟩, []⟩
  | .error (.guardrail text) => ⟨action, some a, .ok ⟨action.id, .skipped, text⟩, []⟩
  | .error (.agent text) =>
      ⟨action, some a, .ok ⟨action.id, .failed, text⟩,
        ["Falha ao executar '" ++ action.title ++ "': " ++ text]⟩
  | .error (.other text) => ⟨action, some a, .error text, []⟩

def carriedOut (settings : Settings F) (w : Work F) : Entry F :=
  if settings.dryRun then
    unattempted w.1 .done "simulada (dry-run): nenhuma chamada externa foi feita"
  else report w.1 (attempt (perform w.1 settings) w.2)

def executeAction (settings : Settings F) (approvals : Approvals) (w : Work F) : Entry F :=
  match w.1.mode with
  | .blocked => unattempted w.1 .skipped ("bloqueada: " ++ w.1.modeReason)
  | .recommend => unattempted w.1 .skipped "apenas recomendada"
  | .approval =>
      match approvals.get? w.1.id with
      | some .approved => carriedOut settings w
      | some .rejected => unattempted w.1 .rejected w.1.modeReason
      | none => unattempted w.1 .pendingApproval w.1.modeReason
  | .auto => carriedOut settings w

def entries (settings : Settings F) (approvals : Approvals) : List (Work F) → List (Entry F)
  | [] => []
  | w :: rest =>
      let e := executeAction settings approvals w
      match e.result with
      | .ok _ => e :: entries settings approvals rest
      | .error _ => [e]

structure Executed where
  results : List ActionResult
  degraded : List String

def executar (settings : Settings F) (approvals : Approvals) (work : List (Work F)) :
    Except String Executed := do
  let es := entries settings approvals work
  let results ← es.mapM Entry.result
  return ⟨results, es.flatMap Entry.degraded⟩

end Nodes

end Hotmart

end LangGraph

import LangGraph.Hotmart.FloatLaws
import LangGraph.Hotmart.MetaAds
import LangGraph.Hotmart.Support

namespace LangGraph

open Collections Store

namespace Hotmart

def AdAccountStatus.capLeft {F : Type} [Amounts F] (status : AdAccountStatus F) : Option F :=
  if Amounts.gt status.spendCap 0.0 then some (status.spendCap - status.amountSpent) else none

namespace MetaAds

open Support

-- `str.lower`, and the whole number that `int` reads in a text.
structure AnswerTexts where
  lower : String → String
  intText : String → Option Int

inductive AnswerError where
  | attributeError
  | builtin (e : CompareError)
  deriving DecidableEq

section Answer

variable {F : Type} [WholeAmounts F]

def cents (value : Json F) : Except CompareError F :=
  match value.toFloat with
  | .ok x => .ok (x / 100.0)
  | .error .overflowError => .error .overflowError
  | .error _ => .ok 0.0

def toInt (t : AnswerTexts) : Json F → Except CompareError Int
  | .bool b => .ok (if b then 1 else 0)
  | .int n => .ok n
  | .float x => WholeAmounts.toInt x
  | .str s => (t.intText s).elim (.error .valueError) .ok
  | .null | .list _ | .dict _ => .error .typeError

def fundingDetails (data : List (String × Json F)) : Except AnswerError (List (String × Json F)) :=
  match orElse (field data "funding_source_details" .null) (.dict []) with
  | .dict funding => .ok funding
  | _ => .error .attributeError

def isPrepaid (t : AnswerTexts) (funding : List (String × Json F)) : Bool :=
  let fundingType := Amounts.text (field funding "type" (.str ""))
  fundingType = "20" || fundingType = "prepaid" ||
    decide ("prepaid".toList <:+:
      (t.lower (Amounts.text (field funding "display_string" (.str "")))).toList)

-- The account as `data`, the answer of the endpoint, has it; its currency is kept as a text.
def getAccountStatus (t : AnswerTexts) (account : String) (data : List (String × Json F)) :
    Except AnswerError (AdAccountStatus F) := do
  let funding ← fundingDetails data
  let balance ← (cents (field data "balance" .null)).mapError .builtin
  let accountStatus ← (toInt t (field data "account_status" (.int 1))).mapError .builtin
  let disableReason ← (toInt t (field data "disable_reason" (.int 0))).mapError .builtin
  let spendCap ← (cents (field data "spend_cap" .null)).mapError .builtin
  let amountSpent ← (cents (field data "amount_spent" .null)).mapError .builtin
  return {
    accountId := account
    accountStatus := accountStatus
    disableReason := disableReason
    currency := Amounts.text (field data "currency" (.str "BRL"))
    balance := if isPrepaid t funding then 0.0 else balance
    prepaidBalance := if isPrepaid t funding then balance else 0.0
    spendCap := spendCap
    amountSpent := amountSpent
    hasValidFunding := !funding.isEmpty
    fundingSource := Amounts.text (field funding "display_string" (.str "")) }

-- The money that an answer grants: the credit of a prepaid account, and what a cap leaves.
def prepaidCredit (t : AnswerTexts) (data : List (String × Json F)) : Option F :=
  match fundingDetails data with
  | .ok funding =>
      if isPrepaid t funding then (cents (field data "balance" .null)).toOption else none
  | .error _ => none

def capLeft (data : List (String × Json F)) : Option F :=
  match cents (field data "spend_cap" .null), cents (field data "amount_spent" .null) with
  | .ok spendCap, .ok amountSpent =>
      if Amounts.gt spendCap 0.0 then some (spendCap - amountSpent) else none
  | _, _ => none

end Answer

section Read

variable {F : Type} [WholeAmounts F] {t : AnswerTexts} {account : String}
  {data : List (String × Json F)} {status : AdAccountStatus F}

-- The fields of a status that say what may be spent, in terms of the answer.
structure ReadFrom (t : AnswerTexts) (data : List (String × Json F)) (status : AdAccountStatus F) :
    Prop where
  credit : ∀ b, prepaidCredit t data = some b → status.prepaidBalance = b
  cap : capLeft data = status.capLeft

theorem getAccountStatus_readFrom (h : getAccountStatus t account data = .ok status) :
    ReadFrom t data status := by
  obtain ⟨funding, hfunding, h⟩ := Exceptions.bind_ok h
  obtain ⟨balance, hbalance, h⟩ := Exceptions.bind_ok h
  obtain ⟨accountStatus, -, h⟩ := Exceptions.bind_ok h
  obtain ⟨disableReason, -, h⟩ := Exceptions.bind_ok h
  obtain ⟨spendCap, hspendCap, h⟩ := Exceptions.bind_ok h
  obtain ⟨amountSpent, hamountSpent, h⟩ := Exceptions.bind_ok h
  injection h with hstatus
  subst hstatus
  constructor
  · intro b hb
    rw [prepaidCredit, hfunding, Exceptions.ok_of_mapError hbalance] at hb
    cases hprepaid : isPrepaid t funding with
    | true =>
      have hsame : some balance = some b := (if_pos hprepaid).symm.trans hb
      exact Option.some_inj.mp hsame
    | false =>
      have hnone : none = some b := (if_neg (by simp [hprepaid])).symm.trans hb
      cases hnone
  · rw [capLeft, Exceptions.ok_of_mapError hspendCap, Exceptions.ok_of_mapError hamountSpent]
    rfl

end Read

end MetaAds

instance [ExactTexts] : WholeAmounts ExtRat where
  toInt
    | .fin q => .ok (if q < 0 then -(-q).floor else q.floor)
    | .inf | .ninf => .error .overflowError
    | .nan => .error .valueError

end Hotmart

end LangGraph

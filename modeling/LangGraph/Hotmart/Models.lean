import LangGraph.Store.Filters
import Mathlib.Data.Nat.Sqrt
import Mathlib.Algebra.Ring.Int.Defs
import Mathlib.Algebra.Ring.Nat

namespace LangGraph

open Collections Store

namespace Hotmart

-- Python's `float`: `sqrt` is `x ** 0.5` (none where that is complex), `num` the thousands format,
-- `count` a whole number among floats.
class Amounts (F : Type) extends Floats F, Add F, Sub F, Mul F, Div F, Neg F, OfScientific F where
  sqrt : F → Option F
  round : F → Nat → F
  abs : F → F
  num : F → Nat → String
  repr : Json F → String
  inf : F
  count : Int → F

namespace Amounts

variable {F : Type} [Amounts F]

def gt (x y : F) : Bool := Floats.lt y x

def max (x y : F) : F := if Floats.lt x y then y else x

def min (x y : F) : F := if Floats.lt y x then y else x

def nonzero (x : F) : Bool := !Floats.eqInt x 0

def brl (x : F) : String :=
  (if Floats.lt x 0.0 then "-" else "") ++ "R$ " ++ num (abs x) 2

def pct (x : F) (decimals : Nat) : String := num (x * 100.0) decimals ++ "%"

def times (x : F) : String := num x 2 ++ "x"

def text : Json F → String
  | .str s => s
  | v => repr v

def truthy : Json F → Bool
  | .null => false
  | .bool b => b
  | .int n => n ≠ 0
  | .float x => nonzero x
  | .str s => s ≠ ""
  | .list xs => !xs.isEmpty
  | .dict items => !items.isEmpty

end Amounts

-- Exact amounts, for fixed inputs.
instance exactAmounts : Amounts Rat where
  ofInt n := some n
  ofStr s := s.toInt?.map (fun n => (n : Rat))
  lt x y := x < y
  le x y := x ≤ y
  eq x y := x = y
  eqInt x n := x = n
  sqrt x := if x < 0 then none else some (mkRat x.num.toNat.sqrt x.den.sqrt)
  round x decimals := (mkRat (x * 10 ^ decimals + 1 / 2).floor (10 ^ decimals))
  abs x := if x < 0 then -x else x
  num x _ := toString x
  repr _ := ""
  inf := 1000000000000
  count n := n

inductive Autonomy where
  | observe
  | recommend
  | approve
  | autonomous
  deriving DecidableEq

def Autonomy.value : Autonomy → String
  | .observe => "L0"
  | .recommend => "L1"
  | .approve => "L2"
  | .autonomous => "L3"

def autonomyOrder : Autonomy → Nat
  | .observe => 0
  | .recommend => 1
  | .approve => 2
  | .autonomous => 3

inductive Risk where
  | none
  | low
  | medium
  | high
  deriving DecidableEq

def Risk.value : Risk → String
  | .none => "none"
  | .low => "low"
  | .medium => "medium"
  | .high => "high"

def riskOrder : Risk → Nat
  | .none => 0
  | .low => 1
  | .medium => 2
  | .high => 3

inductive Severity where
  | critical
  | warning
  | info
  | opportunity
  deriving DecidableEq

inductive Domain where
  | analytics
  | support
  | ads
  | product
  deriving DecidableEq

inductive ActionType where
  | report
  | sendEmail
  | draftEmail
  | issueRefund
  | createCampaign
  | updateBudget
  | pauseCampaign
  | escalate
  deriving DecidableEq

inductive ExecutionMode where
  | auto
  | approval
  | recommend
  | blocked
  deriving DecidableEq

structure Product (F : Type) where
  name : String
  price : F
  cogs : F
  platformFeeRate : F
  guaranteeDays : Int

def Product.contributionMargin {F : Type} [Amounts F] (product : Product F) : F :=
  Amounts.max 0.0 (product.price * (1.0 - product.platformFeeRate) - product.cogs)

structure Thresholds (F : Type) where
  roasCritical : F
  cpaTargetRatio : F
  cpaCriticalRatio : F

structure Guardrails (F : Type) where
  maxDailyBudget : F
  maxNewCampaignsPerRun : Int
  maxBudgetIncreasePct : F
  minAccountBalance : F
  minRoasToScale : F
  maxAutoEmailsPerRun : Int
  refundAutoApproveMax : F
  newCampaignsStartPaused : Bool

structure Settings (F : Type) where
  product : Product F
  thresholds : Thresholds F
  guardrails : Guardrails F
  autonomy : Autonomy
  dryRun : Bool
  metaPixelId : String
  analysisWindowDays : Int

structure Finding (F : Type) where
  code : String
  domain : Domain
  severity : Severity
  title : String
  detail : String
  evidence : List (String × Json F)
  recommendation : String
  impact : F
  effort : F
  confidence : F
  suggestedActions : List String

structure Action (F : Type) where
  id : String
  type : ActionType
  domain : Domain
  title : String
  payload : List (String × Json F)
  rationale : String
  expectedImpact : F
  cost : F
  reversible : Bool
  priority : F
  mode : ExecutionMode
  modeReason : String
  sourceFinding : Option String

inductive Status where
  | done
  | skipped
  | failed
  | pendingApproval
  | rejected
  deriving DecidableEq

-- What the service returned, the result's `output`, is left out.
structure ActionResult where
  actionId : String
  status : Status
  detail : String
  deriving DecidableEq

end Hotmart

end LangGraph

import LangGraph.Collections.Separated
import LangGraph.Store.Filters
import Mathlib.Data.String.Basic
import Mathlib.Algebra.Ring.Int.Defs

namespace LangGraph

open Collections

namespace Store

-- `castInt` and `castText` are SQLite's CASTs to REAL: of an integer, and of a text by its
-- longest numeric prefix.
class SqliteFloats (F : Type) extends Floats F where
  isFinite : F → Bool
  castInt : Int → F
  castText : String → F
  intLt : Int → F → Bool
  ltInt : F → Int → Bool
  castInt_of_ofInt : ∀ (n : Int) (x : F), Floats.ofInt n = some x → castInt n = x
  ordered_of_ofInt : ∀ (n : Int) (x : F), Floats.ofInt n = some x → Floats.eq x x = true
  le_iff : ∀ x y : F, Floats.le x y = (Floats.lt x y || Floats.eq x y)
  unordered : ∀ y : F, Floats.eq y y = false → ∀ (x : F) (n : Int), Floats.lt x y = false ∧
    Floats.lt y x = false ∧ Floats.eq x y = false ∧ Floats.eq y x = false ∧
    Floats.eqInt y n = false

inductive SqlValue (F : Type) where
  | null
  | integer (n : Int)
  | real (x : F)
  | text (s : String)
  | blob (s : String)

inductive Comparison where
  | eq
  | ne
  | gt
  | gte
  | lt
  | lte
  deriving DecidableEq

section Sql

variable {F : Type} [SqliteFloats F]

namespace SqlValue

def isNull : SqlValue F → Bool
  | .null => true
  | _ => false

-- The order of the storage classes.
def storageClass : SqlValue F → Nat
  | .null => 0
  | .integer _ | .real _ => 1
  | .text _ => 2
  | .blob _ => 3

def less : SqlValue F → SqlValue F → Bool
  | .integer m, .integer n => m < n
  | .integer m, .real y => SqliteFloats.intLt m y
  | .real x, .integer n => SqliteFloats.ltInt x n
  | .real x, .real y => Floats.lt x y
  | .text s, .text t => s < t
  | .blob s, .blob t => s < t
  | a, b => a.storageClass < b.storageClass

def same : SqlValue F → SqlValue F → Bool
  | .integer m, .integer n => m = n
  | .integer m, .real y => Floats.eqInt y m
  | .real x, .integer n => Floats.eqInt x n
  | .real x, .real y => Floats.eq x y
  | .text s, .text t => s = t
  | .blob s, .blob t => s = t
  | _, _ => false

def castReal : SqlValue F → SqlValue F
  | .null => .null
  | .integer n => .real (SqliteFloats.castInt n)
  | .real x => .real x
  | .text s => .real (SqliteFloats.castText s)
  | .blob s => .real (SqliteFloats.castText s)

end SqlValue

def Comparison.test (a b : SqlValue F) : Comparison → Bool
  | .eq => a.same b
  | .ne => !a.same b
  | .gt => b.less a
  | .gte => b.less a || b.same a
  | .lt => a.less b
  | .lte => a.less b || a.same b

def SqlValue.compare (cmp : Comparison) (a b : SqlValue F) : Option Bool :=
  if a.isNull || b.isNull then none else some (cmp.test a b)

-- The text of one condition with its parameter.
inductive Condition (F : Type) where
  | isNull (key : String)
  | isNotNull (key : String)
  | compare (key : String) (cmp : Comparison) (param : SqlValue F)
  | castCompare (key : String) (cmp : Comparison) (param : SqlValue F)

namespace Condition

def key : Condition F → String
  | .isNull key | .isNotNull key | .compare key _ _ | .castCompare key _ _ => key

def test (x : SqlValue F) : Condition F → Option Bool
  | .isNull _ => some x.isNull
  | .isNotNull _ => some (!x.isNull)
  | .compare _ cmp param => x.compare cmp param
  | .castCompare _ cmp param => x.castReal.compare cmp param

end Condition

inductive FilterError where
  | invalidKey
  | unsupportedOperator
  | overflow
  | notSerializable
  | badPath
  deriving DecidableEq

end Sql

namespace SqliteStore

variable {F : Type} [SqliteFloats F]

-- `orjson.dumps(value).decode()`.
variable (dumps : Json F → Except FilterError String)

-- What `json_extract` reads from a stored value; of a list or a dict, its JSON text.
def sqlValue : Json F → SqlValue F
  | .null => .null
  | .bool b => .integer (if b then 1 else 0)
  | .int n =>
      if -2 ^ 63 ≤ n ∧ n < 2 ^ 63 then .integer n else .real (SqliteFloats.castInt n)
  | .float x => if SqliteFloats.isFinite x then .real x else .null
  | .str s => .text s
  | .list xs => .text ((dumps (.list xs)).toOption.getD "")
  | .dict items => .text ((dumps (.dict items)).toOption.getD "")

-- A label that is not there gives NULL, as a JSON null does.
def atPath : List String → Json F → Json F
  | [], v => v
  | label :: rest, .dict items => atPath rest (Json.get items label)
  | _ :: _, _ => .null

def path (key : String) : List String := splitText '.' key

def jsonExtract (item : List (String × Json F)) (key : String) : SqlValue F :=
  sqlValue dumps (atPath (path key) (.dict item))

def isFilterChar (c : Char) : Bool := c.isAlphanum || c = '_' || c = '.' || c = '-'

-- The `$` of the pattern also matches before a final newline.
def isFilterKey (key : String) : Bool :=
  let matched :=
    if key.toList.getLast? = some '\n' then key.toList.dropLast else key.toList
  !matched.isEmpty && matched.all isFilterChar

-- SQLite binds a NaN as NULL.
def bindReal (y : F) : SqlValue F := if Floats.eq y y then .real y else .null

def bindFloat (value : Json F) : Except FilterError (SqlValue F) :=
  match value.toFloat with
  | .ok y => .ok (bindReal y)
  | .error _ => .error .overflow

def equality (key : String) (none : Condition F) (cmp : Comparison)
    (compound : String → SqlValue F) (value : Json F) : Except FilterError (Condition F) :=
  match value with
  | .str s => .ok (.compare key cmp (.text s))
  | .null => .ok none
  | .bool b => .ok (.compare key cmp (.integer (if b then 1 else 0)))
  | .int _ | .float _ => (bindFloat value).map (.compare key cmp)
  | .list _ | .dict _ => (dumps value).map (fun text => .compare key cmp (compound text))

def ordering (key : String) (cmp : Comparison) (value : Json F) :
    Except FilterError (Condition F) :=
  match value with
  | .bool _ | .int _ | .float _ => (bindFloat value).map (.castCompare key cmp)
  | .str s => .ok (.compare key cmp (.text s))
  | .null | .list _ | .dict _ => (dumps value).map (fun text => .compare key cmp (.blob text))

def getFilterCondition (key op : String) (value : Json F) : Except FilterError (Condition F) :=
  if !isFilterKey key then .error .invalidKey
  else if op = "$eq" then equality dumps key (.isNull key) .eq .blob value
  else if op = "$gt" then ordering dumps key .gt value
  else if op = "$gte" then ordering dumps key .gte value
  else if op = "$lt" then ordering dumps key .lt value
  else if op = "$lte" then ordering dumps key .lte value
  else if op = "$ne" then equality dumps key (.isNotNull key) .ne .blob value
  else .error .unsupportedOperator

def operatorConditions (key : String) :
    List (String × Json F) → Except FilterError (List (Condition F))
  | [] => .ok []
  | (op, value) :: rest =>
      match getFilterCondition dumps key op value with
      | .error e => .error e
      | .ok c => (operatorConditions key rest).map (c :: ·)

def keyConditions (key : String) (value : Json F) : Except FilterError (List (Condition F)) :=
  if !isFilterKey key then .error .invalidKey
  else
    match value with
    | .dict ops => operatorConditions dumps key ops
    | _ => (equality dumps key (.isNull key) .eq .text value).map (fun c => [c])

-- The filter part of `_prepare_batch_search_queries`.
def filterConditions : List (String × Json F) → Except FilterError (List (Condition F))
  | [] => .ok []
  | (key, value) :: rest =>
      match keyConditions dumps key value with
      | .error e => .error e
      | .ok conditions => (filterConditions rest).map (conditions ++ ·)

def holds (item : List (String × Json F)) (c : Condition F) : Bool :=
  c.test (jsonExtract dumps item c.key) = some true

-- SQLite refuses a path with an empty label.
def selects (filter item : List (String × Json F)) : Except FilterError Bool :=
  match filterConditions dumps filter with
  | .error e => .error e
  | .ok conditions =>
      if conditions.all (fun c => "" ∉ path c.key) then .ok (conditions.all (holds dumps item))
      else .error .badPath

end SqliteStore

end Store

end LangGraph

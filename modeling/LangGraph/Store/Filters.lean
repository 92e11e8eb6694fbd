import LangGraph.Collections.Dict

namespace LangGraph

open Collections

namespace Store

inductive Json (F : Type) where
  | null
  | bool (b : Bool)
  | int (n : Int)
  | float (x : F)
  | str (s : String)
  | list (xs : List (Json F))
  | dict (items : List (String × Json F))

-- What Python's numbers do; `ofInt` overflows and `ofStr` does not parse with `none`.
class Floats (F : Type) where
  ofInt : Int → Option F
  ofStr : String → Option F
  lt : F → F → Bool
  le : F → F → Bool
  eq : F → F → Bool
  eqInt : F → Int → Bool

inductive CompareError where
  | typeError
  | valueError
  | overflowError
  deriving DecidableEq

namespace Json

variable {F : Type}

inductive Number (F : Type) where
  | int (n : Int)
  | float (x : F)

def number? : Json F → Option (Number F)
  | .bool b => some (.int (if b then 1 else 0))
  | .int n => some (.int n)
  | .float x => some (.float x)
  | _ => none

variable [Floats F]

def numbersEqual : Number F → Number F → Bool
  | .int m, .int n => m = n
  | .int m, .float y => Floats.eqInt y m
  | .float x, .int n => Floats.eqInt x n
  | .float x, .float y => Floats.eq x y

mutual

def equal : Json F → Json F → Bool
  | .null, .null => true
  | .str a, .str b => a = b
  | .list xs, .list ys => equalLists xs ys
  | .dict xs, .dict ys => xs.length = ys.length && equalItems xs ys
  | a, b =>
      match a.number?, b.number? with
      | some m, some n => numbersEqual m n
      | _, _ => false
  termination_by structural v => v

def equalLists : List (Json F) → List (Json F) → Bool
  | [], [] => true
  | x :: xs, y :: ys => equal x y && equalLists xs ys
  | _, _ => false
  termination_by structural xs => xs

def equalItems : List (String × Json F) → List (String × Json F) → Bool
  | [], _ => true
  | (k, x) :: xs, ys =>
      (match Dict.lookup k ys with
        | some y => equal x y
        | none => false) && equalItems xs ys
  termination_by structural xs => xs

end

def get (items : List (String × Json F)) (k : String) : Json F := (Dict.lookup k items).getD .null

def toFloat : Json F → Except CompareError F
  | .null | .list _ | .dict _ => .error .typeError
  | .bool b => (Floats.ofInt (if b then 1 else 0)).elim (.error .overflowError) .ok
  | .int n => (Floats.ofInt n).elim (.error .overflowError) .ok
  | .float x => .ok x
  | .str s => (Floats.ofStr s).elim (.error .valueError) .ok

end Json

namespace InMemoryStore

variable {F : Type} [Floats F]

def both (a b : Except CompareError Bool) : Except CompareError Bool :=
  match a with
  | .ok true => b
  | _ => a

def compareFloats (cmp : F → F → Bool) (value opValue : Json F) : Except CompareError Bool :=
  match value.toFloat with
  | .error e => .error e
  | .ok x =>
      match opValue.toFloat with
      | .error e => .error e
      | .ok y => .ok (cmp x y)

def applyOperator (value : Json F) (operator : String) (opValue : Json F) :
    Except CompareError Bool :=
  if operator = "$eq" then .ok (value.equal opValue)
  else if operator = "$gt" then compareFloats (fun x y => Floats.lt y x) value opValue
  else if operator = "$gte" then compareFloats (fun x y => Floats.le y x) value opValue
  else if operator = "$lt" then compareFloats Floats.lt value opValue
  else if operator = "$lte" then compareFloats Floats.le value opValue
  else if operator = "$ne" then .ok (!value.equal opValue)
  else .error .valueError

def applyOperators (value : Json F) : List (String × Json F) → Except CompareError Bool
  | [] => .ok true
  | (operator, opValue) :: rest =>
      both (applyOperator value operator opValue) (applyOperators value rest)

def isOperator (k : String) : Bool := k.toList.head? = some '$'

mutual

def compareValues (itemValue : Json F) : Json F → Except CompareError Bool
  | .dict filters =>
      if filters.any (fun f => isOperator f.1) then applyOperators itemValue filters
      else
        match itemValue with
        | .dict items => compareItems items filters
        | _ => .ok false
  | .list filters =>
      match itemValue with
      | .list items =>
          if items.length = filters.length then compareLists items filters else .ok false
      | _ => .ok false
  | filterValue => .ok (itemValue.equal filterValue)

def compareItems (items : List (String × Json F)) :
    List (String × Json F) → Except CompareError Bool
  | [] => .ok true
  | (k, v) :: rest => both (compareValues (Json.get items k) v) (compareItems items rest)

def compareLists : List (Json F) → List (Json F) → Except CompareError Bool
  | items, f :: filters =>
      match items with
      | x :: items => both (compareValues x f) (compareLists items filters)
      | [] => .ok true
  | _, [] => .ok true

end

end InMemoryStore

end Store

end LangGraph

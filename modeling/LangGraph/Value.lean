import LangGraph.Constants
import Mathlib.Data.Finset.Basic

namespace LangGraph

inductive Scalar where
  | none
  | bool (b : Bool)
  | int (n : Int)
  | str (s : String)
  | obj (id : Nat)
  deriving DecidableEq, Repr

-- `obj` stands for any object the loop never looks into.
inductive Value where
  | scalar (s : Scalar)
  | list (xs : List Value)
  | dict (items : List (String × Value))
  | send (node : String) (arg : Value)
  | overwrite (value : Value)
  deriving Repr

namespace Value

def none : Value := .scalar .none
def int (n : Int) : Value := .scalar (.int n)
def str (s : String) : Value := .scalar (.str s)

instance : Inhabited Value := ⟨Value.none⟩

mutual

def eqDec : (v w : Value) → Decidable (v = w)
  | .scalar a, .scalar b => decidable_of_iff (a = b) (by simp)
  | .list xs, .list ys =>
      match eqDecList xs ys with
      | isTrue h => isTrue (by rw [h])
      | isFalse h => isFalse (by simpa using h)
  | .dict xs, .dict ys =>
      match eqDecItems xs ys with
      | isTrue h => isTrue (by rw [h])
      | isFalse h => isFalse (by simpa using h)
  | .send n a, .send m b =>
      match decEq n m, eqDec a b with
      | isTrue h, isTrue h' => isTrue (by rw [h, h'])
      | isFalse h, _ => isFalse (fun e => h (Value.send.inj e).1)
      | _, isFalse h => isFalse (fun e => h (Value.send.inj e).2)
  | .overwrite a, .overwrite b =>
      match eqDec a b with
      | isTrue h => isTrue (by rw [h])
      | isFalse h => isFalse (by simpa using h)
  | .scalar _, .list _ | .scalar _, .dict _ | .scalar _, .send _ _ | .scalar _, .overwrite _
  | .list _, .scalar _ | .list _, .dict _ | .list _, .send _ _ | .list _, .overwrite _
  | .dict _, .scalar _ | .dict _, .list _ | .dict _, .send _ _ | .dict _, .overwrite _
  | .send _ _, .scalar _ | .send _ _, .list _ | .send _ _, .dict _ | .send _ _, .overwrite _
  | .overwrite _, .scalar _ | .overwrite _, .list _ | .overwrite _, .dict _
  | .overwrite _, .send _ _ => isFalse (by simp)

def eqDecList : (xs ys : List Value) → Decidable (xs = ys)
  | [], [] => isTrue rfl
  | [], _ :: _ => isFalse (by simp)
  | _ :: _, [] => isFalse (by simp)
  | x :: xs, y :: ys =>
      match eqDec x y, eqDecList xs ys with
      | isTrue h, isTrue h' => isTrue (by rw [h, h'])
      | isFalse h, _ => isFalse (fun e => h (List.cons.inj e).1)
      | _, isFalse h => isFalse (fun e => h (List.cons.inj e).2)

def eqDecItems : (xs ys : List (String × Value)) → Decidable (xs = ys)
  | [], [] => isTrue rfl
  | [], _ :: _ => isFalse (by simp)
  | _ :: _, [] => isFalse (by simp)
  | (k, x) :: xs, (l, y) :: ys =>
      match decEq k l, eqDec x y, eqDecItems xs ys with
      | isTrue h, isTrue h', isTrue h'' => isTrue (by rw [h, h', h''])
      | isFalse h, _, _ => isFalse (fun e => h (Prod.mk.inj (List.cons.inj e).1).1)
      | _, isFalse h, _ => isFalse (fun e => h (Prod.mk.inj (List.cons.inj e).1).2)
      | _, _, isFalse h => isFalse (fun e => h (List.cons.inj e).2)

end

instance : DecidableEq Value := eqDec

def item? (items : List (String × Value)) (k : String) : Option Value :=
  (items.find? (fun i => i.1 = k)).map Prod.snd

-- `_get_overwrite`: the dataclass, the `{"__overwrite__": v}` dict and the JSON-erased dict.
def getOverwrite : Value → Option Value
  | .overwrite v => some v
  | .dict items =>
      if items.length = 1 ∧ (item? items Key.overwrite).isSome then item? items Key.overwrite
      else if item? items "type" = some (str Key.overwrite) then item? items "value"
      else Option.none
  | _ => Option.none

def isNone (v : Value) : Bool := v = Value.none

end Value

abbrev Write := String × Value

structure PendingWrite where
  taskId : String
  channel : String
  value : Value
  deriving DecidableEq, Repr

def PendingWrite.write (w : PendingWrite) : Write := (w.channel, w.value)

example : Value.getOverwrite (.dict [("value", .int 3), ("type", .str "__overwrite__")]) =
    some (.int 3) := by decide

end LangGraph

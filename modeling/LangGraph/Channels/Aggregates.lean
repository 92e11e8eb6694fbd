import LangGraph.Channels.Base

namespace LangGraph

structure BinaryOperatorAggregate where
  operator : Value → Value → Except UpdateError Value
  typ : Option Value
  value : Option Value
  typ_some : typ.isSome = true → value.isSome = true

namespace BinaryOperatorAggregate

def checkpoint (c : BinaryOperatorAggregate) : Option Blob := c.value.map .value

def withValue (c : BinaryOperatorAggregate) (v : Value) : BinaryOperatorAggregate :=
  ⟨c.operator, c.typ, some v, fun _ => rfl⟩

def fromCheckpoint (c : BinaryOperatorAggregate) : Option Blob → BinaryOperatorAggregate
  | some (.value v) => c.withValue v
  | _ => ⟨c.operator, c.typ, c.typ, id⟩

def fold (c : BinaryOperatorAggregate) (cur : Value) (seenOverwrite : Bool) :
    List Value → BinaryOperatorAggregate × Except UpdateError Bool
  | [] => (c.withValue cur, .ok true)
  | v :: vs =>
      match v.getOverwrite with
      | some w =>
          if seenOverwrite then (c.withValue cur, .error .onlyOneOverwrite)
          else fold c w true vs
      | none =>
          if seenOverwrite then fold c cur true vs
          else match c.operator cur v with
            | .ok w => fold c w false vs
            | .error e => (c.withValue cur, .error e)

def update (c : BinaryOperatorAggregate) (values : List Value) :
    BinaryOperatorAggregate × Except UpdateError Bool :=
  match values with
  | [] => (c, .ok false)
  | v :: vs =>
      match c.value with
      | none => c.fold v false vs
      | some cur => c.fold cur false (v :: vs)

theorem fold_ne_false (c : BinaryOperatorAggregate) (cur : Value) (b : Bool) (vs : List Value) :
    (c.fold cur b vs).2 ≠ .ok false := by
  induction vs generalizing cur b with
  | nil => simp [fold]
  | cons v vs ih =>
    simp only [fold]
    split
    · split
      · simp
      · exact ih _ _
    · split
      · exact ih _ _
      · split
        · exact ih _ _
        · simp

theorem fold_withValue (c : BinaryOperatorAggregate) (cur : Value) (b : Bool) (vs : List Value) :
    ∃ v, (c.fold cur b vs).1 = c.withValue v := by
  induction vs generalizing cur b with
  | nil => exact ⟨cur, rfl⟩
  | cons v vs ih =>
    simp only [fold]
    split
    · split
      · exact ⟨cur, rfl⟩
      · exact ih _ _
    · split
      · exact ih _ _
      · split
        · exact ih _ _
        · exact ⟨cur, rfl⟩

theorem update_withValue (c : BinaryOperatorAggregate) {vs : List Value} (h : vs ≠ []) :
    ∃ v, (c.update vs).1 = c.withValue v := by
  cases vs with
  | nil => exact absurd rfl h
  | cons v vs =>
    simp only [update]
    split
    · exact c.fold_withValue _ _ _
    · exact c.fold_withValue _ _ _

theorem update_false {c : BinaryOperatorAggregate} {vs : List Value}
    (h : (c.update vs).2 = .ok false) : (c.update vs).1 = c := by
  cases vs with
  | nil => rfl
  | cons v vs =>
    simp only [update] at h
    split at h
    · exact absurd h (c.fold_ne_false _ _ _)
    · exact absurd h (c.fold_ne_false _ _ _)

theorem fromCheckpoint_withValue (c : BinaryOperatorAggregate) (v : Value) (b : Option Blob) :
    (c.withValue v).fromCheckpoint b = c.fromCheckpoint b := by
  rcases b with _ | _ | _ <;> rfl

theorem fromCheckpoint_update (c : BinaryOperatorAggregate) (vs : List Value) (b : Option Blob) :
    (c.update vs).1.fromCheckpoint b = c.fromCheckpoint b := by
  cases vs with
  | nil => rfl
  | cons v vs =>
    obtain ⟨w, hw⟩ := c.update_withValue (List.cons_ne_nil v vs)
    rw [hw, fromCheckpoint_withValue]

theorem fromCheckpoint_checkpoint (c : BinaryOperatorAggregate) :
    c.fromCheckpoint c.checkpoint = c := by
  obtain ⟨op, typ, _ | v, ht⟩ := c
  · cases typ with
    | none => rfl
    | some t => exact absurd (ht rfl) (by decide)
  · rfl

end BinaryOperatorAggregate

structure DeltaChannel where
  reducer : Value → List Value → Except UpdateError Value
  typ : Value
  snapshotFrequency : Nat
  positive : 0 < snapshotFrequency
  value : Option Value

namespace DeltaChannel

def fromCheckpoint (c : DeltaChannel) : Option Blob → DeltaChannel
  | some (.deltaSnapshot v) => { c with value := some v }
  | some (.value v) => { c with value := some v }
  | _ => { c with value := some c.typ }

def overwritten (c : DeltaChannel) (v : Value) : Value := if v.isNone then c.typ else v

def update (c : DeltaChannel) (values : List Value) : DeltaChannel × Except UpdateError Bool :=
  match values with
  | [] => (c, .ok false)
  | _ =>
      match values.filterMap Value.getOverwrite with
      | _ :: _ :: _ => (c, .error .onlyOneOverwrite)
      | [w] => ({ c with value := some (c.overwritten w) }, .ok true)
      | [] =>
          match c.reducer (c.value.getD c.typ) values with
          | .ok v => ({ c with value := some v }, .ok true)
          | .error e => (c, .error e)

def resetPoint (c : DeltaChannel) : Value → List Value → List Value → Value × List Value
  | base, remaining, [] => (base, remaining)
  | base, remaining, v :: vs =>
      match v.getOverwrite with
      | some w => c.resetPoint (c.overwritten w) [] vs
      | none => c.resetPoint base (remaining ++ [v]) vs

def replayWrites (c : DeltaChannel) (values : List Value) : Except UpdateError DeltaChannel :=
  let r := c.resetPoint (c.value.getD c.typ) [] values
  if values = [] then .ok c
  else if r.2 = [] then .ok { c with value := some r.1 }
  else (c.reducer r.1 r.2).map (fun v => { c with value := some v })

theorem update_false {c : DeltaChannel} {vs : List Value} (h : (c.update vs).2 = .ok false) :
    (c.update vs).1 = c := by
  cases vs with
  | nil => rfl
  | cons v vs =>
    simp only [update] at h
    split at h
    · cases h
    · cases h
    · split at h <;> cases h

theorem fromCheckpoint_value (c : DeltaChannel) (v : Option Value) (b : Option Blob) :
    ({ c with value := v } : DeltaChannel).fromCheckpoint b = c.fromCheckpoint b := by
  rcases b with _ | _ | _ <;> rfl

theorem fromCheckpoint_update (c : DeltaChannel) (vs : List Value) (b : Option Blob) :
    (c.update vs).1.fromCheckpoint b = c.fromCheckpoint b := by
  unfold update
  split
  · rfl
  · split
    · rfl
    · exact c.fromCheckpoint_value _ b
    · split
      · exact c.fromCheckpoint_value _ b
      · rfl

end DeltaChannel

end LangGraph

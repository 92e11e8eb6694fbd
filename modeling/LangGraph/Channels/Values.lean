import LangGraph.Channels.Base

namespace LangGraph

structure LastValue where
  key : String
  value : Option Value

namespace LastValue

def checkpoint (c : LastValue) : Option Blob := c.value.map .value

def fromCheckpoint (c : LastValue) : Option Blob → LastValue
  | some (.value v) => { c with value := some v }
  | _ => { c with value := none }

def update (c : LastValue) (values : List Value) : LastValue × Except UpdateError Bool :=
  match values with
  | [] => (c, .ok false)
  | [v] => ({ c with value := some v }, .ok true)
  | _ => (c, .error (.onlyOneValue c.key))

theorem update_false {c : LastValue} {vs : List Value} (h : (c.update vs).2 = .ok false) :
    (c.update vs).1 = c := by
  match vs with
  | [] => rfl
  | [_] => cases h
  | _ :: _ :: _ => cases h

theorem fromCheckpoint_update (c : LastValue) (vs : List Value) (b : Option Blob) :
    (c.update vs).1.fromCheckpoint b = c.fromCheckpoint b := by
  match vs with
  | [] => rfl
  | [_] => rcases b with _ | _ | _ <;> rfl
  | _ :: _ :: _ => rfl

theorem fromCheckpoint_checkpoint (c : LastValue) : c.fromCheckpoint c.checkpoint = c := by
  obtain ⟨key, _ | v⟩ := c
  · rfl
  · rfl

end LastValue

structure LastValueAfterFinish where
  key : String
  value : Option Value
  finished : Bool
  finished_some : finished = true → value.isSome = true

namespace LastValueAfterFinish

def checkpoint (c : LastValueAfterFinish) : Option Blob :=
  c.value.map (fun v => .finished v c.finished)

def fromCheckpoint (c : LastValueAfterFinish) : Option Blob → LastValueAfterFinish
  | some (.finished v b) => ⟨c.key, some v, b, fun _ => rfl⟩
  | _ => ⟨c.key, none, false, nofun⟩

def isAvailable (c : LastValueAfterFinish) : Bool := c.value.isSome && c.finished

def get (c : LastValueAfterFinish) : Option Value := if c.finished then c.value else none

def update (c : LastValueAfterFinish) (values : List Value) :
    LastValueAfterFinish × Except UpdateError Bool :=
  match values.getLast? with
  | none => (c, .ok false)
  | some v => (⟨c.key, some v, false, fun _ => rfl⟩, .ok true)

def consume (c : LastValueAfterFinish) : LastValueAfterFinish × Bool :=
  if c.finished then (⟨c.key, none, false, nofun⟩, true) else (c, false)

def finish (c : LastValueAfterFinish) : LastValueAfterFinish × Bool :=
  if h : c.finished = false ∧ c.value.isSome = true then
    (⟨c.key, c.value, true, fun _ => h.2⟩, true)
  else (c, false)

theorem update_false {c : LastValueAfterFinish} {vs : List Value}
    (h : (c.update vs).2 = .ok false) : (c.update vs).1 = c := by
  unfold update at h ⊢
  cases hv : vs.getLast? with
  | none => rfl
  | some v => simp [hv] at h

theorem consume_false {c : LastValueAfterFinish} (h : c.consume.2 = false) : c.consume.1 = c := by
  unfold consume at h ⊢
  cases hf : c.finished with
  | true => simp [hf] at h
  | false => rfl

theorem finish_false {c : LastValueAfterFinish} (h : c.finish.2 = false) : c.finish.1 = c := by
  unfold finish at h ⊢
  split at h
  · cases h
  · rename_i hn
    rw [dif_neg hn]

theorem fromCheckpoint_update (c : LastValueAfterFinish) (vs : List Value) (b : Option Blob) :
    (c.update vs).1.fromCheckpoint b = c.fromCheckpoint b := by
  unfold update
  cases vs.getLast? with
  | none => rfl
  | some v => rcases b with _ | _ | _ <;> rfl

theorem fromCheckpoint_consume (c : LastValueAfterFinish) (b : Option Blob) :
    c.consume.1.fromCheckpoint b = c.fromCheckpoint b := by
  unfold consume
  split
  · rcases b with _ | _ | _ <;> rfl
  · rfl

theorem fromCheckpoint_finish (c : LastValueAfterFinish) (b : Option Blob) :
    c.finish.1.fromCheckpoint b = c.fromCheckpoint b := by
  unfold finish
  split
  · rcases b with _ | _ | _ <;> rfl
  · rfl

theorem fromCheckpoint_checkpoint (c : LastValueAfterFinish) :
    c.fromCheckpoint c.checkpoint = c := by
  obtain ⟨key, _ | v, finished, hf⟩ := c
  · cases finished
    · rfl
    · exact absurd (hf rfl) (by decide)
  · rfl

end LastValueAfterFinish

structure AnyValue where
  value : Option Value

namespace AnyValue

def checkpoint (c : AnyValue) : Option Blob := c.value.map .value

def fromCheckpoint : Option Blob → AnyValue
  | some (.value v) => ⟨some v⟩
  | _ => ⟨none⟩

def update (c : AnyValue) (values : List Value) : AnyValue × Except UpdateError Bool :=
  match values.getLast? with
  | none => if c.value.isSome then (⟨none⟩, .ok true) else (c, .ok false)
  | some v => (⟨some v⟩, .ok true)

theorem update_false {c : AnyValue} {vs : List Value} (h : (c.update vs).2 = .ok false) :
    (c.update vs).1 = c := by
  unfold update at h ⊢
  cases hv : vs.getLast? with
  | some v => simp [hv] at h
  | none =>
    cases hc : c.value with
    | none => simp
    | some w => simp [hv, hc] at h

theorem fromCheckpoint_checkpoint (c : AnyValue) : fromCheckpoint c.checkpoint = c := by
  obtain ⟨_ | v⟩ := c
  · rfl
  · rfl

end AnyValue

structure EphemeralValue where
  key : String
  guard : Bool
  value : Option Value

namespace EphemeralValue

def checkpoint (c : EphemeralValue) : Option Blob := c.value.map .value

def fromCheckpoint (c : EphemeralValue) : Option Blob → EphemeralValue
  | some (.value v) => { c with value := some v }
  | _ => { c with value := none }

def update (c : EphemeralValue) (values : List Value) : EphemeralValue × Except UpdateError Bool :=
  match values.getLast? with
  | none => if c.value.isSome then ({ c with value := none }, .ok true) else (c, .ok false)
  | some v =>
      if values.length ≠ 1 ∧ c.guard = true then (c, .error (.ephemeralGuard c.key))
      else ({ c with value := some v }, .ok true)

theorem update_false {c : EphemeralValue} {vs : List Value} (h : (c.update vs).2 = .ok false) :
    (c.update vs).1 = c := by
  unfold update at h ⊢
  cases hv : vs.getLast? with
  | some v =>
    simp only [hv] at h
    split at h <;> cases h
  | none =>
    cases hc : c.value with
    | none => simp
    | some w => simp [hv, hc] at h

theorem fromCheckpoint_update (c : EphemeralValue) (vs : List Value) (b : Option Blob) :
    (c.update vs).1.fromCheckpoint b = c.fromCheckpoint b := by
  unfold update
  split
  · split
    · rcases b with _ | _ | _ <;> rfl
    · rfl
  · split
    · rfl
    · rcases b with _ | _ | _ <;> rfl

theorem fromCheckpoint_checkpoint (c : EphemeralValue) : c.fromCheckpoint c.checkpoint = c := by
  obtain ⟨key, guard, _ | v⟩ := c
  · rfl
  · rfl

theorem value_update {c : EphemeralValue} {vs : List Value} {v : Value}
    (h : (c.update vs).1.value = some v) : c.value = some v ∨ v ∈ vs := by
  unfold update at h
  cases hl : vs.getLast? with
  | none =>
    simp only [hl] at h
    cases hc : c.value with
    | none => simp [hc] at h
    | some w => simp [hc] at h
  | some w =>
    simp only [hl] at h
    have hmem : w ∈ vs := List.mem_of_getLast? hl
    split at h
    · exact Or.inl h
    · exact Or.inr (Option.some.inj h ▸ hmem)

end EphemeralValue

structure UntrackedValue where
  key : String
  guard : Bool
  value : Option Value

namespace UntrackedValue

def checkpoint (_ : UntrackedValue) : Option Blob := none

def fromCheckpoint (c : UntrackedValue) (_ : Option Blob) : UntrackedValue :=
  { c with value := none }

def update (c : UntrackedValue) (values : List Value) : UntrackedValue × Except UpdateError Bool :=
  match values.getLast? with
  | none => (c, .ok false)
  | some v =>
      if values.length ≠ 1 ∧ c.guard = true then (c, .error (.untrackedGuard c.key))
      else ({ c with value := some v }, .ok true)

theorem update_false {c : UntrackedValue} {vs : List Value} (h : (c.update vs).2 = .ok false) :
    (c.update vs).1 = c := by
  unfold update at h ⊢
  cases hv : vs.getLast? with
  | none => rfl
  | some v =>
    simp only [hv] at h
    split at h <;> cases h

theorem fromCheckpoint_update (c : UntrackedValue) (vs : List Value) (b : Option Blob) :
    (c.update vs).1.fromCheckpoint b = c.fromCheckpoint b := by
  unfold update
  split
  · rfl
  · split
    · rfl
    · rfl

end UntrackedValue

end LangGraph

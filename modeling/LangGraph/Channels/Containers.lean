import LangGraph.Channels.Base

namespace LangGraph

def flatten : List Value → List Value
  | [] => []
  | .list xs :: rest => xs ++ flatten rest
  | v :: rest => v :: flatten rest

theorem flatten_append (xs ys : List Value) : flatten (xs ++ ys) = flatten xs ++ flatten ys := by
  induction xs with
  | nil => rfl
  | cons x xs ih => cases x <;> simp [flatten, ih]

theorem mem_flatten {v : Value} {vs : List Value} (h : v ∈ flatten vs) :
    ∃ x ∈ vs, v ∈ flatten [x] := by
  induction vs with
  | nil => cases h
  | cons x vs ih =>
    have happ : flatten (x :: vs) = flatten [x] ++ flatten vs := flatten_append [x] vs
    rw [happ, List.mem_append] at h
    rcases h with h | h
    · exact ⟨x, List.mem_cons_self, h⟩
    · obtain ⟨y, hy, hv⟩ := ih h
      exact ⟨y, List.mem_cons_of_mem x hy, hv⟩

structure Topic where
  accumulate : Bool
  values : List Value

namespace Topic

def checkpoint (c : Topic) : Option Blob := some (.values c.values)

def fromCheckpoint (c : Topic) : Option Blob → Topic
  | some (.values vs) => { c with values := vs }
  | some (.legacyValues vs) => { c with values := vs }
  | _ => { c with values := [] }

def get (c : Topic) : Option Value := if c.values = [] then none else some (.list c.values)

def isAvailable (c : Topic) : Bool := !c.values.isEmpty

def update (c : Topic) (values : List Value) : Topic × Except UpdateError Bool :=
  let updated := !c.accumulate && !c.values.isEmpty
  let kept := if c.accumulate then c.values else []
  match flatten values with
  | [] => ({ c with values := kept }, .ok updated)
  | flat => ({ c with values := kept ++ flat }, .ok true)

theorem update_false {c : Topic} {vs : List Value} (h : (c.update vs).2 = .ok false) :
    (c.update vs).1 = c := by
  obtain ⟨acc, values⟩ := c
  unfold update at h ⊢
  cases hf : flatten vs with
  | nil => cases acc <;> cases values <;> simp_all
  | cons v flat => simp [hf] at h

theorem fromCheckpoint_update (c : Topic) (vs : List Value) (b : Option Blob) :
    (c.update vs).1.fromCheckpoint b = c.fromCheckpoint b := by
  unfold update
  cases flatten vs with
  | nil => rcases b with _ | _ | _ <;> rfl
  | cons v flat => rcases b with _ | _ | _ <;> rfl

def kept (c : Topic) : List Value := if c.accumulate then c.values else []

theorem update_fst (c : Topic) (vs : List Value) :
    (c.update vs).1 = { c with values := c.kept ++ flatten vs } := by
  unfold update
  cases hf : flatten vs with
  | nil => simp [kept]
  | cons v flat => rfl

theorem update_snd (c : Topic) (vs : List Value) :
    (c.update vs).2 = .ok (!(flatten vs).isEmpty || (!c.accumulate && !c.values.isEmpty)) := by
  unfold update
  cases hf : flatten vs with
  | nil => simp
  | cons v flat => rfl

theorem mem_update {c : Topic} {vs : List Value} {v : Value}
    (h : v ∈ (c.update vs).1.values) : v ∈ c.values ∨ v ∈ flatten vs := by
  have hkept : v ∈ (if c.accumulate then c.values else []) → v ∈ c.values := by
    split
    · exact id
    · intro hv
      cases hv
  simp only [update] at h
  cases hf : flatten vs with
  | nil =>
    rw [hf] at h
    exact Or.inl (hkept h)
  | cons x flat =>
    rw [hf] at h
    rcases List.mem_append.mp h with h | h
    · exact Or.inl (hkept h)
    · exact Or.inr h

end Topic

def addNames (key : String) (names : Finset Value) :
    List Value → Finset Value → Bool → Finset Value × Except UpdateError Bool
  | [], seen, updated => (seen, .ok updated)
  | v :: vs, seen, updated =>
      if v ∈ names then
        if v ∈ seen then addNames key names vs seen updated
        else addNames key names vs (insert v seen) true
      else (seen, .error (.notInNames key v names))

theorem addNames_true {key : String} {names : Finset Value} {vs : List Value}
    {seen : Finset Value} {r : Bool} (h : (addNames key names vs seen true).2 = .ok r) :
    r = true := by
  induction vs generalizing seen with
  | nil => exact (Except.ok.inj h).symm
  | cons v vs ih =>
    simp only [addNames] at h
    split at h
    · split at h
      · exact ih h
      · exact ih h
    · cases h

theorem addNames_false {key : String} {names : Finset Value} {vs : List Value}
    {seen : Finset Value} {b : Bool} (h : (addNames key names vs seen b).2 = .ok false) :
    (addNames key names vs seen b).1 = seen := by
  induction vs generalizing b with
  | nil => rfl
  | cons v vs ih =>
    simp only [addNames] at h ⊢
    split at h
    · rename_i hn
      rw [if_pos hn]
      split at h
      · rename_i hs
        rw [if_pos hs]
        exact ih h
      · exact absurd (addNames_true h) (by decide)
    · cases h

structure NamedBarrierValue where
  key : String
  names : Finset Value
  seen : Finset Value

namespace NamedBarrierValue

def checkpoint (c : NamedBarrierValue) : Option Blob := some (.seen c.seen)

def fromCheckpoint (c : NamedBarrierValue) : Option Blob → NamedBarrierValue
  | some (.seen s) => { c with seen := s }
  | _ => { c with seen := ∅ }

def isAvailable (c : NamedBarrierValue) : Bool := c.seen = c.names

def get (c : NamedBarrierValue) : Option Value := if c.isAvailable then some Value.none else none

def update (c : NamedBarrierValue) (values : List Value) :
    NamedBarrierValue × Except UpdateError Bool :=
  let r := addNames c.key c.names values c.seen false
  ({ c with seen := r.1 }, r.2)

def consume (c : NamedBarrierValue) : NamedBarrierValue × Bool :=
  if c.isAvailable then ({ c with seen := ∅ }, true) else (c, false)

theorem update_false {c : NamedBarrierValue} {vs : List Value}
    (h : (c.update vs).2 = .ok false) : (c.update vs).1 = c := by
  simp only [update] at h ⊢
  rw [addNames_false h]

theorem consume_false {c : NamedBarrierValue} (h : c.consume.2 = false) : c.consume.1 = c := by
  unfold consume at h ⊢
  cases ha : c.isAvailable with
  | true => simp [ha] at h
  | false => rfl

theorem fromCheckpoint_seen (c : NamedBarrierValue) (seen : Finset Value) (b : Option Blob) :
    ({ c with seen := seen } : NamedBarrierValue).fromCheckpoint b = c.fromCheckpoint b := by
  rcases b with _ | _ | _ <;> rfl

theorem fromCheckpoint_consume (c : NamedBarrierValue) (b : Option Blob) :
    c.consume.1.fromCheckpoint b = c.fromCheckpoint b := by
  unfold consume
  split
  · exact c.fromCheckpoint_seen ∅ b
  · rfl

end NamedBarrierValue

structure NamedBarrierValueAfterFinish where
  key : String
  names : Finset Value
  seen : Finset Value
  finished : Bool

namespace NamedBarrierValueAfterFinish

def checkpoint (c : NamedBarrierValueAfterFinish) : Option Blob :=
  some (.seenFinished c.seen c.finished)

def fromCheckpoint (c : NamedBarrierValueAfterFinish) :
    Option Blob → NamedBarrierValueAfterFinish
  | some (.seenFinished s b) => { c with seen := s, finished := b }
  | _ => { c with seen := ∅, finished := false }

def isAvailable (c : NamedBarrierValueAfterFinish) : Bool := c.finished && c.seen = c.names

def get (c : NamedBarrierValueAfterFinish) : Option Value :=
  if c.isAvailable then some Value.none else none

def update (c : NamedBarrierValueAfterFinish) (values : List Value) :
    NamedBarrierValueAfterFinish × Except UpdateError Bool :=
  let r := addNames c.key c.names values c.seen false
  ({ c with seen := r.1 }, r.2)

def consume (c : NamedBarrierValueAfterFinish) : NamedBarrierValueAfterFinish × Bool :=
  if c.isAvailable then ({ c with seen := ∅, finished := false }, true) else (c, false)

def finish (c : NamedBarrierValueAfterFinish) : NamedBarrierValueAfterFinish × Bool :=
  if !c.finished && decide (c.seen = c.names) then ({ c with finished := true }, true)
  else (c, false)

theorem update_false {c : NamedBarrierValueAfterFinish} {vs : List Value}
    (h : (c.update vs).2 = .ok false) : (c.update vs).1 = c := by
  simp only [update] at h ⊢
  rw [addNames_false h]

theorem consume_false {c : NamedBarrierValueAfterFinish} (h : c.consume.2 = false) :
    c.consume.1 = c := by
  unfold consume at h ⊢
  cases ha : c.isAvailable with
  | true => simp [ha] at h
  | false => rfl

theorem finish_false {c : NamedBarrierValueAfterFinish} (h : c.finish.2 = false) :
    c.finish.1 = c := by
  unfold finish at h ⊢
  split at h
  · cases h
  · rename_i hn
    rw [if_neg hn]

theorem fromCheckpoint_state (c : NamedBarrierValueAfterFinish) (seen : Finset Value)
    (finished : Bool) (b : Option Blob) :
    ({ c with seen := seen, finished := finished } : NamedBarrierValueAfterFinish).fromCheckpoint b =
      c.fromCheckpoint b := by
  rcases b with _ | _ | _ <;> rfl

theorem fromCheckpoint_consume (c : NamedBarrierValueAfterFinish) (b : Option Blob) :
    c.consume.1.fromCheckpoint b = c.fromCheckpoint b := by
  unfold consume
  split
  · exact c.fromCheckpoint_state ∅ false b
  · rfl

theorem fromCheckpoint_finish (c : NamedBarrierValueAfterFinish) (b : Option Blob) :
    c.finish.1.fromCheckpoint b = c.fromCheckpoint b := by
  unfold finish
  split
  · exact c.fromCheckpoint_state c.seen true b
  · rfl

end NamedBarrierValueAfterFinish

end LangGraph

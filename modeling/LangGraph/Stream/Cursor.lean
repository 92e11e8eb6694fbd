import Mathlib.Data.List.Basic

namespace LangGraph

namespace Stream

variable {α ε : Type}

-- A channel with what it buffers, each item under its push stamp.
structure ItemChannel (α ε : Type) where
  items : List (Nat × α)
  subscribed : Bool
  closed : Bool
  error : Option ε

namespace ItemChannel

def init : ItemChannel α ε := ⟨[], false, false, none⟩

-- A push to a closed channel raises in the producer and leaves the channel as it is.
def push (stamp : Nat) (item : α) (ch : ItemChannel α ε) : ItemChannel α ε :=
  if ch.subscribed && !ch.closed then { ch with items := ch.items ++ [(stamp, item)] } else ch

def close (ch : ItemChannel α ε) : ItemChannel α ε := { ch with closed := true }

def fail (err : ε) (ch : ItemChannel α ε) : ItemChannel α ε :=
  { ch with error := some err, closed := true }

end ItemChannel

inductive ChannelOp (α ε : Type) where
  | push (stamp : Nat) (item : α)
  | close
  | fail (err : ε)

def ItemChannel.apply (ch : ItemChannel α ε) : ChannelOp α ε → ItemChannel α ε
  | .push stamp item => ch.push stamp item
  | .close => ch.close
  | .fail err => ch.fail err

-- What one call of the pump does to the channel, and its answer.
structure PumpCall (α ε : Type) where
  ops : List (ChannelOp α ε)
  more : Bool

def PumpCall.on (call : PumpCall α ε) (ch : ItemChannel α ε) : ItemChannel α ε :=
  call.ops.foldl ItemChannel.apply ch

-- The pump answers False and has brought nothing.
def PumpCall.stops (call : PumpCall α ε) (ch : ItemChannel α ε) : Bool :=
  !call.more && (call.on ch).items.isEmpty && !(call.on ch).closed

inductive Pulled (α ε : Type) where
  | item (a : α)
  | stop
  | raised (err : ε)
  deriving DecidableEq

def Pulled.ended : Option ε → Pulled α ε
  | some err => .raised err
  | none => .stop

-- The body of a cursor up to its next `yield`; the pump answers False once its calls are over.
def cursorNext (ch : ItemChannel α ε) :
    List (PumpCall α ε) → Pulled α ε × ItemChannel α ε × List (PumpCall α ε)
  | [] =>
      match ch.items with
      | (_, item) :: items => (.item item, { ch with items := items }, [])
      | [] => if ch.closed then (.ended ch.error, ch, []) else (.stop, ch, [])
  | call :: calls =>
      match ch.items with
      | (_, item) :: items => (.item item, { ch with items := items }, call :: calls)
      | [] =>
          if ch.closed then (.ended ch.error, ch, call :: calls)
          else if call.stops ch then (.stop, call.on ch, calls)
          else cursorNext (call.on ch) calls

-- `_sync_cursor` and `_async_cursor`: a generator that has returned or raised only stops.
structure Cursor (α ε : Type) where
  channel : ItemChannel α ε
  calls : List (PumpCall α ε)
  finished : Bool

namespace Cursor

def next (c : Cursor α ε) : Pulled α ε × Cursor α ε :=
  if c.finished then (.stop, c)
  else
    match cursorNext c.channel c.calls with
    | (.item item, channel, calls) => (.item item, ⟨channel, calls, false⟩)
    | (ended, channel, calls) => (ended, ⟨channel, calls, true⟩)

-- What a single consumer gets.
def pulls : Nat → Cursor α ε → List (Pulled α ε)
  | 0, _ => []
  | k + 1, c => c.next.1 :: pulls k c.next.2

end Cursor

section Ahead

def ItemChannel.drained (ch : ItemChannel α ε) : ItemChannel α ε := { ch with items := [] }

-- The items a channel and its pump still give, and the error they end with.
def ahead (ch : ItemChannel α ε) : List (PumpCall α ε) → List α × Option ε
  | [] => (ch.items.map Prod.snd, if ch.closed then ch.error else none)
  | call :: calls =>
      if ch.closed then (ch.items.map Prod.snd, ch.error)
      else if call.stops ch.drained then (ch.items.map Prod.snd, none)
      else
        (ch.items.map Prod.snd ++ (ahead (call.on ch.drained) calls).1,
          (ahead (call.on ch.drained) calls).2)

def Cursor.ahead (c : Cursor α ε) : List α × Option ε :=
  if c.finished then ([], none) else Stream.ahead c.channel c.calls

variable {ch : ItemChannel α ε} {calls : List (PumpCall α ε)}

theorem drained_of_empty (h : ch.items = []) : ch.drained = ch := by
  unfold ItemChannel.drained
  rw [← h]

theorem ahead_cons {stamp : Nat} {item : α} {items : List (Nat × α)}
    (h : ch.items = (stamp, item) :: items) (calls : List (PumpCall α ε)) :
    ahead ch calls = (item :: (ahead { ch with items := items } calls).1,
      (ahead { ch with items := items } calls).2) := by
  cases calls with
  | nil => simp only [ahead, h, List.map_cons]
  | cons call calls =>
    have hdrained : ({ ch with items := items } : ItemChannel α ε).drained = ch.drained := rfl
    simp only [ahead, h, List.map_cons, hdrained]
    split
    · rfl
    · split
      · rfl
      · rfl

theorem cursorNext_ahead (ch : ItemChannel α ε) (calls : List (PumpCall α ε)) :
    match cursorNext ch calls with
    | (.item item, ch', calls') =>
        ahead ch calls = (item :: (ahead ch' calls').1, (ahead ch' calls').2)
    | (ended, _, _) => ∃ err, ahead ch calls = ([], err) ∧ ended = .ended err := by
  induction calls generalizing ch with
  | nil =>
    unfold cursorNext
    cases hitems : ch.items with
    | nil =>
      cases hclosed : ch.closed with
      | true =>
        cases herror : ch.error with
        | none => exact ⟨none, by simp [ahead, hitems, herror], rfl⟩
        | some err => exact ⟨some err, by simp [ahead, hitems, hclosed, herror], rfl⟩
      | false => exact ⟨none, by simp [ahead, hitems, hclosed], rfl⟩
    | cons entry items => exact ahead_cons hitems []
  | cons call calls ih =>
    unfold cursorNext
    cases hitems : ch.items with
    | nil =>
      have hdrained := drained_of_empty hitems
      cases hclosed : ch.closed with
      | true =>
        have hahead : ahead ch (call :: calls) = ([], ch.error) := by simp [ahead, hitems, hclosed]
        cases herror : ch.error with
        | none => exact ⟨none, herror ▸ hahead, rfl⟩
        | some err => exact ⟨some err, herror ▸ hahead, rfl⟩
      | false =>
        cases hstops : call.stops ch with
        | true => exact ⟨none, by simp [ahead, hitems, hclosed, hdrained, hstops], rfl⟩
        | false =>
          have hahead : ahead ch (call :: calls) = ahead (call.on ch) calls := by
            simp [ahead, hitems, hclosed, hdrained, hstops]
          simp only [Bool.false_eq_true, if_false]
          rw [hahead]
          exact ih (call.on ch)
    | cons entry items => exact ahead_cons hitems (call :: calls)

namespace Cursor

variable {c c' : Cursor α ε} {a : α} {err : Option ε}

-- A step of a single consumer.
inductive Steps (c : Cursor α ε) : Pulled α ε → Cursor α ε → Prop where
  | item (a : α) (c' : Cursor α ε) (h : c.ahead = (a :: c'.ahead.1, c'.ahead.2)) :
      Steps c (.item a) c'
  | ended (err : Option ε) (c' : Cursor α ε) (h : c.ahead = ([], err))
      (hafter : c'.ahead = ([], none)) : Steps c (.ended err) c'

theorem steps_next (c : Cursor α ε) : c.Steps c.next.1 c.next.2 := by
  unfold next
  cases hfinished : c.finished with
  | true =>
    have hahead : c.ahead = ([], none) := by simp [ahead, hfinished]
    exact .ended none c hahead hahead
  | false =>
    have hahead : c.ahead = Stream.ahead c.channel c.calls := by simp [ahead, hfinished]
    have hnext := cursorNext_ahead c.channel c.calls
    obtain ⟨r, hr⟩ : ∃ r, cursorNext c.channel c.calls = r := ⟨_, rfl⟩
    simp only [Bool.false_eq_true, if_false]
    rw [hr] at hnext ⊢
    obtain ⟨outcome, channel, calls⟩ := r
    cases outcome with
    | item a => exact .item a _ (hahead.trans hnext)
    | stop =>
      obtain ⟨err, hend, heq⟩ := hnext
      change c.Steps .stop ⟨channel, calls, true⟩
      rw [heq]
      exact .ended err _ (hahead.trans hend) rfl
    | raised e =>
      obtain ⟨err, hend, heq⟩ := hnext
      change c.Steps (.raised e) ⟨channel, calls, true⟩
      rw [heq]
      exact .ended err _ (hahead.trans hend) rfl

end Cursor

end Ahead

section Single

-- The answer to the consumer's pull number `k`.
def answerAt (items : List α) (ending : Option ε) (k : Nat) : Pulled α ε :=
  match items[k]? with
  | some a => .item a
  | none => if k = items.length then .ended ending else .stop

def single (items : List α) (ending : Option ε) (k : Nat) : List (Pulled α ε) :=
  (List.range k).map (answerAt items ending)

variable {items : List α} {ending : Option ε} {k : Nat}

theorem single_succ : single items ending (k + 1) = single items ending k ++ [answerAt items ending k] := by
  rw [single, List.range_succ, List.map_append]
  rfl

theorem answerAt_item {a : α} (h : items[k]? = some a) : answerAt items ending k = .item a := by
  simp only [answerAt, h]

theorem answerAt_end : answerAt items ending items.length = .ended ending := by
  simp only [answerAt, List.getElem?_eq_none (Nat.le_refl _), if_true]

theorem answerAt_after (h : items.length < k) : answerAt items ending k = .stop := by
  simp only [answerAt, List.getElem?_eq_none (Nat.le_of_lt h), if_neg (Nat.ne_of_gt h)]

theorem single_cons (a : α) (items : List α) (ending : Option ε) (k : Nat) :
    single (a :: items) ending (k + 1) = .item a :: single items ending k := by
  rw [single, List.range_succ_eq_map, List.map_cons, List.map_map]
  refine congrArg₂ List.cons rfl (List.map_congr_left (fun j _ => ?_))
  simp [answerAt]

theorem single_nil (ending : Option ε) (k : Nat) :
    single ([] : List α) ending (k + 1) = .ended ending :: single [] none k := by
  rw [single, List.range_succ_eq_map, List.map_cons, List.map_map]
  refine congrArg₂ List.cons rfl (List.map_congr_left (fun j _ => ?_))
  simp [answerAt, Pulled.ended]

-- The pulls of a single consumer.
theorem Cursor.pulls_eq (k : Nat) (c : Cursor α ε) :
    c.pulls k = single c.ahead.1 c.ahead.2 k := by
  induction k generalizing c with
  | zero => rfl
  | succ k ih =>
    rw [pulls, ih]
    have hsteps := c.steps_next
    generalize c.next = r at hsteps ⊢
    obtain ⟨outcome, c'⟩ := r
    cases hsteps with
    | item a c' h => rw [h, single_cons]
    | ended err c' h hafter =>
      rw [h, hafter, single_nil]
      rfl

theorem single_none_iff :
    single items none k = single items ending k ↔ ending = none ∨ k ≤ items.length := by
  constructor
  · intro h
    refine or_iff_not_imp_right.mpr (fun hk => ?_)
    have hlt : items.length < k := by omega
    have hat := congrArg (·[items.length]?) h
    simp only [single, List.getElem?_map, List.getElem?_range hlt, Option.map_some,
      answerAt_end] at hat
    cases ending with
    | none => rfl
    | some err => cases Option.some.inj hat
  · rintro (rfl | hk)
    · rfl
    · refine List.map_congr_left (fun j hj => ?_)
      have hlt : j < items.length := by
        have hjk := List.mem_range.mp hj
        omega
      rw [answerAt_item (List.getElem?_eq_getElem hlt), answerAt_item (List.getElem?_eq_getElem hlt)]

end Single

end Stream

end LangGraph

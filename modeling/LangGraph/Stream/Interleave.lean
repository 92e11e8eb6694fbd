import LangGraph.Collections.Gather
import LangGraph.Stream.Cursor
import LangGraph.Transition.Run
import Mathlib.Data.List.Find
import Mathlib.Data.List.Nodup
import Mathlib.Data.List.Perm.Subperm

namespace LangGraph

namespace Stream

open Collections Transition

variable {α ε : Type}

-- A buffered item under its stamp and the name of its channel.
abbrev Entry (α : Type) := Nat × String × α

-- The sync channels of a mux under their projection names, and its push counter.
structure Projections (α ε : Type) where
  channels : Dict String (ItemChannel α ε)
  pushSeq : Nat

inductive ProducerOp (α ε : Type) where
  | push (name : String) (item : α)
  | close (name : String)
  | fail (name : String) (err : ε)

namespace Projections

def accepts (p : Projections α ε) (name : String) : Bool :=
  (p.channels.get? name).any (fun ch => ch.subscribed && !ch.closed)

def produce (p : Projections α ε) : ProducerOp α ε → Projections α ε
  | .push name item =>
      if p.accepts name then
        ⟨p.channels.modify name (ItemChannel.push (p.pushSeq + 1) item), p.pushSeq + 1⟩
      else p
  | .close name => { p with channels := p.channels.modify name ItemChannel.close }
  | .fail name err => { p with channels := p.channels.modify name (ItemChannel.fail err) }

end Projections

-- The oldest entry of two.
def earlier : Option (Entry α) → Entry α → Entry α
  | none, e => e
  | some best, e => if e.1 < best.1 then e else best

-- One pass over the channels: the names that are done and the oldest entry at hand.
def scan (channels : Dict String (ItemChannel α ε)) : List String → List String →
    Option (Entry α) → Except (String × ε) (List String × Option (Entry α))
  | [], done, best => .ok (done, best)
  | name :: names, done, best =>
      if name ∈ done then scan channels names done best
      else
        match channels.get? name with
        | none => scan channels names done best
        | some ch =>
            match ch.items, ch.closed, ch.error with
            | [], true, some err => .error (name, err)
            | [], true, none => scan channels names (done ++ [name]) best
            | [], false, _ => scan channels names done best
            | (stamp, item) :: _, _, _ =>
                scan channels names done (some (earlier best (stamp, name, item)))

inductive InterleavePhase (ε : Type) where
  | fresh
  | suspended
  | pumping
  | finished
  | refused
  | raised (name : String) (err : ε)
  | abandoned
  deriving DecidableEq

def InterleavePhase.running : InterleavePhase ε → Bool
  | suspended | pumping => true
  | _ => false

-- The generator, which runs from one `yield` or call of the pump to the next.
structure Interleave (α ε : Type) where
  projections : Projections α ε
  names : List String
  done : List String
  phase : InterleavePhase ε

inductive InterleaveEvent (α ε : Type) where
  | produce (op : ProducerOp α ε)
  | resume
  | answer (more : Bool)
  | abandon

-- A name that is missing, or taken already, is refused, and the names before it are released.
def subscribe (channels : Dict String (ItemChannel α ε)) :
    List String → Option (Dict String (ItemChannel α ε))
  | [] => some channels
  | name :: names =>
      match channels.get? name with
      | none => none
      | some ch =>
          if ch.subscribed then none
          else subscribe (channels.set name { ch with subscribed := true }) names

namespace Interleave

def channels (s : Interleave α ε) : Dict String (ItemChannel α ε) := s.projections.channels

def withChannels (s : Interleave α ε) (channels : Dict String (ItemChannel α ε)) :
    Interleave α ε :=
  { s with projections := { s.projections with channels := channels } }

def release (s : Interleave α ε) (phase : InterleavePhase ε) : Interleave α ε :=
  { s.withChannels (s.names.foldl
      (fun channels name => channels.modify name (fun ch => { ch with subscribed := false }))
      s.channels) with phase := phase }

def popleft (s : Interleave α ε) (name : String) : Interleave α ε :=
  s.withChannels (s.channels.modify name (fun ch => { ch with items := ch.items.tail }))

-- A turn of the loop up to its `yield` or its call of the pump.
def turn (s : Interleave α ε) : Interleave α ε × Option (Entry α) :=
  if s.done.length < s.names.length then
    match scan s.channels s.names s.done none with
    | .error (name, err) => (s.release (.raised name err), none)
    | .ok (done, some best) =>
        ({ s.popleft best.2.1 with done := done, phase := .suspended }, some best)
    | .ok (done, none) => ({ s with done := done, phase := .pumping }, none)
  else (s.release .finished, none)

-- No pump is one that answers False at once.
def step (s : Interleave α ε) : InterleaveEvent α ε → Interleave α ε × Option (Entry α)
  | .produce op => ({ s with projections := s.projections.produce op }, none)
  | .resume =>
      match s.phase with
      | .fresh =>
          match subscribe s.channels s.names with
          | none => ({ s with phase := .refused }, none)
          | some channels => (s.withChannels channels).turn
      | .suspended => s.turn
      | _ => (s, none)
  | .answer more =>
      match s.phase with
      | .pumping =>
          if more then s.turn
          else
            match scan s.channels s.names s.done none with
            | .error (name, err) => (s.release (.raised name err), none)
            | .ok (done, _) =>
                if done.length = s.done.length then (s.release .finished, none)
                else { s with done := done }.turn
      | _ => (s, none)
  | .abandon =>
      match s.phase with
      | .fresh => ({ s with phase := .abandoned }, none)
      | .suspended | .pumping => (s.release .abandoned, none)
      | _ => (s, none)

end Interleave

-- A run of the generator with what was pushed to its channels, yielded, and when each failed.
structure Observed (α ε : Type) where
  run : Interleave α ε
  pushed : List (Entry α)
  yielded : List (Entry α)
  failedAt : Dict String Nat

namespace Observed

def init (projections : Projections α ε) (names : List String) : Observed α ε :=
  ⟨⟨projections, names, [], .fresh⟩, [], [], ∅⟩

def pushedBy (o : Observed α ε) : InterleaveEvent α ε → List (Entry α)
  | .produce (.push name item) =>
      if o.run.phase.running ∧ name ∈ o.run.names ∧ o.run.projections.accepts name then
        [(o.run.projections.pushSeq + 1, name, item)]
      else []
  | _ => []

def failedBy (o : Observed α ε) : InterleaveEvent α ε → Dict String Nat
  | .produce (.fail name _) =>
      if o.run.phase.running then o.failedAt.set name o.run.projections.pushSeq else o.failedAt
  | _ => o.failedAt

def step (o : Observed α ε) (ev : InterleaveEvent α ε) : Observed α ε :=
  ⟨(o.run.step ev).1, o.pushed ++ o.pushedBy ev, o.yielded ++ (o.run.step ev).2.toList,
    o.failedBy ev⟩

end Observed

structure Faithful (o : Observed α ε) : Prop where
  merged : o.yielded.Sublist o.pushed
  ordered : o.yielded.Pairwise (fun a b => a.1 < b.1)
  complete : o.run.phase = .finished → o.yielded = o.pushed
  error : ∀ name err, o.run.phase = .raised name err →
    ∀ failed, o.failedAt.get? name = some failed →
      ∀ e ∈ o.pushed, e.1 ≤ failed → e ∈ o.yielded

-- A channel whose error the next pass over the channels raises.
def failing (channels : Dict String (ItemChannel α ε)) (done : List String) (name : String) :
    Bool :=
  name ∉ done ∧ (channels.get? name).any
    (fun ch => ch.items.isEmpty && ch.closed && ch.error.isSome)

def retiring (channels : Dict String (ItemChannel α ε)) (done : List String) (name : String) :
    Bool :=
  name ∉ done ∧ (channels.get? name).any (fun ch => ch.items.isEmpty && ch.closed)

namespace Interleave

def failed? (s : Interleave α ε) : Option String := s.names.find? (failing s.channels s.done)

def holds (s : Interleave α ε) (e : Nat × α) : Prop :=
  ∃ name ∈ s.names, ∃ ch, s.channels.get? name = some ch ∧ e ∈ ch.items

end Interleave

-- The first failed channel of the next pass failed before everything at hand was pushed.
def NoneOvertaken (o : Observed α ε) : Prop :=
  ∀ name failed, o.run.failed? = some name → o.failedAt.get? name = some failed →
    ∀ e, o.run.holds e → failed < e.1

def Clear (o : Observed α ε) : InterleaveEvent α ε → Prop
  | .resume =>
      match o.run.phase with
      | .fresh => (subscribe o.run.channels o.run.names).isSome → o.run.failed? = none →
          ∀ e, ¬o.run.holds e
      | .suspended => NoneOvertaken o
      | _ => True
  | .answer more =>
      match o.run.phase with
      | .pumping => NoneOvertaken o ∧ (more = false → o.run.failed? = none →
          (∃ name ∈ o.run.names, retiring o.run.channels o.run.done name = true) ∨
            ∀ e, ¬o.run.holds e)
      | _ => True
  | _ => True

section Scan

variable {channels : Dict String (ItemChannel α ε)} {names done : List String}
  {best : Option (Entry α)} {name : String} {e : Entry α}

def headOf (channels : Dict String (ItemChannel α ε)) (done : List String) (name : String) :
    Option (Entry α) :=
  if name ∈ done then none
  else (channels.get? name).bind (fun ch => ch.items.head?.map (fun e => (e.1, name, e.2)))

def oldest (best : Option (Entry α)) (es : List (Entry α)) : Option (Entry α) :=
  es.foldl (fun best e => some (earlier best e)) best

theorem oldest_eq {es : List (Entry α)} (he : e ∈ es ∨ best = some e)
    (hes : ∀ x ∈ es, x = e ∨ e.1 < x.1) (hbest : ∀ x, best = some x → x = e ∨ e.1 < x.1) :
    oldest best es = some e := by
  induction es generalizing best with
  | nil =>
    rcases he with he | he
    · cases he
    · exact he
  | cons x es ih =>
    have hx := hes x List.mem_cons_self
    apply ih
    · rcases he with he | rfl
      · rcases List.mem_cons.mp he with rfl | he
        · right
          cases best with
          | none => rfl
          | some y =>
            rcases hbest y rfl with rfl | hlt
            · simp [earlier]
            · simp [earlier, hlt]
        · exact Or.inl he
      · right
        rcases hx with rfl | hlt
        · simp [earlier]
        · simp [earlier, Nat.not_lt.mpr (Nat.le_of_lt hlt)]
    · intro y hy
      exact hes y (List.mem_cons_of_mem x hy)
    · intro y hy
      obtain rfl := Option.some.inj hy
      cases best with
      | none => exact hx
      | some z =>
        simp only [earlier]
        split
        · exact hx
        · exact hbest z rfl

theorem isSome_oldest {es : List (Entry α)} (h : es ≠ []) : (oldest best es).isSome = true := by
  induction es generalizing best with
  | nil => exact absurd rfl h
  | cons x es ih =>
    cases es with
    | nil => rfl
    | cons y es => exact ih (List.cons_ne_nil y es)

theorem mem_done_append (hne : name ∉ names) {x : String} (hx : x ∈ names) :
    x ∈ done ++ [name] ↔ x ∈ done := by
  have hx' : x ≠ name := fun heq => hne (heq ▸ hx)
  simp [hx']

theorem failing_append (hne : name ∉ names) {x : String} (hx : x ∈ names) :
    failing channels (done ++ [name]) x = failing channels done x := by
  simp only [failing, mem_done_append hne hx]

theorem retiring_append (hne : name ∉ names) {x : String} (hx : x ∈ names) :
    retiring channels (done ++ [name]) x = retiring channels done x := by
  simp only [retiring, mem_done_append hne hx]

theorem headOf_append (hne : name ∉ names) {x : String} (hx : x ∈ names) :
    headOf channels (done ++ [name]) x = headOf channels done x := by
  simp only [headOf, mem_done_append hne hx]

theorem scan_cons_failing (h : failing channels done name = true) :
    ∃ err, scan channels (name :: names) done best = .error (name, err) := by
  obtain ⟨hdone, hany⟩ := of_decide_eq_true h
  unfold scan
  rw [if_neg hdone]
  cases hch : channels.get? name with
  | none =>
    rw [hch] at hany
    cases hany
  | some ch =>
    rw [hch] at hany
    obtain ⟨items, subscribed, closed, error⟩ := ch
    cases items with
    | nil =>
      cases closed with
      | true =>
        cases error with
        | some err => exact ⟨err, rfl⟩
        | none => cases hany
      | false => cases hany
    | cons x items => cases hany

theorem scan_cons (h : failing channels done name = false) :
    scan channels (name :: names) done best =
      scan channels names (if retiring channels done name then done ++ [name] else done)
        (oldest best (headOf channels done name).toList) := by
  have hoff := of_decide_eq_false h
  rw [scan]
  split
  · rename_i hdone
    simp [retiring, headOf, hdone, oldest]
  · rename_i hdone
    have hretiring : retiring channels done name = (channels.get? name).any
        (fun ch => ch.items.isEmpty && ch.closed) := by simp [retiring, hdone]
    rw [hretiring, headOf, if_neg hdone]
    cases hch : channels.get? name with
    | none => simp [oldest]
    | some ch =>
      rw [hch] at hoff
      obtain ⟨items, subscribed, closed, error⟩ := ch
      cases items with
      | nil =>
        cases closed with
        | true =>
          cases error with
          | some err => exact absurd ⟨hdone, rfl⟩ hoff
          | none => rfl
        | false => rfl
      | cons x items => rfl

theorem scan_error (hn : names.Nodup) (h : names.find? (failing channels done) = some name) :
    ∃ err, scan channels names done best = .error (name, err) := by
  induction names generalizing done best with
  | nil => cases h
  | cons x names ih =>
    obtain ⟨hx, hnames⟩ := List.nodup_cons.mp hn
    cases hfail : failing channels done x with
    | true =>
      rw [List.find?_cons_of_pos hfail] at h
      obtain rfl := Option.some.inj h
      exact scan_cons_failing hfail
    | false =>
      rw [List.find?_cons_of_neg (by simp [hfail])] at h
      rw [scan_cons hfail]
      apply ih hnames
      split
      · rw [← h]
        exact List.find?_congr (fun y hy => failing_append hx hy)
      · exact h

theorem scan_ok (hn : names.Nodup) (h : names.find? (failing channels done) = none) :
    scan channels names done best =
      .ok (done ++ names.filter (retiring channels done),
        oldest best (names.filterMap (headOf channels done))) := by
  induction names generalizing done best with
  | nil => simp [scan, oldest]
  | cons x names ih =>
    obtain ⟨hx, hnames⟩ := List.nodup_cons.mp hn
    have hnone := List.find?_eq_none.mp h
    have hfail : failing channels done x = false := by
      simpa using hnone x List.mem_cons_self
    rw [scan_cons hfail]
    have hhead (es : List (Entry α)) : oldest (oldest best (headOf channels done x).toList) es =
        oldest best ((headOf channels done x).toList ++ es) := by
      rw [oldest, oldest, oldest, List.foldl_append]
    have htoList : (x :: names).filterMap (headOf channels done) =
        (headOf channels done x).toList ++ names.filterMap (headOf channels done) := by
      rw [List.filterMap_cons]
      cases headOf channels done x with
      | none => rfl
      | some e => rfl
    rw [htoList, ← hhead]
    cases hretire : retiring channels done x with
    | true =>
      have hfilter := List.filter_congr (fun y hy => @retiring_append _ _ channels _ done x hx y hy)
      have hheads := List.filterMap_congr
        (fun y hy => @headOf_append _ _ channels _ done x hx y hy)
      rw [if_pos rfl, ih hnames, List.filter_cons_of_pos hretire, hfilter, hheads,
        List.append_assoc]
      · rfl
      · refine List.find?_eq_none.mpr (fun y hy => ?_)
        rw [failing_append hx hy]
        exact hnone y (List.mem_cons_of_mem x hy)
    | false =>
      rw [if_neg (by simp), ih hnames, List.filter_cons_of_neg (by simp [hretire])]
      refine List.find?_eq_none.mpr (fun y hy => ?_)
      exact hnone y (List.mem_cons_of_mem x hy)

end Scan

section Tracked

variable {o : Observed α ε} {pending : List (Entry α)} {name : String}

def pendingOf (name : String) (pending : List (Entry α)) : List (Nat × α) :=
  pending.filterMap (fun e => if e.2.1 = name then some (e.1, e.2.2) else none)

theorem mem_pendingOf {e : Nat × α} : e ∈ pendingOf name pending ↔ (e.1, name, e.2) ∈ pending := by
  constructor
  · intro h
    obtain ⟨x, hx, heq⟩ := List.mem_filterMap.mp h
    split at heq
    · rename_i hname
      obtain rfl := Option.some.inj heq
      rw [← hname]
      exact hx
    · cases heq
  · intro h
    exact List.mem_filterMap.mpr ⟨_, h, by simp⟩

-- What is pushed and not yet yielded waits in the channels, in the order of the pushes.
structure Running (o : Observed α ε) (pending : List (Entry α)) : Prop where
  distinct : o.run.names.Nodup
  pushed : o.pushed = o.yielded ++ pending
  stamped : o.pushed.Pairwise (fun a b => a.1 < b.1)
  bounded : ∀ e ∈ o.pushed, e.1 ≤ o.run.projections.pushSeq
  named : ∀ e ∈ pending, e.2.1 ∈ o.run.names
  waiting : ∀ name ∈ o.run.names, ∃ ch, o.run.channels.get? name = some ch ∧
    ch.subscribed = true ∧ ch.items = pendingOf name pending
  unique : o.run.done.Nodup
  retired : ∀ name ∈ o.run.done, name ∈ o.run.names ∧ ∃ ch,
    o.run.channels.get? name = some ch ∧ ch.closed = true ∧ ch.items = []

def Tracked (o : Observed α ε) : Prop :=
  match o.run.phase with
  | .fresh => o.pushed = [] ∧ o.yielded = [] ∧ o.run.done = []
  | .suspended | .pumping => ∃ pending, Running o pending
  | _ => True

theorem Running.holds_iff (h : Running o pending) {e : Nat × α} :
    o.run.holds e ↔ ∃ name, (e.1, name, e.2) ∈ pending := by
  constructor
  · rintro ⟨name, hname, ch, hch, he⟩
    obtain ⟨ch', hch', -, hitems⟩ := h.waiting name hname
    obtain rfl := Option.some.inj (hch.symm.trans hch')
    rw [hitems] at he
    exact ⟨name, mem_pendingOf.mp he⟩
  · rintro ⟨name, he⟩
    have hname := h.named _ he
    obtain ⟨ch, hch, -, hitems⟩ := h.waiting name hname
    exact ⟨name, hname, ch, hch, hitems ▸ mem_pendingOf.mpr he⟩

theorem Running.unheld_iff (h : Running o pending) : (∀ e, ¬o.run.holds e) ↔ pending = [] := by
  constructor
  · intro hnone
    refine List.eq_nil_iff_forall_not_mem.mpr (fun e he => ?_)
    exact hnone (e.1, e.2.2) (h.holds_iff.mpr ⟨e.2.1, he⟩)
  · rintro rfl e he
    obtain ⟨name, hmem⟩ := h.holds_iff.mp he
    cases hmem

theorem Running.sublist (h : Running o pending) : o.yielded.Sublist o.pushed := by
  rw [h.pushed]
  exact List.sublist_append_left _ _

theorem Running.ordered (h : Running o pending) : o.yielded.Pairwise (fun a b => a.1 < b.1) :=
  h.stamped.sublist h.sublist

theorem Running.notYielded (h : Running o pending) {e : Entry α} (he : e ∈ pending) :
    e ∉ o.yielded := by
  intro hmem
  have hpair := h.stamped
  rw [h.pushed, List.pairwise_append] at hpair
  exact Nat.lt_irrefl e.1 (hpair.2.2 e hmem e he)

theorem Running.headOf_eq (h : Running o pending) (hname : name ∈ o.run.names) :
    headOf o.run.channels o.run.done name =
      (pendingOf name pending).head?.map (fun e => (e.1, name, e.2)) := by
  obtain ⟨ch, hch, -, hitems⟩ := h.waiting name hname
  unfold headOf
  split
  · rename_i hdone
    obtain ⟨-, ch', hch', -, hempty⟩ := h.retired name hdone
    obtain rfl := Option.some.inj (hch.symm.trans hch')
    rw [← hitems, hempty]
    rfl
  · rw [hch, Option.bind_some, hitems]

-- A pass over the channels finds the oldest item that waits.
theorem Running.oldest_heads (h : Running o pending) :
    oldest none (o.run.names.filterMap (headOf o.run.channels o.run.done)) = pending.head? := by
  have hheads {x : Entry α} (hx : x ∈ o.run.names.filterMap (headOf o.run.channels o.run.done)) :
      x ∈ pending := by
    obtain ⟨name, hname, heq⟩ := List.mem_filterMap.mp hx
    rw [h.headOf_eq hname] at heq
    obtain ⟨y, hy, rfl⟩ := Option.map_eq_some_iff.mp heq
    exact mem_pendingOf.mp (List.mem_of_head? hy)
  cases pending with
  | nil =>
    have hnil : o.run.names.filterMap (headOf o.run.channels o.run.done) = [] := by
      refine List.eq_nil_iff_forall_not_mem.mpr (fun x hx => ?_)
      cases hheads hx
    rw [hnil]
    rfl
  | cons e rest =>
    have hname := h.named e List.mem_cons_self
    have hpair := h.stamped
    rw [h.pushed, List.pairwise_append, List.pairwise_cons] at hpair
    apply oldest_eq
    · left
      refine List.mem_filterMap.mpr ⟨e.2.1, hname, ?_⟩
      rw [h.headOf_eq hname]
      simp [pendingOf]
    · intro x hx
      rcases List.mem_cons.mp (hheads hx) with rfl | hx
      · exact Or.inl rfl
      · exact Or.inr (hpair.2.1.1 x hx)
    · intro x hx
      cases hx

theorem Running.scan_ok (h : Running o pending) (hok : o.run.failed? = none) :
    scan o.run.channels o.run.names o.run.done none =
      .ok (o.run.done ++ o.run.names.filter (retiring o.run.channels o.run.done),
        pending.head?) := by
  rw [← h.oldest_heads]
  exact Stream.scan_ok h.distinct hok

theorem Running.names_subset (h : Running o pending)
    (hlen : ¬o.run.done.length < o.run.names.length) : o.run.names ⊆ o.run.done := by
  have hsub : o.run.done ⊆ o.run.names := fun name hname => (h.retired name hname).1
  have hperm := (List.subperm_of_subset h.unique hsub).perm_of_length_le (by omega)
  exact hperm.symm.subset

theorem Running.nil_of_done (h : Running o pending) (hall : o.run.names ⊆ o.run.done) :
    pending = [] := by
  refine List.eq_nil_iff_forall_not_mem.mpr (fun e he => ?_)
  obtain ⟨hname, ch, hch, -, hempty⟩ := h.retired _ (hall (h.named e he))
  obtain ⟨ch', hch', -, hitems⟩ := h.waiting _ hname
  obtain rfl := Option.some.inj (hch.symm.trans hch')
  have hmem : (e.1, e.2.2) ∈ pendingOf e.2.1 pending := mem_pendingOf.mpr he
  rw [← hitems, hempty] at hmem
  cases hmem

theorem failed_none_of_done {s : Interleave α ε} (hall : s.names ⊆ s.done) :
    s.failed? = none := by
  refine List.find?_eq_none.mpr (fun name hname => ?_)
  simp [failing, hall hname]

-- Retiring the closed empty channels keeps what is known of a run.
theorem Running.retire (h : Running o pending) :
    Running { o with run := { o.run with
      done := o.run.done ++ o.run.names.filter (retiring o.run.channels o.run.done) } }
      pending where
  distinct := h.distinct
  pushed := h.pushed
  stamped := h.stamped
  bounded := h.bounded
  named := h.named
  waiting := h.waiting
  unique := by
    refine List.Nodup.append h.unique (h.distinct.filter _) (fun name hdone hretire => ?_)
    have hfresh := of_decide_eq_true (List.mem_filter.mp hretire).2
    exact hfresh.1 hdone
  retired name hname := by
    rcases List.mem_append.mp hname with hdone | hretire
    · exact h.retired name hdone
    · obtain ⟨hmem, hretiring⟩ := List.mem_filter.mp hretire
      obtain ⟨-, hany⟩ := of_decide_eq_true hretiring
      cases hch : o.run.channels.get? name with
      | none =>
        rw [hch] at hany
        cases hany
      | some ch =>
        rw [hch, Option.any_some, Bool.and_eq_true, List.isEmpty_iff] at hany
        exact ⟨hmem, ch, hch, hany.2, hany.1⟩

theorem Running.pop {e : Entry α} (h : Running o (e :: pending)) (failedAt : Dict String Nat) :
    Running ⟨o.run.popleft e.2.1, o.pushed, o.yielded ++ [e], failedAt⟩ pending where
  distinct := h.distinct
  pushed := by
    rw [List.append_assoc]
    exact h.pushed
  stamped := h.stamped
  bounded := h.bounded
  named x hx := h.named x (List.mem_cons_of_mem e hx)
  waiting name hname := by
    obtain ⟨ch, hch, hsub, hitems⟩ := h.waiting name hname
    change ∃ ch, (o.run.channels.modify e.2.1 _).get? name = some ch ∧ _
    rw [Dict.get?_modify]
    split
    · rename_i heq
      subst heq
      refine ⟨{ ch with items := ch.items.tail }, by rw [hch]; rfl, hsub, ?_⟩
      simp [hitems, pendingOf]
    · rename_i hne
      refine ⟨ch, hch, hsub, ?_⟩
      have hne' : e.2.1 ≠ name := fun heq => hne heq.symm
      rw [hitems]
      simp [pendingOf, hne']
  unique := h.unique
  retired name hname := by
    obtain ⟨hmem, ch, hch, hclosed, hempty⟩ := h.retired name hname
    refine ⟨hmem, ?_⟩
    change ∃ ch, (o.run.channels.modify e.2.1 _).get? name = some ch ∧ _
    rw [Dict.get?_modify]
    split
    · rename_i heq
      subst heq
      refine ⟨{ ch with items := ch.items.tail }, by rw [hch]; rfl, hclosed, ?_⟩
      rw [hempty]
      rfl
    · exact ⟨ch, hch, hclosed, hempty⟩

theorem Running.inPhase (h : Running o pending) (phase : InterleavePhase ε) :
    Running { o with run := { o.run with phase := phase } } pending :=
  ⟨h.distinct, h.pushed, h.stamped, h.bounded, h.named, h.waiting, h.unique, h.retired⟩

theorem Running.faithful (h : Running o pending) (hfinished : o.run.phase ≠ .finished)
    (hraised : ∀ name err, o.run.phase ≠ .raised name err) : Faithful o where
  merged := h.sublist
  ordered := h.ordered
  complete heq := absurd heq hfinished
  error name err heq := absurd heq (hraised name err)

-- What is left of a run that ends.
def Observed.ends (o : Observed α ε) (phase : InterleavePhase ε) : Observed α ε :=
  { o with run := o.run.release phase }

theorem Running.faithful_finished (h : Running o pending) :
    Faithful (o.ends .finished) ↔ pending = [] := by
  constructor
  · intro hfaithful
    have hall : o.yielded = o.pushed := hfaithful.complete rfl
    rw [h.pushed] at hall
    simpa using hall
  · rintro rfl
    have hall : o.yielded = o.pushed := by rw [h.pushed, List.append_nil]
    exact {
      merged := h.sublist
      ordered := h.ordered
      complete := fun _ => hall
      error := fun _ _ hphase => by cases hphase }

theorem Running.faithful_raised {err : ε} (h : Running o pending)
    (hfailed : o.run.failed? = some name) :
    Faithful (o.ends (.raised name err)) ↔ NoneOvertaken o := by
  constructor
  · intro hfaithful name' failed hfailed' hat e he
    obtain rfl := Option.some.inj (hfailed.symm.trans hfailed')
    obtain ⟨other, hmem⟩ := h.holds_iff.mp he
    by_contra hle
    have hpushed : (e.1, other, e.2) ∈ o.pushed := by
      rw [h.pushed]
      exact List.mem_append_right _ hmem
    exact h.notYielded hmem
      (hfaithful.error name err rfl failed hat _ hpushed (Nat.not_lt.mp hle))
  · intro hnone
    refine ⟨h.sublist, h.ordered, ?_, ?_⟩
    · intro hphase
      cases hphase
    intro name' err' hphase failed hat e he hle
    obtain ⟨rfl, rfl⟩ : name = name' ∧ err = err' := by
      change InterleavePhase.raised name err = .raised name' err' at hphase
      exact InterleavePhase.raised.inj hphase
    change e ∈ o.pushed at he
    rw [h.pushed, List.mem_append] at he
    rcases he with he | he
    · exact he
    · have hheld : o.run.holds (e.1, e.2.2) := h.holds_iff.mpr ⟨e.2.1, he⟩
      exact absurd (hnone name failed hfailed hat _ hheld) (Nat.not_lt.mpr hle)

def Observed.turned (o : Observed α ε) : Observed α ε :=
  ⟨o.run.turn.1, o.pushed, o.yielded ++ o.run.turn.2.toList, o.failedAt⟩

theorem noneOvertaken_of_none (h : o.run.failed? = none) : NoneOvertaken o := by
  intro name failed hfailed
  rw [h] at hfailed
  cases hfailed

theorem Running.turned (h : Running o pending) :
    (Faithful o.turned ↔ NoneOvertaken o) ∧ Tracked o.turned := by
  unfold Observed.turned Interleave.turn
  split
  · cases hfailed : o.run.failed? with
    | some name =>
      obtain ⟨err, hscan⟩ := @scan_error _ _ o.run.channels o.run.names o.run.done none name
        h.distinct hfailed
      rw [hscan, Option.toList_none, List.append_nil]
      exact ⟨h.faithful_raised hfailed, trivial⟩
    | none =>
      rw [h.scan_ok hfailed]
      cases pending with
      | nil =>
        have hrun := h.retire.inPhase .pumping
        rw [List.head?_nil, Option.toList_none, List.append_nil]
        exact ⟨iff_of_true (hrun.faithful nofun nofun) (noneOvertaken_of_none hfailed), [], hrun⟩
      | cons e rest =>
        have hrun := (h.retire.pop o.failedAt).inPhase .suspended
        exact ⟨iff_of_true (hrun.faithful nofun nofun) (noneOvertaken_of_none hfailed), rest, hrun⟩
  · rename_i hlen
    have hall := h.names_subset hlen
    obtain rfl := h.nil_of_done hall
    rw [Option.toList_none, List.append_nil]
    exact ⟨iff_of_true (h.faithful_finished.mpr rfl)
      (noneOvertaken_of_none (failed_none_of_done hall)), trivial⟩

theorem ItemChannel.push_accepted {ch : ItemChannel α ε} (hsub : ch.subscribed = true)
    (hopen : ch.closed = false) (stamp : Nat) (item : α) :
    ch.push stamp item = { ch with items := ch.items ++ [(stamp, item)] } := by
  unfold ItemChannel.push
  rw [hsub, hopen]
  rfl

theorem accepts_iff {p : Projections α ε} :
    p.accepts name = true ↔
      ∃ ch, p.channels.get? name = some ch ∧ ch.subscribed = true ∧ ch.closed = false := by
  unfold Projections.accepts
  cases p.channels.get? name with
  | none => simp
  | some ch => simp

-- `close` and `fail` change neither what a channel buffers nor who reads it.
theorem Running.flagged (h : Running o pending) {f : ItemChannel α ε → ItemChannel α ε}
    (hf : ∀ ch, (f ch).items = ch.items ∧ (f ch).subscribed = ch.subscribed ∧
      (f ch).closed = true) (name : String) (failedAt : Dict String Nat) :
    Running ⟨o.run.withChannels (o.run.channels.modify name f), o.pushed, o.yielded, failedAt⟩
      pending where
  distinct := h.distinct
  pushed := h.pushed
  stamped := h.stamped
  bounded := h.bounded
  named := h.named
  waiting other hother := by
    obtain ⟨ch, hch, hsub, hitems⟩ := h.waiting other hother
    change ∃ ch, (o.run.channels.modify name f).get? other = some ch ∧ _
    rw [Dict.get?_modify]
    split
    · rename_i heq
      subst heq
      obtain ⟨hkeep, hreads, -⟩ := hf ch
      exact ⟨f ch, by rw [hch]; rfl, hreads.trans hsub, hkeep.trans hitems⟩
    · exact ⟨ch, hch, hsub, hitems⟩
  unique := h.unique
  retired other hother := by
    obtain ⟨hmem, ch, hch, hclosed, hempty⟩ := h.retired other hother
    refine ⟨hmem, ?_⟩
    change ∃ ch, (o.run.channels.modify name f).get? other = some ch ∧ _
    rw [Dict.get?_modify]
    split
    · rename_i heq
      subst heq
      obtain ⟨hkeep, -, hflag⟩ := hf ch
      exact ⟨f ch, by rw [hch]; rfl, hflag, hkeep.trans hempty⟩
    · exact ⟨ch, hch, hclosed, hempty⟩

theorem Running.push {item : α} (h : Running o pending)
    (haccepts : o.run.projections.accepts name = true) :
    let stamp := o.run.projections.pushSeq + 1
    let noted := if name ∈ o.run.names then [(stamp, name, item)] else []
    Running ⟨{ o.run with projections :=
        ⟨o.run.channels.modify name (ItemChannel.push stamp item), stamp⟩ },
      o.pushed ++ noted, o.yielded, o.failedAt⟩ (pending ++ noted) := by
  obtain ⟨ch, hch, hsub, hopen⟩ := accepts_iff.mp haccepts
  have hget (other : String) : (o.run.channels.modify name
      (ItemChannel.push (o.run.projections.pushSeq + 1) item)).get? other =
        if other = name then some { ch with
          items := ch.items ++ [(o.run.projections.pushSeq + 1, item)] }
        else o.run.channels.get? other := by
    rw [Dict.get?_modify]
    split
    · have hch' : o.run.channels.get? name = some ch := hch
      rw [hch', Option.map_some, ItemChannel.push_accepted hsub hopen]
    · rfl
  have hnoted {e : Entry α} (he : e ∈ if name ∈ o.run.names then
      [(o.run.projections.pushSeq + 1, name, item)] else []) :
      name ∈ o.run.names ∧ e = (o.run.projections.pushSeq + 1, name, item) := by
    split at he
    · rename_i hname
      exact ⟨hname, List.mem_singleton.mp he⟩
    · cases he
  refine ⟨h.distinct, ?_, ?_, ?_, ?_, ?_, h.unique, ?_⟩
  · rw [h.pushed, List.append_assoc]
  · refine List.pairwise_append.mpr ⟨h.stamped, ?_, fun e he e' he' => ?_⟩
    · split
      · exact List.pairwise_singleton _ _
      · exact List.Pairwise.nil
    · obtain ⟨-, rfl⟩ := hnoted he'
      exact Nat.lt_succ_of_le (h.bounded e he)
  · intro e he
    rcases List.mem_append.mp he with he | he
    · exact Nat.le_succ_of_le (h.bounded e he)
    · obtain ⟨-, rfl⟩ := hnoted he
      exact Nat.le_refl _
  · intro e he
    rcases List.mem_append.mp he with he | he
    · exact h.named e he
    · obtain ⟨hname, rfl⟩ := hnoted he
      exact hname
  · intro other hother
    obtain ⟨ch', hch', hsub', hitems⟩ := h.waiting other hother
    change ∃ ch, (o.run.channels.modify name _).get? other = some ch ∧ _
    rw [hget]
    split
    · rename_i heq
      subst heq
      obtain rfl := Option.some.inj (hch.symm.trans hch')
      refine ⟨_, rfl, hsub, ?_⟩
      rw [if_pos hother]
      simp [hitems, pendingOf]
    · rename_i hne
      refine ⟨ch', hch', hsub', ?_⟩
      rw [hitems]
      split
      · have hne' : name ≠ other := fun heq => hne heq.symm
        simp [pendingOf, hne']
      · rw [List.append_nil]
  · intro other hother
    obtain ⟨hmem, ch', hch', hclosed, hempty⟩ := h.retired other hother
    refine ⟨hmem, ?_⟩
    change ∃ ch, (o.run.channels.modify name _).get? other = some ch ∧ _
    rw [hget]
    split
    · rename_i heq
      subst heq
      obtain rfl := Option.some.inj (hch.symm.trans hch')
      rw [hopen] at hclosed
      cases hclosed
    · exact ⟨ch', hch', hclosed, hempty⟩

theorem Running.produced (h : Running o pending) (hrunning : o.run.phase.running = true)
    (op : ProducerOp α ε) : ∃ pending, Running (o.step (.produce op)) pending := by
  unfold Observed.step
  simp only [Interleave.step, Option.toList_none, List.append_nil]
  cases op with
  | push name item =>
    simp only [Observed.pushedBy, Observed.failedBy, Projections.produce, hrunning, true_and]
    cases haccepts : o.run.projections.accepts name with
    | true =>
      simp only [if_true, and_true]
      exact ⟨_, h.push haccepts⟩
    | false =>
      simp only [Bool.false_eq_true, and_false, if_false, List.append_nil]
      exact ⟨pending, h⟩
  | close name =>
    simp only [Observed.pushedBy, List.append_nil]
    exact ⟨pending, @Running.flagged _ _ _ _ h ItemChannel.close (fun _ => ⟨rfl, rfl, rfl⟩) name _⟩
  | fail name err =>
    simp only [Observed.pushedBy, List.append_nil]
    exact ⟨pending,
      @Running.flagged _ _ _ _ h (ItemChannel.fail err) (fun _ => ⟨rfl, rfl, rfl⟩) name _⟩

theorem subscribe_spec {channels channels' : Dict String (ItemChannel α ε)} {names : List String}
    (h : subscribe channels names = some channels') :
    names.Nodup ∧
      (∀ name ∈ names, ∃ ch, channels.get? name = some ch ∧ ch.subscribed = false ∧
        channels'.get? name = some { ch with subscribed := true }) ∧
      ∀ name, name ∉ names → channels'.get? name = channels.get? name := by
  induction names generalizing channels with
  | nil =>
    obtain rfl := Option.some.inj h
    exact ⟨List.nodup_nil, by simp, fun _ _ => rfl⟩
  | cons name names ih =>
    unfold subscribe at h
    split at h
    · cases h
    · rename_i ch hch
      split at h
      · cases h
      · rename_i hsub
        obtain ⟨hdistinct, htaken, hrest⟩ := ih h
        have hname : name ∉ names := by
          intro hmem
          obtain ⟨ch', hch', hoff, -⟩ := htaken name hmem
          rw [Dict.get?_set_self] at hch'
          obtain rfl := Option.some.inj hch'
          cases hoff
        refine ⟨List.nodup_cons.mpr ⟨hname, hdistinct⟩, fun other hother => ?_,
          fun other hother => ?_⟩
        · rcases List.mem_cons.mp hother with rfl | hmem
          · refine ⟨ch, hch, Bool.not_eq_true _ ▸ hsub, ?_⟩
            rw [hrest other hname, Dict.get?_set_self]
          · have hne : other ≠ name := fun heq => hname (heq ▸ hmem)
            obtain ⟨ch', hch', hoff, hget⟩ := htaken other hmem
            rw [Dict.get?_set_ne _ hne] at hch'
            exact ⟨ch', hch', hoff, hget⟩
        · have hne := List.ne_of_not_mem_cons hother
          have hmem := List.not_mem_of_not_mem_cons hother
          rw [hrest other hmem, Dict.get?_set_ne _ hne]

-- The generator's first step: every channel is its own now.
theorem Running.start {channels : Dict String (ItemChannel α ε)}
    (hstart : o.pushed = [] ∧ o.yielded = [] ∧ o.run.done = [])
    (hsub : subscribe o.run.channels o.run.names = some channels)
    (hempty : ∀ e, ¬o.run.holds e) :
    Running { o with run := o.run.withChannels channels } [] := by
  obtain ⟨hpushed, hyielded, hdone⟩ := hstart
  obtain ⟨hdistinct, htaken, -⟩ := subscribe_spec hsub
  refine ⟨hdistinct, ?_, ?_, ?_, nofun, fun name hname => ?_, ?_, ?_⟩
  · rw [hpushed, hyielded]
    rfl
  · rw [hpushed]
    exact List.Pairwise.nil
  · rw [hpushed]
    exact nofun
  · obtain ⟨ch, hch, -, hget⟩ := htaken name hname
    refine ⟨_, hget, rfl, List.eq_nil_iff_forall_not_mem.mpr (fun e he => ?_)⟩
    exact hempty e ⟨name, hname, ch, hch, he⟩
  · change o.run.done.Nodup
    rw [hdone]
    exact List.nodup_nil
  · change ∀ name ∈ o.run.done, _
    rw [hdone]
    exact nofun

theorem failed_subscribed {s : Interleave α ε} {channels : Dict String (ItemChannel α ε)}
    (hsub : subscribe s.channels s.names = some channels) :
    (s.withChannels channels).failed? = s.failed? := by
  refine List.find?_congr (fun name hname => ?_)
  obtain ⟨ch, hch, -, hget⟩ := (subscribe_spec hsub).2.1 name hname
  change failing channels s.done name = failing s.channels s.done name
  simp only [failing, hget, hch, Option.any_some]

theorem turn_failed {s : Interleave α ε} (hlen : s.done.length < s.names.length)
    (hdistinct : s.names.Nodup) (hfailed : s.failed? = some name) :
    ∃ err, s.turn = (s.release (.raised name err), none) := by
  obtain ⟨err, hscan⟩ := @scan_error _ _ s.channels s.names s.done none name hdistinct hfailed
  refine ⟨err, ?_⟩
  unfold Interleave.turn
  rw [if_pos hlen, hscan]

theorem turn_best {s : Interleave α ε} {best : Entry α} (hlen : s.done.length < s.names.length)
    (hdistinct : s.names.Nodup) (hfailed : s.failed? = none)
    (hbest : oldest none (s.names.filterMap (headOf s.channels s.done)) = some best) :
    s.turn.2 = some best := by
  unfold Interleave.turn
  rw [if_pos hlen, Stream.scan_ok hdistinct hfailed, hbest]

theorem Tracked.stale {channels : Dict String (ItemChannel α ε)} {e : Nat × α}
    (h : o.pushed = [] ∧ o.yielded = [] ∧ o.run.done = [])
    (hsub : subscribe o.run.channels o.run.names = some channels)
    (hfailed : o.run.failed? = none) (hheld : o.run.holds e) :
    ¬Faithful (Observed.turned { o with run := o.run.withChannels channels }) := by
  obtain ⟨hpushed, hyielded, hdone⟩ := h
  obtain ⟨name, hname, ch, hch, he⟩ := hheld
  obtain ⟨hdistinct, htaken, -⟩ := subscribe_spec hsub
  obtain ⟨ch', hch', -, hget⟩ := htaken name hname
  obtain rfl := Option.some.inj (hch.symm.trans hch')
  have hlen : (o.run.withChannels channels).done.length < (o.run.withChannels channels).names.length := by
    change o.run.done.length < o.run.names.length
    rw [hdone]
    exact List.length_pos_of_mem hname
  have hheads : (o.run.withChannels channels).names.filterMap
      (headOf (o.run.withChannels channels).channels (o.run.withChannels channels).done) ≠ [] := by
    intro hnil
    have hhead := List.filterMap_eq_nil_iff.mp hnil name hname
    change headOf channels o.run.done name = none at hhead
    rw [headOf, hdone, if_neg List.not_mem_nil, hget, Option.bind_some] at hhead
    have hitems : ch.items = [] := by simpa using hhead
    rw [hitems] at he
    cases he
  obtain ⟨best, hbest⟩ := Option.isSome_iff_exists.mp (@isSome_oldest _ none _ hheads)
  have hturn := turn_best hlen hdistinct ((failed_subscribed hsub).trans hfailed) hbest
  intro hfaithful
  have hmerged : (o.yielded ++ (o.run.withChannels channels).turn.2.toList).Sublist o.pushed :=
    hfaithful.merged
  rw [hpushed, hyielded, hturn] at hmerged
  simp at hmerged

theorem Observed.step_resume (o : Observed α ε) :
    o.step .resume = ⟨(o.run.step .resume).1, o.pushed,
      o.yielded ++ (o.run.step .resume).2.toList, o.failedAt⟩ := by
  unfold Observed.step
  rw [show o.pushedBy .resume = [] from rfl, List.append_nil]
  rfl

theorem Tracked.start (hphase : o.run.phase = .fresh)
    (h : o.pushed = [] ∧ o.yielded = [] ∧ o.run.done = []) :
    (Faithful (o.step .resume) ↔ Clear o .resume) ∧
      (Faithful (o.step .resume) → Tracked (o.step .resume)) := by
  rw [Observed.step_resume]
  simp only [Interleave.step, hphase, Clear]
  cases hsub : subscribe o.run.channels o.run.names with
  | none =>
    obtain ⟨hpushed, hyielded, -⟩ := h
    refine ⟨iff_of_true ?_ nofun, fun _ => trivial⟩
    rw [hpushed, hyielded]
    exact ⟨List.Sublist.refl [], List.Pairwise.nil, nofun, nofun⟩
  | some channels =>
    change (Faithful (Observed.turned { o with run := o.run.withChannels channels }) ↔ _) ∧
      (_ → Tracked (Observed.turned { o with run := o.run.withChannels channels }))
    have hsame := failed_subscribed hsub
    cases hfailed : o.run.failed? with
    | some name =>
      obtain ⟨hpushed, hyielded, hdone⟩ := h
      have hname := List.mem_of_find?_eq_some hfailed
      have hlen : (o.run.withChannels channels).done.length <
          (o.run.withChannels channels).names.length := by
        change o.run.done.length < o.run.names.length
        rw [hdone]
        exact List.length_pos_of_mem hname
      obtain ⟨err, hturn⟩ := turn_failed hlen (subscribe_spec hsub).1 (hsame.trans hfailed)
      unfold Observed.turned
      rw [hturn, Option.toList_none, hpushed, hyielded]
      exact ⟨iff_of_true ⟨List.Sublist.refl [], List.Pairwise.nil, fun _ => rfl, nofun⟩ nofun,
        fun _ => trivial⟩
    | none =>
      by_cases hempty : ∀ e, ¬o.run.holds e
      · have hrun := Running.start h hsub hempty
        obtain ⟨hiff, htracked⟩ := hrun.turned
        refine ⟨iff_of_true (hiff.mpr ?_) (fun _ _ => hempty), fun _ => htracked⟩
        exact noneOvertaken_of_none (hsame.trans hfailed)
      · obtain ⟨e, hheld⟩ := not_forall_not.mp hempty
        have hstale := Tracked.stale h hsub hfailed hheld
        refine ⟨iff_of_false hstale (fun hclear => ?_), fun hfaithful => absurd hfaithful hstale⟩
        exact hempty (hclear rfl rfl)

theorem Observed.step_still {ev : InterleaveEvent α ε} (hrun : o.run.step ev = (o.run, none))
    (hpush : o.pushedBy ev = []) (hfail : o.failedBy ev = o.failedAt) : o.step ev = o := by
  unfold Observed.step
  rw [hrun, hpush, hfail, List.append_nil, Option.toList_none, List.append_nil]

theorem Tracked.faithful_produce (h : Tracked o) (hfaithful : Faithful o)
    (op : ProducerOp α ε) :
    Faithful (o.step (.produce op)) ∧ Tracked (o.step (.produce op)) := by
  cases hphase : o.run.phase.running with
  | true =>
    have hrun : ∃ pending, Running o pending := by
      unfold Tracked at h
      cases hcase : o.run.phase with
      | suspended => rwa [hcase] at h
      | pumping => rwa [hcase] at h
      | _ =>
        rw [hcase] at hphase
        cases hphase
    obtain ⟨pending, hrun⟩ := hrun
    obtain ⟨pending', hrun'⟩ := hrun.produced hphase op
    have hsame : (o.step (.produce op)).run.phase = o.run.phase := rfl
    refine ⟨hrun'.faithful ?_ ?_, ?_⟩
    · rw [hsame]
      rintro heq
      rw [heq] at hphase
      cases hphase
    · intro name err heq
      rw [hsame.symm.trans heq] at hphase
      cases hphase
    · unfold Tracked
      rw [hsame]
      cases hcase : o.run.phase with
      | suspended => exact ⟨pending', hrun'⟩
      | pumping => exact ⟨pending', hrun'⟩
      | _ =>
        rw [hcase] at hphase
        cases hphase
  | false =>
    have hpush : o.pushedBy (.produce op) = [] := by
      cases op with
      | push name item => simp [Observed.pushedBy, hphase]
      | _ => rfl
    have hfail : o.failedBy (.produce op) = o.failedAt := by
      cases op with
      | fail name err => simp [Observed.failedBy, hphase]
      | _ => rfl
    have hstep : o.step (.produce op) =
        { o with run := { o.run with projections := o.run.projections.produce op } } := by
      unfold Observed.step
      rw [hpush, hfail]
      simp [Interleave.step]
    rw [hstep]
    refine ⟨⟨hfaithful.merged, hfaithful.ordered, hfaithful.complete, hfaithful.error⟩, ?_⟩
    unfold Tracked at h ⊢
    cases hcase : o.run.phase with
    | fresh =>
      rw [hcase] at h
      exact h
    | suspended =>
      rw [hcase] at hphase
      cases hphase
    | pumping =>
      rw [hcase] at hphase
      cases hphase
    | _ => trivial

theorem Tracked.faithful_abandon (h : Tracked o) (hfaithful : Faithful o) :
    Faithful (o.step .abandon) ∧ Tracked (o.step .abandon) := by
  have hstop {s : Interleave α ε} (habandoned : s.phase = .abandoned)
      (hstep : o.run.step .abandon = (s, none)) :
      Faithful (o.step .abandon) ∧ Tracked (o.step .abandon) := by
    have hends : o.step .abandon = ⟨s, o.pushed, o.yielded, o.failedAt⟩ := by
      unfold Observed.step
      rw [hstep, Option.toList_none, List.append_nil,
        show o.pushedBy .abandon = [] from rfl, List.append_nil]
      rfl
    rw [hends]
    refine ⟨⟨hfaithful.merged, hfaithful.ordered, fun heq => ?_, fun name err heq => ?_⟩, ?_⟩
    · cases habandoned.symm.trans heq
    · cases habandoned.symm.trans heq
    · unfold Tracked
      rw [habandoned]
      trivial
  cases hphase : o.run.phase with
  | fresh =>
    apply hstop (s := { o.run with phase := .abandoned }) rfl
    simp [Interleave.step, hphase]
  | suspended =>
    apply hstop (s := o.run.release .abandoned) rfl
    simp [Interleave.step, hphase]
  | pumping =>
    apply hstop (s := o.run.release .abandoned) rfl
    simp [Interleave.step, hphase]
  | _ =>
    have hstill : o.step .abandon = o :=
      Observed.step_still (by simp [Interleave.step, hphase]) rfl rfl
    rw [hstill]
    exact ⟨hfaithful, h⟩

theorem Observed.step_answer (o : Observed α ε) (more : Bool) :
    o.step (.answer more) = ⟨(o.run.step (.answer more)).1, o.pushed,
      o.yielded ++ (o.run.step (.answer more)).2.toList, o.failedAt⟩ := by
  unfold Observed.step
  rw [show o.pushedBy (.answer more) = [] from rfl, List.append_nil]
  rfl

theorem retiring_nil_iff : (∃ name ∈ o.run.names, retiring o.run.channels o.run.done name = true) ↔
    o.run.names.filter (retiring o.run.channels o.run.done) ≠ [] := by
  rw [ne_eq, List.filter_eq_nil_iff]
  simp

-- The pump has answered False: the generator retires what is closed, or gives up.
theorem Running.unanswered (h : Running o pending) (hphase : o.run.phase = .pumping) :
    (Faithful (o.step (.answer false)) ↔ Clear o (.answer false)) ∧
      Tracked (o.step (.answer false)) := by
  rw [Observed.step_answer]
  simp only [Interleave.step, hphase, Clear, Bool.false_eq_true, if_false, true_implies]
  cases hfailed : o.run.failed? with
  | some name =>
    obtain ⟨err, hscan⟩ := @scan_error _ _ o.run.channels o.run.names o.run.done none name
      h.distinct hfailed
    rw [hscan, Option.toList_none, List.append_nil]
    refine ⟨(h.faithful_raised hfailed).trans ?_, trivial⟩
    simp
  | none =>
    rw [h.scan_ok hfailed]
    simp only [List.length_append, Nat.add_eq_left, List.length_eq_zero_iff]
    have hclear := noneOvertaken_of_none hfailed
    rw [retiring_nil_iff, h.unheld_iff]
    split
    · rename_i hnone
      rw [Option.toList_none, List.append_nil]
      refine ⟨h.faithful_finished.trans ?_, trivial⟩
      simp [hnone, hclear]
    · rename_i hsome
      have hretired := h.retire
      obtain ⟨hiff, htracked⟩ := hretired.turned
      refine ⟨iff_of_true (hiff.mpr ?_) ⟨hclear, fun _ => Or.inl hsome⟩, htracked⟩
      apply noneOvertaken_of_none
      refine List.find?_eq_none.mpr (fun name hname hfailing => ?_)
      obtain ⟨hdone, hany⟩ := of_decide_eq_true hfailing
      refine List.find?_eq_none.mp hfailed name hname (decide_eq_true ⟨fun hmem => ?_, hany⟩)
      exact hdone (List.mem_append_left _ hmem)

theorem Tracked.faithful_step (h : Tracked o) (hfaithful : Faithful o) (ev : InterleaveEvent α ε) :
    (Faithful (o.step ev) ↔ Clear o ev) ∧ (Faithful (o.step ev) → Tracked (o.step ev)) := by
  cases ev with
  | produce op =>
    obtain ⟨hproduce, htracked⟩ := h.faithful_produce hfaithful op
    exact ⟨iff_of_true hproduce trivial, fun _ => htracked⟩
  | resume =>
    cases hphase : o.run.phase with
    | fresh =>
      unfold Tracked at h
      rw [hphase] at h
      exact Tracked.start hphase h
    | suspended =>
      unfold Tracked at h
      rw [hphase] at h
      obtain ⟨pending, hrun⟩ := h
      obtain ⟨hiff, htracked⟩ := hrun.turned
      rw [Observed.step_resume]
      simp only [Interleave.step, hphase, Clear]
      exact ⟨hiff, fun _ => htracked⟩
    | _ =>
      have hstill : o.step .resume = o :=
        Observed.step_still (by simp [Interleave.step, hphase]) rfl rfl
      rw [hstill]
      simp only [Clear, hphase]
      exact ⟨iff_of_true hfaithful trivial, fun _ => h⟩
  | answer more =>
    cases hphase : o.run.phase with
    | pumping =>
      unfold Tracked at h
      rw [hphase] at h
      obtain ⟨pending, hrun⟩ := h
      cases more with
      | true =>
        obtain ⟨hiff, htracked⟩ := hrun.turned
        rw [Observed.step_answer]
        simp only [Interleave.step, hphase, Clear, if_true]
        refine ⟨hiff.trans ?_, fun _ => htracked⟩
        simp
      | false =>
        obtain ⟨hiff, htracked⟩ := hrun.unanswered hphase
        exact ⟨hiff, fun _ => htracked⟩
    | _ =>
      have hstill : o.step (.answer more) = o :=
        Observed.step_still (by simp [Interleave.step, hphase]) rfl rfl
      rw [hstill]
      simp only [Clear, hphase]
      exact ⟨iff_of_true hfaithful trivial, fun _ => h⟩
  | abandon =>
    obtain ⟨habandon, htracked⟩ := h.faithful_abandon hfaithful
    exact ⟨iff_of_true habandon trivial, fun _ => htracked⟩

theorem Tracked.init (projections : Projections α ε) (names : List String) :
    Tracked (.init projections names) := ⟨rfl, rfl, rfl⟩

end Tracked

theorem interleave_faithful (projections : Projections α ε) (names : List String)
    (events : List (InterleaveEvent α ε)) :
    Always Observed.step Faithful (.init projections names) events ↔
      EachStep Observed.step Clear (.init projections names) events := by
  refine always_iff_eachStep (fun o ev h hfaithful => (h.faithful_step hfaithful ev).1)
    (fun o ev h hfaithful => (h.faithful_step hfaithful ev).2) events
    (Tracked.init projections names) ?_
  exact ⟨List.Sublist.refl [], List.Pairwise.nil, nofun, nofun⟩

def openChannels (names : List String) : Projections Nat String :=
  ⟨Dict.ofList (names.map (fun name => (name, ItemChannel.init))), 0⟩

-- The last call of the pump brings an item and closes or fails the channels.
theorem interleave_loses_last :
    let closed := run Observed.step (.init (openChannels ["values"]) ["values"])
      [.resume, .produce (.push "values" 7), .produce (.close "values"), .answer false]
    let failed := run Observed.step
      (.init (openChannels ["messages", "values"]) ["messages", "values"])
      [.resume, .produce (.push "values" 7), .produce (.fail "messages" "boom"),
        .produce (.fail "values" "boom"), .answer false]
    (closed.run.phase = .finished ∧ closed.pushed = [(1, "values", 7)] ∧ closed.yielded = []) ∧
      failed.run.phase = .raised "messages" "boom" ∧ failed.pushed = [(1, "values", 7)] ∧
        failed.failedAt.get? "messages" = some 1 ∧ failed.yielded = [] := by
  decide +kernel

end Stream

end LangGraph

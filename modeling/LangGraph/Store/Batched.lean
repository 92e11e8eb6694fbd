import LangGraph.Collections.Upsert
import LangGraph.Transition.Run
import Mathlib.Data.List.Forall2

namespace LangGraph

open Collections Transition

namespace Store

-- `read` stands for GetOp, SearchOp and ListNamespacesOp; a put of `none` deletes.
inductive Op (Read Key V : Type) where
  | read (op : Read)
  | put (putkey : Key) (value : Option V)

namespace Op

variable {Read Key V : Type}

def isRead : Op Read Key V → Bool
  | .read _ => true
  | .put _ _ => false

def equals [BEq Read] (op : Read) : Op Read Key V → Bool
  | .read held => held == op
  | .put _ _ => false

def puts (ops : List (Op Read Key V)) : List (Key × Option V) :=
  ops.filterMap (fun op =>
    match op with
    | .read _ => none
    | .put k v => some (k, v))

theorem puts_append (ops ops' : List (Op Read Key V)) : puts (ops ++ ops') = puts ops ++ puts ops' :=
  List.filterMap_append

theorem mem_puts {k : Key} {v : Option V} {ops : List (Op Read Key V)} :
    (k, v) ∈ puts ops ↔ .put k v ∈ ops := by
  rw [puts, List.mem_filterMap]
  constructor
  · rintro ⟨op, hop, heq⟩
    cases op with
    | read r => cases heq
    | put k' v' =>
      cases heq
      exact hop
  · exact fun h => ⟨_, h, rfl⟩

end Op

structure Dedupe (Read Key V : Type) where
  listen : List Nat
  dedupped : List (Op Read Key V)
  puts : Dict Key Nat

section Dedupe

variable {Read Key V : Type} [BEq Read] [DecidableEq Key]

def Dedupe.add (d : Dedupe Read Key V) : Op Read Key V → Dedupe Read Key V
  | .read op =>
      match d.dedupped.findIdx? (Op.equals op) with
      | some ix => { d with listen := d.listen ++ [ix] }
      | none => { d with
          listen := d.listen ++ [d.dedupped.length]
          dedupped := d.dedupped ++ [.read op] }
  | .put putkey value =>
      match d.puts.get? putkey with
      | some ix => { d with
          dedupped := d.dedupped.set ix (.put putkey value)
          listen := d.listen ++ [ix] }
      | none =>
          { puts := d.puts.set putkey d.dedupped.length
            listen := d.listen ++ [d.dedupped.length]
            dedupped := d.dedupped ++ [.put putkey value] }

def dedupeOps (values : List (Op Read Key V)) : Option (List Nat) × List (Op Read Key V) :=
  if values.length ≤ 1 then (none, values)
  else
    let d := values.foldl Dedupe.add ⟨[], [], ∅⟩
    (some d.listen, d.dedupped)

theorem Forall₂.concat {α β : Type} {R : α → β → Prop} {as : List α} {bs : List β} {a : α} {b : β}
    (h : List.Forall₂ R as bs) (hab : R a b) : List.Forall₂ R (as ++ [a]) (bs ++ [b]) :=
  List.rel_append h (.cons hab .nil)

def Op.Like : Op Read Key V → Op Read Key V → Prop
  | .read held, .read op => held = op ∨ (held == op) = true
  | .put k _, .put k' _ => k = k'
  | _, _ => False

structure Dedupe.Sound (values : List (Op Read Key V)) (d : Dedupe Read Key V) : Prop where
  listened : List.Forall₂ (fun op ix => ∃ held, d.dedupped[ix]? = some held ∧ Op.Like held op)
    values d.listen
  puts : ∀ k ix, d.puts.get? k = some ix ↔ ∃ v, d.dedupped[ix]? = some (.put k v)
  last : ∀ k v, .put k v ∈ d.dedupped ↔ lastOf k (Op.puts values) = some v

namespace Dedupe.Sound

variable {values : List (Op Read Key V)} {d : Dedupe Read Key V}

omit [BEq Read] in
theorem lastOf_read (k : Key) (op : Read) :
    lastOf k (Op.puts (values ++ [.read op])) = lastOf k (Op.puts values) := by
  rw [Op.puts_append]
  simp [Op.puts]

omit [BEq Read] in
theorem lastOf_put (k k' : Key) (v : Option V) :
    lastOf k (Op.puts (values ++ [.put k' v])) =
      if k' = k then some v else lastOf k (Op.puts values) := by
  have hputs : Op.puts ([.put k' v] : List (Op Read Key V)) = [(k', v)] := rfl
  rw [Op.puts_append, hputs, lastOf, List.reverse_append, List.reverse_singleton,
    List.singleton_append, Dict.firstOf_cons]
  rfl

theorem empty : Sound ([] : List (Op Read Key V)) ⟨[], [], ∅⟩ where
  listened := .nil
  puts := by
    intro k ix
    constructor
    · intro h
      cases h
    · rintro ⟨v, h⟩
      cases h
  last := by
    intro k v
    constructor
    · intro h
      cases h
    · intro h
      cases h

theorem merged {op : Read} {ix : Nat} (h : Sound values d)
    (hix : d.dedupped.findIdx? (Op.equals op) = some ix) :
    Sound (values ++ [.read op]) { d with listen := d.listen ++ [ix] } where
  listened := by
    obtain ⟨hlt, heq, -⟩ := List.findIdx?_eq_some_iff_getElem.mp hix
    refine Forall₂.concat h.listened ⟨d.dedupped[ix], List.getElem?_eq_getElem hlt, ?_⟩
    cases hheld : d.dedupped[ix] with
    | read held =>
      rw [hheld] at heq
      exact Or.inr heq
    | put k v =>
      rw [hheld] at heq
      cases heq
  puts := h.puts
  last := by
    intro k v
    rw [lastOf_read]
    exact h.last k v

theorem listened_append (h : Sound values d) {op op' : Op Read Key V} (hlike : Op.Like op op') :
    List.Forall₂ (fun o ix => ∃ held, (d.dedupped ++ [op])[ix]? = some held ∧ Op.Like held o)
      (values ++ [op']) (d.listen ++ [d.dedupped.length]) := by
  refine Forall₂.concat (h.listened.imp ?_) ⟨op, List.getElem?_concat_length, hlike⟩
  rintro o ix ⟨held, hget, ho⟩
  obtain ⟨hlt, -⟩ := List.getElem?_eq_some_iff.mp hget
  exact ⟨held, (List.getElem?_append_left hlt).trans hget, ho⟩

omit [BEq Read] [DecidableEq Key] in
theorem getElem?_concat_put {ix : Nat} {op : Op Read Key V} {k : Key} {v : Option V} :
    (d.dedupped ++ [op])[ix]? = some (.put k v) ↔
      d.dedupped[ix]? = some (.put k v) ∨ ix = d.dedupped.length ∧ op = .put k v := by
  rw [List.getElem?_append]
  split
  · rename_i hlt
    constructor
    · exact Or.inl
    · rintro (h | ⟨rfl, -⟩)
      · exact h
      · omega
  · rename_i hge
    rw [List.getElem?_singleton]
    have hnone : d.dedupped[ix]? = none := List.getElem?_eq_none (by omega)
    rw [hnone]
    constructor
    · intro h
      split at h
      · exact Or.inr ⟨by omega, Option.some.inj h⟩
      · cases h
    · rintro (h | ⟨rfl, rfl⟩)
      · cases h
      · simp

theorem fresh_read {op : Read} (h : Sound values d) :
    Sound (values ++ [.read op]) { d with
      listen := d.listen ++ [d.dedupped.length]
      dedupped := d.dedupped ++ [.read op] } where
  listened := h.listened_append (Or.inl rfl)
  puts := by
    intro k ix
    rw [h.puts k ix]
    simp only [getElem?_concat_put, reduceCtorEq, and_false, or_false]
  last := by
    intro k v
    rw [lastOf_read, ← h.last k v]
    simp

theorem fresh_put {k : Key} {v : Option V} (h : Sound values d) (hk : d.puts.get? k = none) :
    Sound (values ++ [.put k v])
      { puts := d.puts.set k d.dedupped.length
        listen := d.listen ++ [d.dedupped.length]
        dedupped := d.dedupped ++ [.put k v] } where
  listened := h.listened_append rfl
  puts := by
    intro k' ix
    simp only [getElem?_concat_put, Dict.get?_set, Op.put.injEq]
    by_cases hkk : k' = k
    · subst hkk
      have hno : ∀ w, d.dedupped[ix]? ≠ some (.put k' w) := by
        intro w hw
        rw [(h.puts k' ix).mpr ⟨w, hw⟩] at hk
        cases hk
      simp [hno, eq_comm]
    · simp [hkk, h.puts k' ix, Ne.symm hkk]
  last := by
    intro k' w
    rw [lastOf_put, List.mem_append, List.mem_singleton, h.last k' w, Op.put.injEq]
    by_cases hkk : k' = k
    · subst hkk
      have hno : lastOf k' (Op.puts values) ≠ some w := by
        intro hw
        obtain ⟨ix, hix⟩ := List.mem_iff_getElem?.mp ((h.last k' w).mpr hw)
        rw [(h.puts k' ix).mpr ⟨w, hix⟩] at hk
        cases hk
      simp [hno, eq_comm]
    · simp [hkk, Ne.symm hkk]

theorem getElem?_overwrite {k k' : Key} {v w : Option V} {ix i : Nat} (h : Sound values d)
    (hk : d.puts.get? k = some ix) :
    (d.dedupped.set ix (.put k v))[i]? = some (.put k' w) ↔
      (k' = k ∧ i = ix ∧ w = v) ∨ (k' ≠ k ∧ d.dedupped[i]? = some (.put k' w)) := by
  obtain ⟨u, hu⟩ := (h.puts k ix).mp hk
  obtain ⟨hlt, -⟩ := List.getElem?_eq_some_iff.mp hu
  rw [List.getElem?_set]
  by_cases hi : ix = i
  · subst hi
    rw [if_pos rfl, if_pos hlt, hu]
    simp only [Option.some.injEq, Op.put.injEq]
    grind
  · rw [if_neg hi]
    have hne : d.dedupped[i]? = some (.put k' w) → k' ≠ k := by
      rintro hget rfl
      have heq : some ix = some i := hk.symm.trans ((h.puts k' i).mpr ⟨w, hget⟩)
      exact hi (Option.some.inj heq)
    constructor
    · exact fun hget => Or.inr ⟨hne hget, hget⟩
    · rintro (⟨-, rfl, -⟩ | ⟨-, hget⟩)
      · exact absurd rfl hi
      · exact hget

theorem overwrite {k : Key} {v : Option V} {ix : Nat} (h : Sound values d)
    (hk : d.puts.get? k = some ix) :
    Sound (values ++ [.put k v]) { d with
      dedupped := d.dedupped.set ix (.put k v)
      listen := d.listen ++ [ix] } where
  listened := by
    obtain ⟨u, hu⟩ := (h.puts k ix).mp hk
    obtain ⟨hlt, -⟩ := List.getElem?_eq_some_iff.mp hu
    refine Forall₂.concat (h.listened.imp ?_) ⟨.put k v, by simp [hlt], rfl⟩
    rintro op i ⟨held, hget, hlike⟩
    by_cases hi : ix = i
    · subst hi
      cases Option.some.inj (hu.symm.trans hget)
      refine ⟨.put k v, by simp [hlt], ?_⟩
      cases op with
      | read r => exact hlike
      | put k' w => exact hlike
    · exact ⟨held, by rw [List.getElem?_set, if_neg hi, hget], hlike⟩
  puts := by
    intro k' i
    simp only [h.getElem?_overwrite hk]
    by_cases hkk : k' = k
    · subst hkk
      simp [hk, eq_comm]
    · simp [hkk, h.puts k' i]
  last := by
    intro k' w
    rw [lastOf_put, List.mem_iff_getElem?]
    simp only [h.getElem?_overwrite hk]
    by_cases hkk : k' = k
    · subst hkk
      simp [eq_comm]
    · rw [if_neg (Ne.symm hkk), ← h.last k' w, List.mem_iff_getElem?]
      simp [hkk]

theorem add (h : Sound values d) (op : Op Read Key V) : Sound (values ++ [op]) (d.add op) := by
  cases op with
  | read r =>
    rw [Dedupe.add]
    split
    · rename_i ix hix
      exact h.merged hix
    · exact h.fresh_read
  | put k v =>
    rw [Dedupe.add]
    split
    · rename_i ix hix
      exact h.overwrite hix
    · rename_i hnone
      exact h.fresh_put hnone

theorem foldl (ops : List (Op Read Key V)) (h : Sound values d) :
    Sound (values ++ ops) (ops.foldl Dedupe.add d) := by
  induction ops generalizing values d with
  | nil => simpa using h
  | cons op ops ih => simpa using ih (h.add op)

theorem lastOf_dedupped (h : Sound values d) (k : Key) :
    lastOf k (Op.puts d.dedupped) = lastOf k (Op.puts values) := by
  cases hl : lastOf k (Op.puts d.dedupped) with
  | none =>
    symm
    cases hv : lastOf k (Op.puts values) with
    | none => rfl
    | some v =>
      have hmem := Op.mem_puts.mpr ((h.last k v).mpr hv)
      exact absurd rfl (Dict.lastOf_eq_none.mp hl _ hmem)
  | some v =>
    exact ((h.last k v).mp (Op.mem_puts.mp (Dict.mem_of_lastOf hl))).symm

end Dedupe.Sound

theorem dedupeOps_cases (values : List (Op Read Key V)) :
    dedupeOps values = (none, values) ∨
      ∃ d, Dedupe.Sound values d ∧ dedupeOps values = (some d.listen, d.dedupped) := by
  rw [dedupeOps]
  split
  · exact Or.inl rfl
  · exact Or.inr ⟨_, Dedupe.Sound.empty.foldl values, rfl⟩

end Dedupe

inductive BatchError (E : Type) where
  | raised (e : E)
  | indexError

inductive Fut (R E : Type) where
  | pending
  | cancelled
  | result (r : R)
  | exception (e : BatchError E)

namespace Fut

variable {R E : Type}

def done : Fut R E → Bool
  | .pending => false
  | _ => true

def settle (outcome held : Fut R E) : Fut R E := if held.done then held else outcome

theorem settle_of_done {outcome held : Fut R E} (h : held.done = true) :
    settle outcome held = held := if_pos h

theorem settle_of_pending (outcome : Fut R E) : settle outcome .pending = outcome := rfl

end Fut

structure Background (Read Key V S R E : Type) where
  store : S
  aqueue : List (Nat × Op Read Key V)
  running : Option (List (Nat × Op Read Key V))
  futs : List (Fut R E)

inductive BackgroundEvent (Read Key V : Type) where
  | submit (op : Op Read Key V)
  | cancel (fut : Nat)
  | gather
  | finish

namespace Background

variable {Read Key V S R E : Type}

def init (store : S) : Background Read Key V S R E := ⟨store, [], none, []⟩

def isDone (s : Background Read Key V S R E) (i : Nat) : Bool :=
  match s.futs[i]? with
  | some f => f.done
  | none => false

def waiting (s : Background Read Key V S R E) : List Nat := s.aqueue.map Prod.fst

def items (s : Background Read Key V S R E) : List (Nat × Op Read Key V) := s.running.getD []

def gather (s : Background Read Key V S R E) : Background Read Key V S R E :=
  let items := s.aqueue.filter (fun item => !s.isDone item.1)
  { s with aqueue := [], running := if items.isEmpty then none else some items }

def settleAll (futs : List (Fut R E)) (outcomes : List (Nat × Fut R E)) : List (Fut R E) :=
  outcomes.foldl (fun futs o => futs.modify o.1 (Fut.settle o.2)) futs

def redistribute (listen : Option (List Nat)) (results : List R) : Option (List R) :=
  match listen with
  | none => some results
  | some ixs => ixs.mapM (fun ix => results[ix]?)

section Machine

variable [BEq Read] [DecidableEq Key]
variable (abatch : List (Op Read Key V) → S → Except E (List R) × S)

def outcomes (futs : List Nat) (listen : Option (List Nat)) :
    Except E (List R) → List (Nat × Fut R E)
  | .ok results =>
      match redistribute listen results with
      | some results => futs.zip (results.map Fut.result)
      | none => futs.map (fun fut => (fut, .exception .indexError))
  | .error e => futs.map (fun fut => (fut, .exception (.raised e)))

def finish (s : Background Read Key V S R E) (items : List (Nat × Op Read Key V)) :
    Background Read Key V S R E :=
  let (listen, dedupped) := dedupeOps (items.map Prod.snd)
  let (results, store) := abatch dedupped s.store
  { s with
    store
    running := none
    futs := settleAll s.futs (outcomes (items.map Prod.fst) listen results) }

def step (s : Background Read Key V S R E) :
    BackgroundEvent Read Key V → Background Read Key V S R E
  | .submit op => { s with
      aqueue := s.aqueue ++ [(s.futs.length, op)]
      futs := s.futs ++ [.pending] }
  | .cancel fut => { s with futs := s.futs.modify fut (Fut.settle .cancelled) }
  | .gather =>
      match s.running with
      | none => s.gather
      | some _ => s
  | .finish =>
      match s.running with
      | none => s
      | some items => s.finish abatch items

def after (store : S) (es : List (BackgroundEvent Read Key V)) : Background Read Key V S R E :=
  run (step abatch) (init store) es

end Machine

section Settle

theorem settleAll_not_mem {i : Nat} {os : List (Nat × Fut R E)} (h : i ∉ os.map Prod.fst)
    (futs : List (Fut R E)) : (settleAll futs os)[i]? = futs[i]? := by
  induction os generalizing futs with
  | nil => rfl
  | cons o os ih =>
    rw [List.map_cons, List.mem_cons, not_or] at h
    rw [settleAll, List.foldl_cons]
    refine (ih h.2 _).trans ?_
    rw [List.getElem?_modify]
    simp [Ne.symm h.1]

theorem settleAll_done {i : Nat} {f : Fut R E} {futs : List (Fut R E)} (hf : futs[i]? = some f)
    (hdone : f.done = true) (os : List (Nat × Fut R E)) : (settleAll futs os)[i]? = some f := by
  induction os generalizing futs with
  | nil => exact hf
  | cons o os ih =>
    refine ih ?_
    rw [List.getElem?_modify, hf]
    by_cases hi : o.1 = i
    · simp [hi, Fut.settle_of_done hdone]
    · simp [hi]

theorem settleAll_mem {i : Nat} {f o : Fut R E} {os : List (Nat × Fut R E)}
    {futs : List (Fut R E)} (hnodup : (os.map Prod.fst).Nodup) (ho : (i, o) ∈ os)
    (hf : futs[i]? = some f) : (settleAll futs os)[i]? = some (Fut.settle o f) := by
  induction os generalizing futs with
  | nil => cases ho
  | cons o' os ih =>
    rw [List.map_cons, List.nodup_cons] at hnodup
    rcases List.mem_cons.mp ho with rfl | ho
    · refine (settleAll_not_mem hnodup.1 _).trans ?_
      rw [List.getElem?_modify, hf]
      simp
    · refine ih hnodup.2 ho ?_
      have hne : o'.1 ≠ i := fun he => hnodup.1 (he ▸ List.mem_map_of_mem ho)
      rw [List.getElem?_modify, hf]
      simp [hne]

theorem length_settleAll (futs : List (Fut R E)) (os : List (Nat × Fut R E)) :
    (settleAll futs os).length = futs.length := by
  induction os generalizing futs with
  | nil => rfl
  | cons o os ih => exact (ih _).trans (List.length_modify _ _ _)

theorem isDone_iff {s : Background Read Key V S R E} {i : Nat} :
    s.isDone i = true ↔ ∃ f, s.futs[i]? = some f ∧ f.done = true := by
  rw [isDone]
  cases s.futs[i]? <;> simp

end Settle

section Done

variable [BEq Read] [DecidableEq Key]
variable {abatch : List (Op Read Key V) → S → Except E (List R) × S}

theorem fut_kept_step {s : Background Read Key V S R E} {i : Nat} {f : Fut R E}
    (hf : s.futs[i]? = some f) (hdone : f.done = true) (e : BackgroundEvent Read Key V) :
    (step abatch s e).futs[i]? = some f := by
  cases e with
  | submit op =>
    obtain ⟨hlt, -⟩ := List.getElem?_eq_some_iff.mp hf
    exact (List.getElem?_append_left hlt).trans hf
  | cancel j =>
    rw [step, List.getElem?_modify, hf]
    by_cases hj : j = i
    · simp [hj, Fut.settle_of_done hdone]
    · simp [hj]
  | gather =>
    rw [step]
    split
    · exact hf
    · exact hf
  | finish =>
    rw [step]
    split
    · exact hf
    · exact settleAll_done hf hdone _

theorem isDone_step {s : Background Read Key V S R E} {i : Nat} (h : s.isDone i = true)
    (e : BackgroundEvent Read Key V) : (step abatch s e).isDone i = true := by
  obtain ⟨f, hf, hdone⟩ := isDone_iff.mp h
  exact isDone_iff.mpr ⟨f, fut_kept_step hf hdone e, hdone⟩

theorem isDone_run {s : Background Read Key V S R E} {i : Nat} (h : s.isDone i = true)
    (es : List (BackgroundEvent Read Key V)) : (run (step abatch) s es).isDone i = true :=
  @run_invariant _ _ (step abatch) (fun s => s.isDone i = true) (fun _ e h => isDone_step h e)
    es _ h

omit [BEq Read] [DecidableEq Key] in
theorem items_gather (s : Background Read Key V S R E) :
    s.gather.items = s.aqueue.filter (fun item => !s.isDone item.1) := by
  rw [gather, items]
  cases s.aqueue.filter (fun item => !s.isDone item.1) <;> rfl

omit [BEq Read] [DecidableEq Key] in
theorem ids_outcomes (ids : List Nat) (listen : Option (List Nat)) (results : Except E (List R)) :
    (outcomes ids listen results).map Prod.fst ⊆ ids := by
  intro i hi
  cases results with
  | error e => simpa [outcomes] using hi
  | ok results =>
    rw [outcomes] at hi
    split at hi
    · obtain ⟨o, ho, rfl⟩ := List.mem_map.mp hi
      exact (List.of_mem_zip ho).1
    · simpa using hi

-- Every future of the queue and of the batch in flight is still awaited or cancelled.
structure Tidy (s : Background Read Key V S R E) : Prop where
  nodup : ((s.items ++ s.aqueue).map Prod.fst).Nodup
  awaited : ∀ i ∈ (s.items ++ s.aqueue).map Prod.fst,
    s.futs[i]? = some .pending ∨ s.futs[i]? = some .cancelled

namespace Tidy

variable {s : Background Read Key V S R E}

omit [BEq Read] [DecidableEq Key] in
theorem lt_length (h : Tidy s) {i : Nat} (hi : i ∈ (s.items ++ s.aqueue).map Prod.fst) :
    i < s.futs.length := by
  rcases h.awaited i hi with hf | hf
  · exact (List.getElem?_eq_some_iff.mp hf).1
  · exact (List.getElem?_eq_some_iff.mp hf).1

theorem submit (h : Tidy s) (op : Op Read Key V) : Tidy (step abatch s (.submit op)) where
  nodup := by
    have hids : ((step abatch s (.submit op)).items ++ (step abatch s (.submit op)).aqueue).map
        Prod.fst = (s.items ++ s.aqueue).map Prod.fst ++ [s.futs.length] := by
      simp [step, items]
    rw [hids]
    refine h.nodup.append (List.nodup_singleton _) ?_
    intro i hi hn
    cases List.mem_singleton.mp hn
    exact absurd (h.lt_length hi) (Nat.lt_irrefl _)
  awaited := by
    intro i hi
    have hids : ((step abatch s (.submit op)).items ++ (step abatch s (.submit op)).aqueue).map
        Prod.fst = (s.items ++ s.aqueue).map Prod.fst ++ [s.futs.length] := by
      simp [step, items]
    have hfuts : (step abatch s (.submit op)).futs = s.futs ++ [.pending] := rfl
    rw [hids, List.mem_append, List.mem_singleton] at hi
    rw [hfuts]
    rcases hi with hi | rfl
    · rw [List.getElem?_append_left (h.lt_length hi)]
      exact h.awaited i hi
    · exact Or.inl List.getElem?_concat_length

theorem cancel (h : Tidy s) (fut : Nat) : Tidy (step abatch s (.cancel fut)) where
  nodup := h.nodup
  awaited := by
    intro i hi
    rw [step, List.getElem?_modify]
    rcases h.awaited i hi with hf | hf
    · rw [hf]
      by_cases hfut : fut = i
      · exact Or.inr (by simp [hfut, Fut.settle_of_pending])
      · exact Or.inl (by simp [hfut])
    · rw [hf]
      refine Or.inr ?_
      by_cases hfut : fut = i
      · simp [hfut, Fut.settle, Fut.done]
      · simp [hfut]

omit [BEq Read] [DecidableEq Key] in
theorem gathered (h : Tidy s) (hidle : s.running = none) : Tidy s.gather := by
  have hnone : s.items = [] := by
    rw [items, hidle]
    rfl
  have hsub : (s.gather.items ++ s.gather.aqueue).Sublist (s.items ++ s.aqueue) := by
    have hqueue : s.gather.aqueue = [] := rfl
    rw [hqueue, hnone, List.append_nil, List.nil_append, items_gather]
    exact List.filter_sublist
  exact ⟨h.nodup.sublist (hsub.map Prod.fst),
    fun i hi => h.awaited i ((hsub.map Prod.fst).subset hi)⟩

theorem finished (h : Tidy s) {batch : List (Nat × Op Read Key V)} (hrunning : s.running = some batch) :
    Tidy (s.finish abatch batch) := by
  have hitems : s.items = batch := by
    rw [items, hrunning]
    rfl
  have hids : ((s.finish abatch batch).items ++ (s.finish abatch batch).aqueue).map Prod.fst =
      s.aqueue.map Prod.fst := rfl
  have hnodup := h.nodup
  rw [hitems, List.map_append] at hnodup
  refine ⟨by rw [hids]; exact (List.nodup_append.mp hnodup).2.1, fun i hi => ?_⟩
  rw [hids] at hi
  have hnot : i ∉ batch.map Prod.fst := fun hin =>
    (List.nodup_append.mp hnodup).2.2 i hin i hi rfl
  have hold := h.awaited i (by rw [List.map_append, List.mem_append]; exact Or.inr hi)
  have hkept : (s.finish abatch batch).futs[i]? = s.futs[i]? := by
    refine settleAll_not_mem (fun hin => hnot ?_) _
    exact ids_outcomes _ _ _ hin
  rw [hkept]
  exact hold

theorem step (h : Tidy s) (e : BackgroundEvent Read Key V) : Tidy (step abatch s e) := by
  cases e with
  | submit op => exact h.submit op
  | cancel i => exact h.cancel i
  | gather =>
    cases hrunning : s.running with
    | none =>
      have hstep : Background.step abatch s .gather = s.gather := by
        rw [Background.step, hrunning]
      rw [hstep]
      exact h.gathered hrunning
    | some batch =>
      have hstep : Background.step abatch s .gather = s := by
        rw [Background.step, hrunning]
      rw [hstep]
      exact h
  | finish =>
    cases hrunning : s.running with
    | none =>
      have hstep : Background.step abatch s .finish = s := by
        rw [Background.step, hrunning]
      rw [hstep]
      exact h
    | some batch =>
      have hstep : Background.step abatch s .finish = s.finish abatch batch := by
        rw [Background.step, hrunning]
      rw [hstep]
      exact h.finished hrunning

theorem after (store : S) (es : List (BackgroundEvent Read Key V)) :
    Tidy (Background.after abatch store es) :=
  run_invariant (fun _ e h => h.step e) es ⟨List.nodup_nil, by simp [items, init]⟩

end Tidy

end Done

end Background

end Store

end LangGraph

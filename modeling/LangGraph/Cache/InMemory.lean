import LangGraph.Collections.Dict
import LangGraph.Collections.Expiring
import LangGraph.Transition.Run
import Mathlib.Order.Monotone.Defs
import Mathlib.Data.Int.ConditionallyCompleteOrder
import Mathlib.Order.ConditionallyCompleteLattice.Basic

namespace LangGraph

open Collections Transition

namespace Cache

abbrev Namespace := List String

abbrev FullKey := Namespace × String

abbrev Encoded := String × List UInt8

inductive Raised (Err : Type) where
  | overflowError
  | serde (e : Err)
  deriving DecidableEq

structure SerializerProtocol (V Err : Type) where
  dumpsTyped : V → Except Err Encoded
  loadsTyped : Encoded → Except Err V

-- Microseconds since the epoch, between the years 1 and 9999.
def minUtc : Int := -62135596800000000

def maxUtc : Int := 253402300799999999

def expiryOf {T Err : Type} (timestamp : Int → T) (now : Int) :
    Option Int → Except (Raised Err) (Option T)
  | none => .ok none
  | some ttl =>
      let expiry := now + ttl * 1000000
      if minUtc ≤ expiry ∧ expiry ≤ maxUtc then .ok (some (timestamp expiry))
      else .error .overflowError

abbrev Pairs (V : Type) := Dict FullKey (V × Option Int)

inductive Event (V : Type) where
  | get (now : Int) (keys : List FullKey)
  | set (now : Int) (pairs : Pairs V)
  | clear (namespaces : Option (List Namespace))

section Operations

variable {V Err T : Type}

def encode (serde : SerializerProtocol V Err) (timestamp : Int → T) (now : Int) (value : V)
    (ttl : Option Int) : Except (Raised Err) (Timed Encoded T) :=
  match expiryOf timestamp now ttl with
  | .error e => .error e
  | .ok expiry =>
      match serde.dumpsTyped value with
      | .error e => .error (.serde e)
      | .ok enc => .ok ⟨enc, expiry⟩

end Operations

structure InMemoryCache (T : Type) where
  cache : Dict Namespace (Dict String (Timed Encoded T))

namespace InMemoryCache

section Operations

variable {V Err T : Type}

def empty : InMemoryCache T := ⟨∅⟩

def entry (c : InMemoryCache T) : TimedStore FullKey Encoded T :=
  fun k => (c.cache.get? k.1).bind (fun d => d.get? k.2)

def delete (c : InMemoryCache T) (k : FullKey) : InMemoryCache T :=
  match c.cache.get? k.1 with
  | none => c
  | some d => ⟨c.cache.set k.1 (d.filter (fun key _ => key ≠ k.2))⟩

def touch (c : InMemoryCache T) (ns : Namespace) : InMemoryCache T :=
  if c.cache.contains ns then c else ⟨c.cache.set ns ∅⟩

def store (c : InMemoryCache T) (k : FullKey) (e : Timed Encoded T) : InMemoryCache T :=
  ⟨c.cache.set k.1 ((c.cache.getD k.1 ∅).set k.2 e)⟩

variable [LT T] [DecidableLT T]

def alive (now expiry : T) : Bool := decide (now < expiry)

def getLoop (serde : SerializerProtocol V Err) (now : T) :
    List FullKey → InMemoryCache T → Dict FullKey V →
      InMemoryCache T × Except (Raised Err) (Dict FullKey V)
  | [], c, values => (c, .ok values)
  | k :: ks, c, values =>
      match c.entry k with
      | none => getLoop serde now ks c values
      | some e =>
          if TimedStore.fresh alive now e then
            match serde.loadsTyped e.value with
            | .error err => (c, .error (.serde err))
            | .ok v => getLoop serde now ks c (values.set k v)
          else getLoop serde now ks (c.delete k) values

def get (serde : SerializerProtocol V Err) (timestamp : Int → T) (now : Int)
    (keys : List FullKey) (c : InMemoryCache T) :
    InMemoryCache T × Except (Raised Err) (Dict FullKey V) :=
  if keys = [] then (c, .ok ∅) else getLoop serde (timestamp now) keys c ∅

def setLoop (serde : SerializerProtocol V Err) (timestamp : Int → T) (now : Int) :
    List (FullKey × V × Option Int) → InMemoryCache T →
      InMemoryCache T × Except (Raised Err) Unit
  | [], c => (c, .ok ())
  | (k, value, ttl) :: pairs, c =>
      match expiryOf timestamp now ttl with
      | .error e => (c, .error e)
      | .ok expiry =>
          match serde.dumpsTyped value with
          | .error e => (c.touch k.1, .error (.serde e))
          | .ok enc => setLoop serde timestamp now pairs ((c.touch k.1).store k ⟨enc, expiry⟩)

def set (serde : SerializerProtocol V Err) (timestamp : Int → T) (now : Int) (pairs : Pairs V)
    (c : InMemoryCache T) : InMemoryCache T × Except (Raised Err) Unit :=
  setLoop serde timestamp now pairs.items c

def clear (namespaces : Option (List Namespace)) (c : InMemoryCache T) : InMemoryCache T :=
  match namespaces with
  | none => ⟨∅⟩
  | some nss => ⟨nss.foldl (fun d ns => d.filter (fun n _ => n ≠ ns)) c.cache⟩

def step (serde : SerializerProtocol V Err) (timestamp : Int → T) (c : InMemoryCache T) :
    Event V → InMemoryCache T
  | .get now keys => (c.get serde timestamp now keys).1
  | .set now pairs => (c.set serde timestamp now pairs).1
  | .clear namespaces => c.clear namespaces

end Operations

end InMemoryCache

section History

variable {V Err T : Type}

def encodedPairs (serde : SerializerProtocol V Err) (timestamp : Int → T) (now : Int) :
    List (FullKey × V × Option Int) → List (FullKey × Timed Encoded T)
  | [] => []
  | (k, value, ttl) :: pairs =>
      match encode serde timestamp now value ttl with
      | .error _ => []
      | .ok e => (k, e) :: encodedPairs serde timestamp now pairs

def Event.leaves (serde : SerializerProtocol V Err) (timestamp : Int → T) (k : FullKey) :
    Event V → Option (Option (Timed Encoded T))
  | .get _ _ => none
  | .set now pairs => (Dict.lookup k (encodedPairs serde timestamp now pairs.items)).map some
  | .clear none => some none
  | .clear (some nss) => if nss.contains k.1 then some none else none

-- What the last set or clear of a key left there, whatever was read since.
def held (serde : SerializerProtocol V Err) (timestamp : Int → T) (events : List (Event V)) :
    TimedStore FullKey Encoded T :=
  fun k => (events.reverse.findSome? (Event.leaves serde timestamp k)).join

end History

def answer {V Err : Type} (serde : SerializerProtocol V Err)
    (read : FullKey → Option Encoded) :
    List FullKey → Dict FullKey V → Except (Raised Err) (Dict FullKey V)
  | [], values => .ok values
  | k :: ks, values =>
      match read k with
      | none => answer serde read ks values
      | some enc =>
          match serde.loadsTyped enc with
          | .error err => .error (.serde err)
          | .ok v => answer serde read ks (values.set k v)

-- The instants of the reads; those of the sets are free.
def Event.readAt {V : Type} : Event V → Option Int
  | .get now _ => some now
  | _ => none

namespace InMemoryCache

section Entries

variable {T : Type} {c : InMemoryCache T} {k k' : FullKey} {e : Timed Encoded T}

theorem entry_touch (c : InMemoryCache T) (ns : Namespace) (k : FullKey) :
    (c.touch ns).entry k = c.entry k := by
  rw [touch]
  split_ifs with hns
  · rfl
  · have hnone : c.cache.get? ns = none := by
      cases hg : c.cache.get? ns with
      | none => rfl
      | some d => exact absurd (by rw [Dict.contains, hg]; rfl) hns
    by_cases hk : k.1 = ns
    · simp only [entry, hk, Dict.get?_set_self, hnone]
      rfl
    · simp only [entry, Dict.get?_set_ne _ hk]

theorem entry_store (c : InMemoryCache T) (k : FullKey) (e : Timed Encoded T) :
    (c.store k e).entry = TimedStore.write c.entry k e := by
  funext k'
  by_cases hk : k' = k
  · subst hk
    simp only [entry, store, TimedStore.write, Dict.get?_set_self, Function.update_self,
      Option.bind_some]
  · rw [TimedStore.write, Function.update_of_ne hk]
    by_cases hns : k'.1 = k.1
    · have hkey : k'.2 ≠ k.2 := fun h => hk (Prod.ext hns h)
      simp only [entry, store, hns, Dict.get?_set_self, Option.bind_some, Dict.get?_set_ne _ hkey]
      cases hd : c.cache.get? k.1 with
      | none => rw [Dict.getD_of_none hd]; rfl
      | some d => rw [Dict.getD_of_get? hd]; rfl
    · simp only [entry, store, Dict.get?_set_ne _ hns]

theorem entry_delete (c : InMemoryCache T) (k : FullKey) :
    (c.delete k).entry = TimedStore.drop (fun k' => k' = k) c.entry := by
  funext k'
  rw [TimedStore.drop, delete]
  cases hd : c.cache.get? k.1 with
  | none =>
    split_ifs with hk
    · rw [of_decide_eq_true hk, entry, hd]
      rfl
    · rfl
  | some d =>
    by_cases hns : k'.1 = k.1
    · simp only [entry, hns, Dict.get?_set_self, Option.bind_some, Dict.get?_filter_ne, hd]
      by_cases hkey : k'.2 = k.2
      · have hk : k' = k := Prod.ext hns hkey
        simp [hk]
      · have hk : k' ≠ k := fun h => hkey (by rw [h])
        simp [hkey, hk]
    · have hk : k' ≠ k := fun h => hns (by rw [h])
      simp [entry, Dict.get?_set_ne _ hns, hk]

theorem get?_dropAll (nss : List Namespace) (d : Dict Namespace (Dict String (Timed Encoded T)))
    (ns : Namespace) :
    (nss.foldl (fun d ns => d.filter (fun n _ => n ≠ ns)) d).get? ns =
      if ns ∈ nss then none else d.get? ns := by
  induction nss generalizing d with
  | nil => simp
  | cons n nss ih =>
    rw [List.foldl_cons, ih, Dict.get?_filter_ne]
    by_cases hns : ns = n
    · simp [hns]
    · simp [hns]

theorem entry_clear (namespaces : Option (List Namespace)) (c : InMemoryCache T) :
    (c.clear namespaces).entry =
      TimedStore.drop (fun k => namespaces.all (fun nss => k.1 ∈ nss)) c.entry := by
  funext k
  cases namespaces with
  | none => rfl
  | some nss =>
    simp only [clear, entry, get?_dropAll, TimedStore.drop, Option.all_some]
    by_cases hk : k.1 ∈ nss <;> simp [hk]

end Entries

end InMemoryCache

section History

variable {V Err T : Type} (serde : SerializerProtocol V Err) (timestamp : Int → T)

theorem held_concat (events : List (Event V)) (e : Event V) (k : FullKey) :
    held serde timestamp (events ++ [e]) k =
      (e.leaves serde timestamp k).getD (held serde timestamp events k) := by
  rw [held, held, List.reverse_concat, List.findSome?_cons]
  cases e.leaves serde timestamp k <;> rfl

omit serde timestamp in
theorem reads_concat {events : List (Event V)} {e : Event V} {now : Int}
    (h : ((events ++ [e]).filterMap Event.readAt ++ [now]).Pairwise (· ≤ ·)) :
    (events.filterMap Event.readAt ++ [now]).Pairwise (· ≤ ·) ∧
      ∀ read, e.readAt = some read →
        read ≤ now ∧ (events.filterMap Event.readAt ++ [read]).Pairwise (· ≤ ·) := by
  rw [List.filterMap_append, List.pairwise_append, List.pairwise_append] at h
  obtain ⟨⟨hreads, -, hnew⟩, -, hlast⟩ := h
  constructor
  · refine List.pairwise_append.mpr ⟨hreads, List.pairwise_singleton _ _, fun a ha => ?_⟩
    exact hlast a (List.mem_append_left _ ha)
  · intro read he
    have hmem : read ∈ [e].filterMap Event.readAt := by simp [he]
    refine ⟨hlast read (List.mem_append_right _ hmem) now (List.mem_singleton_self now), ?_⟩
    refine List.pairwise_append.mpr ⟨hreads, List.pairwise_singleton _ _, fun a ha b hb => ?_⟩
    rw [List.mem_singleton.mp hb]
    exact hnew a ha read hmem

theorem keys_encodedPairs_sublist (now : Int) (pairs : List (FullKey × V × Option Int)) :
    ((encodedPairs serde timestamp now pairs).map Prod.fst).Sublist (pairs.map Prod.fst) := by
  induction pairs with
  | nil => exact List.Sublist.slnil
  | cons p pairs ih =>
    obtain ⟨k, value, ttl⟩ := p
    rw [encodedPairs]
    cases encode serde timestamp now value ttl with
    | error e => exact List.nil_sublist _
    | ok e => exact ih.cons_cons k

theorem writeAll_apply {l : List (FullKey × Timed Encoded T)} (hl : (l.map Prod.fst).Nodup)
    (s : TimedStore FullKey Encoded T) (k : FullKey) :
    l.foldl (fun s p => s.write p.1 p.2) s k = (Dict.lookup k l).or (s k) := by
  induction l generalizing s with
  | nil => rfl
  | cons p l ih =>
    rw [List.map_cons, List.nodup_cons] at hl
    rw [List.foldl_cons, ih hl.2, Dict.lookup, TimedStore.write]
    by_cases hk : p.1 = k
    · have hrest : Dict.lookup k l = none := by
        rw [← hk]
        exact Dict.lookup_eq_none.mpr hl.1
      rw [hrest, if_pos hk, ← hk, Function.update_self]
      rfl
    · rw [if_neg hk, Function.update_of_ne (Ne.symm hk)]

theorem answer_congr {read read' : FullKey → Option Encoded} {keys : List FullKey}
    (h : ∀ k ∈ keys, read k = read' k) (values : Dict FullKey V) :
    answer serde read keys values = answer serde read' keys values := by
  induction keys generalizing values with
  | nil => rfl
  | cons k ks ih =>
    have hrest := ih (fun k' hk' => h k' (List.mem_cons_of_mem k hk'))
    rw [answer, answer, h k List.mem_cons_self]
    cases read' k with
    | none => exact hrest values
    | some enc =>
      simp only
      cases serde.loadsTyped enc with
      | error e => rfl
      | ok v => exact hrest (values.set k v)

end History

namespace InMemoryCache

section Runs

variable {V Err T : Type} (serde : SerializerProtocol V Err) (timestamp : Int → T)

theorem entry_setLoop (now : Int) (pairs : List (FullKey × V × Option Int))
    (c : InMemoryCache T) :
    (setLoop serde timestamp now pairs c).1.entry =
      (encodedPairs serde timestamp now pairs).foldl (fun s p => s.write p.1 p.2) c.entry := by
  induction pairs generalizing c with
  | nil => rfl
  | cons p pairs ih =>
    obtain ⟨k, value, ttl⟩ := p
    rw [setLoop, encodedPairs, encode]
    cases (expiryOf timestamp now ttl : Except (Raised Err) (Option T)) with
    | error e => rfl
    | ok expiry =>
      simp only
      cases serde.dumpsTyped value with
      | error e => exact funext (entry_touch c k.1)
      | ok enc =>
        have htouch : (c.touch k.1).entry = c.entry := funext (entry_touch c k.1)
        simp only [List.foldl_cons]
        rw [ih, entry_store, htouch]

theorem entry_write [LT T] [DecidableLT T] (c : InMemoryCache T) {e : Event V}
    (he : e.readAt = none) (k : FullKey) :
    (c.step serde timestamp e).entry k = (e.leaves serde timestamp k).getD (c.entry k) := by
  cases e with
  | get now keys => cases he
  | set now pairs =>
    have hnodup := (keys_encodedPairs_sublist serde timestamp now pairs.items).nodup pairs.nodup
    rw [step, set, entry_setLoop, writeAll_apply hnodup, Event.leaves]
    cases Dict.lookup k (encodedPairs serde timestamp now pairs.items) <;> rfl
  | clear namespaces =>
    rw [step, entry_clear, TimedStore.drop]
    cases namespaces with
    | none => rfl
    | some nss =>
      rw [Option.all_some, Event.leaves]
      by_cases hk : k.1 ∈ nss <;> simp [hk]

variable [LinearOrder T]

theorem fades_alive : TimedStore.Fades (alive : T → T → Bool) := by
  intro e a b hab hb
  exact decide_eq_true (lt_of_le_of_lt hab (of_decide_eq_true hb))

theorem getLoop_answer (now : T) (keys : List FullKey) (c : InMemoryCache T)
    (values : Dict FullKey V) :
    (getLoop serde now keys c values).2 =
      answer serde (TimedStore.reading alive now c.entry) keys values := by
  induction keys generalizing c values with
  | nil => rfl
  | cons k ks ih =>
    rw [getLoop, answer]
    cases he : c.entry k with
    | none =>
      rw [TimedStore.reading_of_none he]
      exact ih c values
    | some e =>
      simp only
      cases hf : TimedStore.fresh alive now e with
      | true =>
        rw [TimedStore.reading_of_fresh he hf, if_pos rfl]
        simp only
        cases serde.loadsTyped e.value with
        | error err => rfl
        | ok v => exact ih c (values.set k v)
      | false =>
        rw [TimedStore.reading_of_not_fresh he hf, if_neg Bool.false_ne_true, ih]
        refine answer_congr serde (fun k' _ => ?_) values
        rw [entry_delete, TimedStore.reading_drop]
        split_ifs with hk
        · rw [of_decide_eq_true hk, TimedStore.reading_of_not_fresh he hf]
        · rfl

theorem same_getLoop (now : T) (keys : List FullKey) (c : InMemoryCache T)
    (values : Dict FullKey V) :
    TimedStore.Same alive now (getLoop serde now keys c values).1.entry c.entry := by
  induction keys generalizing c values with
  | nil => exact TimedStore.Same.refl
  | cons k ks ih =>
    rw [getLoop]
    cases he : c.entry k with
    | none => exact ih c values
    | some e =>
      simp only
      cases hf : TimedStore.fresh alive now e with
      | true =>
        rw [if_pos rfl]
        cases serde.loadsTyped e.value with
        | error err => exact TimedStore.Same.refl
        | ok v => exact ih c (values.set k v)
      | false =>
        rw [if_neg Bool.false_ne_true]
        refine (ih (c.delete k) values).trans ?_
        rw [entry_delete]
        refine TimedStore.Same.purge fades_alive (fun k' hk' e' he' => ?_)
        rw [of_decide_eq_true hk', he] at he'
        rwa [← Option.some.inj he']

theorem get_answer (now : Int) (keys : List FullKey) (c : InMemoryCache T) :
    (c.get serde timestamp now keys).2 =
      answer serde (TimedStore.reading alive (timestamp now) c.entry) keys ∅ := by
  rw [get]
  split_ifs with hnil
  · rw [hnil]
    rfl
  · exact getLoop_answer serde (timestamp now) keys c ∅

theorem same_get (now : Int) (keys : List FullKey) (c : InMemoryCache T) :
    TimedStore.Same alive (timestamp now) (c.get serde timestamp now keys).1.entry c.entry := by
  rw [get]
  split_ifs with hnil
  · exact TimedStore.Same.refl
  · exact same_getLoop serde (timestamp now) keys c ∅

theorem same_step (events : List (Event V)) (e : Event V) {c : InMemoryCache T} {t : T}
    (h : TimedStore.Same alive t c.entry (held serde timestamp events))
    (hread : ∀ now, e.readAt = some now → timestamp now ≤ t) :
    TimedStore.Same alive t (c.step serde timestamp e).entry
      (held serde timestamp (events ++ [e])) := by
  cases e with
  | get now keys =>
    have hheld : held serde timestamp (events ++ [Event.get now keys]) =
        held serde timestamp events := funext (held_concat serde timestamp events _)
    rw [hheld]
    exact ((same_get serde timestamp now keys c).later (hread now rfl)).trans h
  | set now pairs =>
    exact h.overwrite (entry_write serde timestamp c rfl) (held_concat serde timestamp events _)
  | clear namespaces =>
    exact h.overwrite (entry_write serde timestamp c rfl) (held_concat serde timestamp events _)

theorem same_run (events : List (Event V)) {now : Int} (hmono : Monotone timestamp)
    (hclock : (events.filterMap Event.readAt ++ [now]).Pairwise (· ≤ ·)) :
    TimedStore.Same alive (timestamp now)
      (run (step serde timestamp) (empty : InMemoryCache T) events).entry
      (held serde timestamp events) := by
  induction events using List.reverseRecOn generalizing now with
  | nil => exact TimedStore.Same.refl
  | append_singleton events e ih =>
    obtain ⟨hnow, hread⟩ := reads_concat hclock
    rw [run_append]
    exact same_step serde timestamp events e (ih hnow)
      (fun read he => hmono (hread read he).1)

-- A read returns what the last set of each key left, unless it was cleared or has expired.
theorem get_after_run (events : List (Event V)) (now : Int) (keys : List FullKey)
    (hmono : Monotone timestamp)
    (hclock : (events.filterMap Event.readAt ++ [now]).Pairwise (· ≤ ·)) :
    ((run (step serde timestamp) (empty : InMemoryCache T) events).get serde timestamp now
      keys).2 =
      answer serde (TimedStore.reading alive (timestamp now) (held serde timestamp events)) keys
        ∅ := by
  rw [get_answer]
  exact answer_congr serde
    (fun k _ => same_run serde timestamp events hmono hclock (timestamp now) le_rfl k) ∅

def bytesSerializer : SerializerProtocol (List UInt8) String where
  dumpsTyped b := .ok ("bytes", b)
  loadsTyped e := .ok e.2

def expiringEvents : List (Event (List UInt8)) :=
  [.set 0 (Dict.ofList [((["a"], "x"), [1], some 60), ((["a"], "y"), [2], none)]),
    .get 60000000 [(["a"], "x")], .set 5 (Dict.ofList [((["b"], "x"), [3], none)]),
    .clear (some [["b"]])]

theorem get_after_expiry :
    ((run (step bytesSerializer id) (empty : InMemoryCache Int) expiringEvents).get
      bytesSerializer id 60000000 [(["a"], "x"), (["a"], "y"), (["b"], "x")]).2 =
      answer bytesSerializer (TimedStore.reading alive 60000000
        (held bytesSerializer id expiringEvents)) [(["a"], "x"), (["a"], "y"), (["b"], "x")] ∅ ∧
      (answer bytesSerializer (TimedStore.reading alive (60000000 : Int)
        (held bytesSerializer id expiringEvents)) [(["a"], "x"), (["a"], "y"), (["b"], "x")]
          ∅).toOption.map Dict.items = some [((["a"], "y"), [2])] :=
  ⟨get_after_run bytesSerializer id expiringEvents 60000000 _ monotone_id (by decide), by
    decide +kernel⟩

end Runs

end InMemoryCache

end Cache

end LangGraph

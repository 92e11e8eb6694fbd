import LangGraph.Cache.InMemory
import LangGraph.Collections.Separated

namespace LangGraph

open Collections Transition

namespace Cache

def Separated (ns : Namespace) : Prop := ns ≠ [] ∧ Separate ',' ns

instance (ns : Namespace) : Decidable (Separated ns) :=
  inferInstanceAs (Decidable (ns ≠ [] ∧ ∀ p ∈ ns, ',' ∉ p.toList))

-- A full key whose namespace is told from every other one by its text.
abbrev SeparatedKey := { k : FullKey // Separated k.1 }

def dbKey (k : FullKey) : String × String := (joinText ',' k.1, k.2)

def readKey (r : String × String) : FullKey := (splitText ',' r.1, r.2)

theorem readKey_dbKey (k : SeparatedKey) : readKey (dbKey k.1) = k.1 := by
  obtain ⟨⟨ns, key⟩, hne, hsep⟩ := k
  rw [readKey, dbKey, splitText_joinText_of_ne_nil hsep hne]

theorem dbKey_inj {k k' : SeparatedKey} (h : dbKey k.1 = dbKey k'.1) : k = k' := by
  refine Subtype.ext ?_
  rw [← readKey_dbKey k, h, readKey_dbKey k']

-- The rows in SQLite's own order; nothing below depends on it.
structure SqliteCache (T : Type) where
  rows : Dict (String × String) (Timed Encoded T)

namespace SqliteCache

section Operations

variable {V Err T : Type}

def empty : SqliteCache T := ⟨∅⟩

section Reads

variable [LT T] [DecidableLT T]

def alive (now expiry : T) : Bool := !decide (expiry < now)

def readRows (serde : SerializerProtocol V Err) (now : T) :
    List ((String × String) × Timed Encoded T) → Dict (String × String) (Timed Encoded T) →
      Dict FullKey V →
      Except (Raised Err) (Dict (String × String) (Timed Encoded T) × Dict FullKey V)
  | [], rows, values => .ok (rows, values)
  | (r, e) :: rs, rows, values =>
      if TimedStore.fresh alive now e then
        match serde.loadsTyped e.value with
        | .error err => .error (.serde err)
        | .ok v => readRows serde now rs rows (values.set (readKey r) v)
      else readRows serde now rs (rows.filter (fun n _ => n ≠ r)) values

def selected (keys : List FullKey) (c : SqliteCache T) :
    Dict (String × String) (Timed Encoded T) :=
  c.rows.filter (fun r _ => keys.any (fun k => dbKey k = r))

-- An exception rolls the purge back.
def get (serde : SerializerProtocol V Err) (timestamp : Int → T) (now : Int)
    (keys : List FullKey) (c : SqliteCache T) :
    SqliteCache T × Except (Raised Err) (Dict FullKey V) :=
  if keys = [] then (c, .ok ∅)
  else
    match readRows serde (timestamp now) (c.selected keys).items c.rows ∅ with
    | .error e => (c, .error e)
    | .ok (rows, values) => (⟨rows⟩, .ok values)

end Reads

def setRows (serde : SerializerProtocol V Err) (timestamp : Int → T) (now : Int) :
    List (FullKey × V × Option Int) → Dict (String × String) (Timed Encoded T) →
      Except (Raised Err) (Dict (String × String) (Timed Encoded T))
  | [], rows => .ok rows
  | (k, value, ttl) :: pairs, rows =>
      match encode serde timestamp now value ttl with
      | .error e => .error e
      | .ok e => setRows serde timestamp now pairs (rows.set (dbKey k) e)

def set (serde : SerializerProtocol V Err) (timestamp : Int → T) (now : Int) (pairs : Pairs V)
    (c : SqliteCache T) : SqliteCache T × Except (Raised Err) Unit :=
  match setRows serde timestamp now pairs.items c.rows with
  | .error e => (c, .error e)
  | .ok rows => (⟨rows⟩, .ok ())

def clear (namespaces : Option (List Namespace)) (c : SqliteCache T) : SqliteCache T :=
  match namespaces with
  | none => ⟨∅⟩
  | some nss => ⟨c.rows.filter (fun r _ => !(nss.any (fun ns => joinText ',' ns = r.1)))⟩

def step [LT T] [DecidableLT T] (serde : SerializerProtocol V Err) (timestamp : Int → T)
    (c : SqliteCache T) : Event V → SqliteCache T
  | .get now keys => (c.get serde timestamp now keys).1
  | .set now pairs => (c.set serde timestamp now pairs).1
  | .clear namespaces => c.clear namespaces

end Operations

def entry {T : Type} (c : SqliteCache T) : TimedStore SeparatedKey Encoded T :=
  fun k => c.rows.get? (dbKey k.1)

end SqliteCache

section Runs

variable {V Err T : Type}

-- The namespaces of the event are told apart by their texts and its set goes through.
def Event.Plain (serde : SerializerProtocol V Err) (timestamp : Int → T) : Event V → Prop
  | .get _ keys => ∀ k ∈ keys, Separated k.1
  | .set now pairs => ∀ p ∈ pairs.items, Separated p.1.1 ∧
      ∃ e, encode serde timestamp now p.2.1 p.2.2 = .ok e
  | .clear none => True
  | .clear (some nss) => ∀ ns ∈ nss, Separated ns

def SerializerProtocol.LoadsDumped (serde : SerializerProtocol V Err) : Prop :=
  ∀ v enc, serde.dumpsTyped v = .ok enc → ∃ v', serde.loadsTyped enc = .ok v'

def heldPlain (serde : SerializerProtocol V Err) (timestamp : Int → T)
    (events : List (Event V)) : TimedStore SeparatedKey Encoded T :=
  fun k => held serde timestamp events k.1

def decoded (serde : SerializerProtocol V Err) (enc : Option Encoded) : Option V :=
  enc.bind (fun enc => (serde.loadsTyped enc).toOption)

variable (serde : SerializerProtocol V Err) (timestamp : Int → T)

theorem answer_spec {read : FullKey → Option Encoded} {keys : List FullKey}
    (hload : ∀ k ∈ keys, ∀ enc, read k = some enc → ∃ v, serde.loadsTyped enc = .ok v)
    (values : Dict FullKey V) :
    ∃ m, answer serde read keys values = .ok m ∧
      ∀ k, m.get? k =
        if k ∈ keys then (decoded serde (read k)).or (values.get? k) else values.get? k := by
  induction keys generalizing values with
  | nil => exact ⟨values, rfl, fun k => by simp⟩
  | cons k ks ih =>
    have hrest := ih (fun k' hk' => hload k' (List.mem_cons_of_mem k hk'))
    rw [answer]
    cases hread : read k with
    | none =>
      obtain ⟨m, hm, hget⟩ := hrest values
      refine ⟨m, hm, fun k' => ?_⟩
      rw [hget]
      by_cases hk : k' = k
      · simp [hk, hread, decoded]
      · simp [hk]
    | some enc =>
      obtain ⟨v, hv⟩ := hload k List.mem_cons_self enc hread
      obtain ⟨m, hm, hget⟩ := hrest (values.set k v)
      simp only [hv]
      refine ⟨m, hm, fun k' => ?_⟩
      rw [hget]
      by_cases hk : k' = k
      · simp [hk, hread, decoded, hv, Except.toOption]
      · simp [hk, Dict.get?_set_ne]

theorem dumped_of_mem_encodedPairs {now : Int} {pairs : List (FullKey × V × Option Int)}
    {p : FullKey × Timed Encoded T} (h : p ∈ encodedPairs serde timestamp now pairs) :
    ∃ v, serde.dumpsTyped v = .ok p.2.value := by
  induction pairs with
  | nil => cases h
  | cons q pairs ih =>
    obtain ⟨k, value, ttl⟩ := q
    rw [encodedPairs, encode] at h
    cases he : (expiryOf timestamp now ttl : Except (Raised Err) (Option T)) with
    | error e =>
      rw [he] at h
      cases h
    | ok expiry =>
      rw [he] at h
      simp only at h
      cases hd : serde.dumpsTyped value with
      | error e =>
        rw [hd] at h
        cases h
      | ok enc =>
        rw [hd] at h
        rcases List.mem_cons.mp h with rfl | hrest
        · exact ⟨value, hd⟩
        · exact ih hrest

theorem held_dumped (events : List (Event V)) {k : FullKey} {e : Timed Encoded T}
    (h : held serde timestamp events k = some e) :
    ∃ v, serde.dumpsTyped v = .ok e.value := by
  induction events using List.reverseRecOn with
  | nil => cases h
  | append_singleton events event ih =>
    rw [held_concat] at h
    cases event with
    | get now keys => exact ih h
    | set now pairs =>
      rw [Event.leaves] at h
      cases hl : Dict.lookup k (encodedPairs serde timestamp now pairs.items) with
      | none =>
        rw [hl] at h
        exact ih h
      | some e' =>
        rw [hl] at h
        have hnodup := (keys_encodedPairs_sublist serde timestamp now pairs.items).nodup
          pairs.nodup
        have hmem := (Dict.lookup_eq_some hnodup).mp hl
        rw [← Option.some.inj h]
        exact dumped_of_mem_encodedPairs serde timestamp hmem
    | clear namespaces =>
      cases namespaces with
      | none => cases h
      | some nss =>
        rw [Event.leaves] at h
        split_ifs at h with hns
        · cases h
        · exact ih h

end Runs

namespace SqliteCache

section Runs

variable {V Err T : Type} (serde : SerializerProtocol V Err) (timestamp : Int → T)

theorem entry_filter_ne (rows : Dict (String × String) (Timed Encoded T)) (k : SeparatedKey) :
    entry ⟨rows.filter (fun n _ => n ≠ dbKey k.1)⟩ =
      TimedStore.drop (fun k' => k' = k) (entry ⟨rows⟩) := by
  funext k'
  rw [entry, TimedStore.drop, Dict.get?_filter_ne]
  by_cases hk : k' = k
  · simp [hk]
  · have hne : dbKey k'.1 ≠ dbKey k.1 := fun h => hk (dbKey_inj h)
    simp [hk, hne, entry]

theorem setRows_spec (now : Int) {pairs : List (FullKey × V × Option Int)}
    (h : ∀ p ∈ pairs, Separated p.1.1 ∧ ∃ e, encode serde timestamp now p.2.1 p.2.2 = .ok e)
    {rows : Dict (String × String) (Timed Encoded T)} {s : TimedStore FullKey Encoded T}
    (hs : ∀ k : SeparatedKey, rows.get? (dbKey k.1) = s k.1)
    (hrows : ∀ r ∈ rows.keys, ∃ k : SeparatedKey, dbKey k.1 = r) :
    ∃ rows', setRows serde timestamp now pairs rows = .ok rows' ∧
      (∀ k : SeparatedKey, rows'.get? (dbKey k.1) =
        (encodedPairs serde timestamp now pairs).foldl (fun s p => s.write p.1 p.2) s k.1) ∧
      ∀ r ∈ rows'.keys, ∃ k : SeparatedKey, dbKey k.1 = r := by
  induction pairs generalizing rows s with
  | nil => exact ⟨rows, rfl, hs, hrows⟩
  | cons p pairs ih =>
    obtain ⟨⟨hsep, e, he⟩, hrest⟩ := List.forall_mem_cons.mp h
    obtain ⟨k, value, ttl⟩ := p
    rw [setRows, encodedPairs, he]
    have hcell (k' : SeparatedKey) :
        (rows.set (dbKey k) e).get? (dbKey k'.1) = s.write k e k'.1 := by
      by_cases hk : k'.1 = k
      · rw [hk, Dict.get?_set_self, TimedStore.write, Function.update_self]
      · have hne : dbKey k'.1 ≠ dbKey k := by
          intro heq
          have hsame : k' = ⟨k, hsep⟩ := dbKey_inj heq
          exact hk (by rw [hsame])
        rw [Dict.get?_set_ne _ hne, TimedStore.write, Function.update_of_ne hk, hs]
    refine ih hrest hcell (fun r hr => ?_)
    rcases Dict.mem_keys_set.mp hr with rfl | hold
    · exact ⟨⟨k, hsep⟩, rfl⟩
    · exact hrows r hold

theorem lookup_selected {keys : List FullKey} (hkeys : ∀ k ∈ keys, Separated k.1)
    (c : SqliteCache T) (k : SeparatedKey) :
    Dict.lookup (dbKey k.1) (c.selected keys).items = if k.1 ∈ keys then c.entry k else none := by
  have hasked : (keys.any (fun k' => dbKey k' = dbKey k.1)) = decide (k.1 ∈ keys) := by
    rw [Bool.eq_iff_iff, List.any_eq_true, decide_eq_true_iff]
    constructor
    · rintro ⟨k', hk', heq⟩
      have hsame : (⟨k', hkeys k' hk'⟩ : SeparatedKey) = k := dbKey_inj (of_decide_eq_true heq)
      rw [← hsame]
      exact hk'
    · exact fun hk => ⟨k.1, hk, decide_eq_true rfl⟩
  have hget := Dict.get?_filter (fun r _ => keys.any (fun k => dbKey k = r)) c.rows (dbKey k.1)
  rw [hasked] at hget
  rw [selected, ← Dict.get?, hget, entry]
  cases c.rows.get? (dbKey k.1) with
  | none => simp
  | some e =>
    by_cases hk : k.1 ∈ keys
    · simp [hk, Option.filter]
    · simp [hk, Option.filter]

theorem any_joinText {nss : List Namespace} (hnss : ∀ ns ∈ nss, Separated ns)
    (k : SeparatedKey) :
    (nss.any (fun ns => joinText ',' ns = (dbKey k.1).1)) = decide (k.1.1 ∈ nss) := by
  rw [Bool.eq_iff_iff, List.any_eq_true, decide_eq_true_iff]
  constructor
  · rintro ⟨ns, hns, heq⟩
    have hsame := joinText_injective (hnss ns hns).2 k.2.2 (hnss ns hns).1 k.2.1
      (of_decide_eq_true heq)
    rw [← hsame]
    exact hns
  · exact fun hk => ⟨k.1.1, hk, decide_eq_true rfl⟩

theorem entry_write [LT T] [DecidableLT T] {e : Event V} (he : e.Plain serde timestamp)
    (hread : e.readAt = none) {c : SqliteCache T}
    (hc : ∀ r ∈ c.rows.keys, ∃ k : SeparatedKey, dbKey k.1 = r) :
    (∀ k : SeparatedKey, (c.step serde timestamp e).entry k =
      (e.leaves serde timestamp k.1).getD (c.entry k)) ∧
      ∀ r ∈ (c.step serde timestamp e).rows.keys, ∃ k : SeparatedKey, dbKey k.1 = r := by
  cases e with
  | get now keys => cases hread
  | set now pairs =>
    have hnodup := (keys_encodedPairs_sublist serde timestamp now pairs.items).nodup pairs.nodup
    obtain ⟨rows', hrows, hget, hsep⟩ := setRows_spec serde timestamp now he
      (s := fun k => c.rows.get? (dbKey k)) (fun k => rfl) hc
    rw [step, set, hrows]
    refine ⟨fun k => ?_, hsep⟩
    rw [entry, hget, writeAll_apply hnodup, Event.leaves, entry]
    cases Dict.lookup k.1 (encodedPairs serde timestamp now pairs.items) <;> rfl
  | clear namespaces =>
    cases namespaces with
    | none => exact ⟨fun k => rfl, fun r hr => absurd hr List.not_mem_nil⟩
    | some nss =>
      refine ⟨fun k => ?_, fun r hr => ?_⟩
      · rw [step, clear, entry, Dict.get?_filter, any_joinText he, Event.leaves, entry]
        cases c.rows.get? (dbKey k.1) with
        | none => by_cases hk : k.1.1 ∈ nss <;> simp [hk]
        | some e => by_cases hk : k.1.1 ∈ nss <;> simp [hk, Option.filter]
      · obtain ⟨v, hv, -⟩ := Dict.mem_keys_filter.mp hr
        exact hc r (Dict.mem_keys.mpr ⟨v, hv⟩)

variable [LinearOrder T]

theorem fades_alive : TimedStore.Fades (alive : T → T → Bool) := by
  intro e a b hab hb
  rw [alive, Bool.not_eq_true', decide_eq_false_iff_not, not_lt] at *
  exact le_trans hab hb

structure RowsRead (now : T) (rs : List ((String × String) × Timed Encoded T))
    (rows rows' : Dict (String × String) (Timed Encoded T)) (values values' : Dict FullKey V) :
    Prop where
  same : TimedStore.Same alive now (entry ⟨rows'⟩) (entry ⟨rows⟩)
  keys : ∀ r ∈ rows'.keys, r ∈ rows.keys
  found : ∀ k : SeparatedKey, values'.get? k.1 =
    (decoded serde (((Dict.lookup (dbKey k.1) rs).filter (TimedStore.fresh alive now)).map
      Timed.value)).or (values.get? k.1)
  rest : ∀ k : FullKey, ¬ Separated k.1 → values'.get? k = values.get? k

theorem readRows_spec (now : T) {rs : List ((String × String) × Timed Encoded T)}
    (hnodup : (rs.map Prod.fst).Nodup) (hsep : ∀ p ∈ rs, ∃ k : SeparatedKey, dbKey k.1 = p.1)
    {rows : Dict (String × String) (Timed Encoded T)}
    (hrows : ∀ p ∈ rs, ∀ e, rows.get? p.1 = some e → e = p.2)
    (hload : ∀ p ∈ rs, TimedStore.fresh alive now p.2 = true →
      ∃ v, serde.loadsTyped p.2.value = .ok v) (values : Dict FullKey V) :
    ∃ rows' values', readRows serde now rs rows values = .ok (rows', values') ∧
      RowsRead serde now rs rows rows' values values' := by
  induction rs generalizing rows values with
  | nil =>
    exact ⟨rows, values, rfl, TimedStore.Same.refl, fun r hr => hr, fun k => rfl, fun k _ => rfl⟩
  | cons p rs ih =>
    obtain ⟨r, e⟩ := p
    obtain ⟨⟨k, hk⟩, hseps⟩ := List.forall_mem_cons.mp hsep
    obtain ⟨hrow, hrest⟩ := List.forall_mem_cons.mp hrows
    obtain ⟨hfirst, hloads⟩ := List.forall_mem_cons.mp hload
    rw [List.map_cons, List.nodup_cons] at hnodup
    simp only at hk hrow hfirst
    subst hk
    have hnone : Dict.lookup (dbKey k.1) rs = none := Dict.lookup_eq_none.mpr hnodup.1
    rw [readRows]
    cases hf : TimedStore.fresh alive now e with
    | true =>
      obtain ⟨v, hv⟩ := hfirst hf
      obtain ⟨rows', values', hread, hspec⟩ :=
        ih hnodup.2 hseps hrest hloads (values.set (readKey (dbKey k.1)) v)
      rw [if_pos rfl, hv]
      refine ⟨rows', values', hread, hspec.same, hspec.keys, fun k' => ?_, fun k' hk' => ?_⟩
      · rw [hspec.found, readKey_dbKey, Dict.lookup]
        by_cases hk : k' = k
        · rw [hk, hnone, if_pos rfl, Dict.get?_set_self]
          simp [decoded, Option.filter, hf, hv, Except.toOption]
        · have hne : dbKey k.1 ≠ dbKey k'.1 := fun h => hk (dbKey_inj h).symm
          rw [if_neg hne, Dict.get?_set_ne _ (fun h => hk (Subtype.ext h))]
      · have hne : k' ≠ k.1 := fun h => hk' (h ▸ k.2)
        rw [hspec.rest k' hk', readKey_dbKey, Dict.get?_set_ne _ hne]
    | false =>
      have hrows' : ∀ p ∈ rs, ∀ e',
          (rows.filter (fun n _ => n ≠ dbKey k.1)).get? p.1 = some e' → e' = p.2 := by
        intro p hp e' he'
        rw [Dict.get?_filter_ne] at he'
        split_ifs at he'
        exact hrest p hp e' he'
      obtain ⟨rows', values', hread, hspec⟩ := ih hnodup.2 hseps hrows' hloads values
      rw [if_neg Bool.false_ne_true]
      refine ⟨rows', values', hread, ?_, fun r hr => ?_, fun k' => ?_, hspec.rest⟩
      · refine hspec.same.trans ?_
        rw [entry_filter_ne]
        refine TimedStore.Same.purge fades_alive (fun k' hk' e' he' => ?_)
        rw [of_decide_eq_true hk'] at he'
        rwa [hrow e' he']
      · obtain ⟨v, hv, -⟩ := Dict.mem_keys_filter.mp (hspec.keys r hr)
        exact Dict.mem_keys.mpr ⟨v, hv⟩
      · rw [hspec.found, Dict.lookup]
        by_cases hk : k' = k
        · rw [hk, hnone, if_pos rfl]
          simp [decoded, Option.filter, hf]
        · have hne : dbKey k.1 ≠ dbKey k'.1 := fun h => hk (dbKey_inj h).symm
          rw [if_neg hne]

structure Follows (t : T) (c : SqliteCache T) (s : TimedStore SeparatedKey Encoded T) : Prop where
  same : TimedStore.Same alive t c.entry s
  separated : ∀ r ∈ c.rows.keys, ∃ k : SeparatedKey, dbKey k.1 = r

theorem get_spec (now : Int) {keys : List FullKey} (hkeys : ∀ k ∈ keys, Separated k.1)
    {c : SqliteCache T} {s : TimedStore SeparatedKey Encoded T}
    (h : Follows (timestamp now) c s)
    (hload : ∀ k e, s k = some e → ∃ v, serde.loadsTyped e.value = .ok v) :
    Follows (timestamp now) (c.get serde timestamp now keys).1 s ∧
      ∃ m, (c.get serde timestamp now keys).2 = .ok m ∧
        (∀ k : SeparatedKey, m.get? k.1 = if k.1 ∈ keys then
          decoded serde (TimedStore.reading alive (timestamp now) s k) else none) ∧
        ∀ k : FullKey, ¬ Separated k.1 → m.get? k = none := by
  rw [get]
  split_ifs with hnil
  · subst hnil
    exact ⟨h, ∅, rfl, fun k => by simp, fun k _ => rfl⟩
  · have hmem : ∀ p ∈ (c.selected keys).items, c.rows.get? p.1 = some p.2 := by
      intro p hp
      exact Dict.get?_eq_some.mpr (List.mem_of_mem_filter hp)
    have hsep : ∀ p ∈ (c.selected keys).items, ∃ k : SeparatedKey, dbKey k.1 = p.1 := by
      intro p hp
      exact h.separated p.1 (Dict.mem_keys.mpr ⟨p.2, hmem p hp⟩)
    have hloads : ∀ p ∈ (c.selected keys).items,
        TimedStore.fresh alive (timestamp now) p.2 = true →
        ∃ v, serde.loadsTyped p.2.value = .ok v := by
      intro p hp hf
      obtain ⟨k, hk⟩ := hsep p hp
      have hentry : c.entry k = some p.2 := by rw [entry, hk, hmem p hp]
      have hread := h.same (timestamp now) le_rfl k
      rw [TimedStore.reading_of_fresh hentry hf] at hread
      rw [TimedStore.reading, eq_comm, Option.map_eq_some_iff] at hread
      obtain ⟨e, he, hvalue⟩ := hread
      rw [← hvalue]
      exact hload k e (Option.filter_eq_some_iff.mp he).1
    obtain ⟨rows', m, hrows, hspec⟩ := readRows_spec serde (timestamp now)
      (c.selected keys).nodup hsep
      (fun p hp e he => Option.some.inj (he.symm.trans (hmem p hp))) hloads ∅
    rw [hrows]
    refine ⟨⟨hspec.same.trans h.same, fun r hr => h.separated r (hspec.keys r hr)⟩, m, rfl,
      fun k => ?_, hspec.rest⟩
    rw [hspec.found, lookup_selected hkeys, ← h.same (timestamp now) le_rfl k]
    split_ifs with hk
    · rw [Dict.get?_emptyCollection, Option.or_none, TimedStore.reading]
    · rfl

theorem follows_step (events : List (Event V)) {e : Event V} (he : e.Plain serde timestamp)
    (hserde : serde.LoadsDumped) {c : SqliteCache T} {t : T}
    (h : Follows t c (heldPlain serde timestamp events))
    (hread : ∀ now, e.readAt = some now →
      timestamp now ≤ t ∧ Follows (timestamp now) c (heldPlain serde timestamp events)) :
    Follows t (c.step serde timestamp e) (heldPlain serde timestamp (events ++ [e])) := by
  cases e with
  | get now keys =>
    obtain ⟨hle, hnow⟩ := hread now rfl
    have hheld : heldPlain serde timestamp (events ++ [Event.get now keys]) =
        heldPlain serde timestamp events :=
      funext (fun k => held_concat serde timestamp events _ k.1)
    have hload : ∀ k e, heldPlain serde timestamp events k = some e →
        ∃ v, serde.loadsTyped e.value = .ok v := by
      intro k e hk
      obtain ⟨v, hv⟩ := held_dumped serde timestamp events hk
      exact hserde v e.value hv
    obtain ⟨hfollows, -⟩ := get_spec serde timestamp now he hnow hload
    rw [hheld]
    exact ⟨hfollows.same.later hle, hfollows.separated⟩
  | set now pairs =>
    obtain ⟨hcells, hsep⟩ := entry_write serde timestamp he rfl h.separated
    exact ⟨h.same.overwrite hcells (fun k => held_concat serde timestamp events _ k.1), hsep⟩
  | clear namespaces =>
    obtain ⟨hcells, hsep⟩ := entry_write serde timestamp he rfl h.separated
    exact ⟨h.same.overwrite hcells (fun k => held_concat serde timestamp events _ k.1), hsep⟩

theorem follows_run {events : List (Event V)} (hplain : ∀ e ∈ events, e.Plain serde timestamp)
    (hserde : serde.LoadsDumped) (hmono : Monotone timestamp) {now : Int}
    (hclock : (events.filterMap Event.readAt ++ [now]).Pairwise (· ≤ ·)) :
    Follows (timestamp now) (run (step serde timestamp) (empty : SqliteCache T) events)
      (heldPlain serde timestamp events) := by
  induction events using List.reverseRecOn generalizing now with
  | nil => exact ⟨TimedStore.Same.refl, fun r hr => absurd hr List.not_mem_nil⟩
  | append_singleton events e ih =>
    have hearlier : ∀ e' ∈ events, e'.Plain serde timestamp :=
      fun e' he' => hplain e' (List.mem_append_left _ he')
    obtain ⟨hnow, hread⟩ := reads_concat hclock
    rw [run_append]
    exact follows_step serde timestamp events (hplain e (by simp)) hserde (ih hearlier hnow)
      (fun read he => ⟨hmono (hread read he).1, ih hearlier (hread read he).2⟩)

theorem reading_alive_eq_iff {now : T} {s : TimedStore FullKey Encoded T} {k : FullKey} :
    TimedStore.reading InMemoryCache.alive now s k = TimedStore.reading alive now s k ↔
      ∀ e, s k = some e → e.expiry ≠ some now := by
  cases hs : s k with
  | none => simp [TimedStore.reading_of_none hs]
  | some e =>
    obtain ⟨enc, expiry⟩ := e
    simp only [TimedStore.reading, hs, Option.filter_some, TimedStore.fresh, Option.some.injEq,
      forall_eq']
    cases expiry with
    | none => simp
    | some x =>
      rcases lt_trichotomy now x with hlt | rfl | hgt
      · simp [InMemoryCache.alive, alive, hlt, not_lt_of_gt hlt, (ne_of_lt hlt).symm]
      · simp [InMemoryCache.alive, alive]
      · simp [InMemoryCache.alive, alive, hgt, not_lt_of_gt hgt, ne_of_lt hgt]

-- After the same events both caches answer a read alike, unless an entry asked for expires at the
-- very instant of the read.
theorem agrees_with_memory {events : List (Event V)}
    (hplain : ∀ e ∈ events, e.Plain serde timestamp) (hserde : serde.LoadsDumped)
    (hmono : Monotone timestamp) {now : Int}
    (hclock : (events.filterMap Event.readAt ++ [now]).Pairwise (· ≤ ·)) {keys : List FullKey}
    (hkeys : ∀ k ∈ keys, Separated k.1) :
    ∃ m m', ((run (InMemoryCache.step serde timestamp) (InMemoryCache.empty : InMemoryCache T)
        events).get serde timestamp now keys).2 = .ok m ∧
      ((run (step serde timestamp) (empty : SqliteCache T) events).get serde timestamp now
        keys).2 = .ok m' ∧
      ((∀ k, m.get? k = m'.get? k) ↔ ∀ k ∈ keys, ∀ e, held serde timestamp events k = some e →
        e.expiry ≠ some (timestamp now)) := by
  have hloads : ∀ k e, held serde timestamp events k = some e →
      ∃ v, serde.loadsTyped e.value = .ok v := by
    intro k e hk
    obtain ⟨v, hv⟩ := held_dumped serde timestamp events hk
    exact hserde v e.value hv
  have hmemory : ∀ k ∈ keys, ∀ enc, TimedStore.reading InMemoryCache.alive (timestamp now)
      (held serde timestamp events) k = some enc → ∃ v, serde.loadsTyped enc = .ok v := by
    intro k _ enc henc
    rw [TimedStore.reading, Option.map_eq_some_iff] at henc
    obtain ⟨e, he, rfl⟩ := henc
    exact hloads k e (Option.filter_eq_some_iff.mp he).1
  obtain ⟨m, hm, hget⟩ := answer_spec serde hmemory ∅
  obtain ⟨-, m', hm', hget', hrest⟩ := get_spec serde timestamp now hkeys
    (follows_run serde timestamp hplain hserde hmono hclock) (fun k e => hloads k.1 e)
  refine ⟨m, m', ?_, hm', ?_⟩
  · rw [InMemoryCache.get_answer, ← hm]
    exact answer_congr serde (fun k _ =>
      InMemoryCache.same_run serde timestamp events hmono hclock (timestamp now) le_rfl k) ∅
  · constructor
    · intro hsame k hk e he hexpiry
      obtain ⟨v, hv⟩ := hloads k e he
      have hdead : TimedStore.fresh InMemoryCache.alive (timestamp now) e = false := by
        rw [TimedStore.fresh, hexpiry]
        simp [InMemoryCache.alive]
      have hfresh : TimedStore.fresh alive (timestamp now) e = true := by
        rw [TimedStore.fresh, hexpiry]
        simp [alive]
      have hleft := hget k
      have hright := hget' ⟨k, hkeys k hk⟩
      rw [if_pos hk, TimedStore.reading_of_not_fresh he hdead] at hleft
      rw [if_pos hk, TimedStore.reading_of_fresh (s := heldPlain serde timestamp events)
        (k := ⟨k, hkeys k hk⟩) he hfresh, ← hsame k, hleft] at hright
      simp [decoded, hv, Except.toOption] at hright
    · intro hinstant k
      rw [hget]
      by_cases hk : k ∈ keys
      · rw [if_pos hk, hget' ⟨k, hkeys k hk⟩, if_pos hk,
          reading_alive_eq_iff.mpr (hinstant k hk), Dict.get?_emptyCollection, Option.or_none]
        rfl
      · rw [if_neg hk]
        by_cases hsep : Separated k.1
        · rw [hget' ⟨k, hsep⟩, if_neg hk]
          rfl
        · rw [hrest k hsep]
          rfl

def plainEvents : List (Event (List UInt8)) :=
  [.set 0 (Dict.ofList [((["a", "b"], "x"), [1], some 60), ((["a"], "y"), [2], none)]),
    .get 30000000 [(["a", "b"], "x")], .clear (some [["a"]])]

theorem agrees_at_expiry :
    ∃ m m', ((run (InMemoryCache.step InMemoryCache.bytesSerializer id)
        (InMemoryCache.empty : InMemoryCache Int) plainEvents).get InMemoryCache.bytesSerializer
          id 60000000 [(["a", "b"], "x")]).2 = .ok m ∧
      ((run (step InMemoryCache.bytesSerializer id) (empty : SqliteCache Int) plainEvents).get
        InMemoryCache.bytesSerializer id 60000000 [(["a", "b"], "x")]).2 = .ok m' ∧
      ((∀ k, m.get? k = m'.get? k) ↔ ∀ k ∈ [(["a", "b"], "x")], ∀ e,
        held InMemoryCache.bytesSerializer id plainEvents k = some e →
          e.expiry ≠ some (60000000 : Int)) := by
  refine agrees_with_memory InMemoryCache.bytesSerializer id ?_ ?_ monotone_id (by decide)
    (by decide)
  · intro e he
    simp only [plainEvents, List.mem_cons, List.not_mem_nil, or_false] at he
    rcases he with rfl | rfl | rfl
    · intro p hp
      have hmem := Dict.mem_items_ofList hp
      simp only [List.mem_cons, List.not_mem_nil, or_false] at hmem
      rcases hmem with rfl | rfl
      · exact ⟨by decide, _, rfl⟩
      · exact ⟨by decide, _, rfl⟩
    · show ∀ k ∈ [((["a", "b"] : Namespace), "x")], Separated k.1
      decide
    · show ∀ ns ∈ [(["a"] : Namespace)], Separated ns
      decide
  · intro v enc h
    exact ⟨enc.2, rfl⟩

end Runs

end SqliteCache

end Cache

end LangGraph

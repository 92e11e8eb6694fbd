import LangGraph.Checkpoint.Listing
import LangGraph.Store.FilterAgreement

namespace LangGraph

open Collections Store

namespace Listing

section Memory

variable {F : Type} [Floats F]

def spend (limit : Option Int) (rows : List (Row F)) : List (Row F) :=
  match limit with
  | none => rows
  | some n => rows.take n.toNat

def left (limit : Option Int) (rows : List (Row F)) : Option Int :=
  limit.map (fun n => n - (spend limit rows).length)

omit [Floats F] in
theorem spend_append (limit : Option Int) (a b : List (Row F)) :
    spend limit (a ++ b) = spend limit a ++ spend (left limit a) b := by
  cases limit with
  | none => rfl
  | some n =>
    simp only [spend, left, Option.map_some, List.take_append, List.length_take]
    congr 2
    omega

namespace InMemorySaver

variable {q : Query F} {threadId checkpointNs : String}

def selectedOf (q : Query F) (threadId checkpointNs : String)
    (l : List (String × StoredCheckpoint F)) : List (Row F) :=
  (l.filter (fun e => matchesCheckpoint q e.1 e.2)).map
    (fun e => ⟨threadId, checkpointNs, e.1, e.2⟩)

theorem visit_eq (limit : Option Int) (l : List (String × StoredCheckpoint F)) :
    visit q threadId checkpointNs limit l =
      (spend limit (selectedOf q threadId checkpointNs l),
        left limit (selectedOf q threadId checkpointNs l)) := by
  induction l generalizing limit with
  | nil => cases limit <;> simp [visit, selectedOf, spend, left]
  | cons e l ih =>
    obtain ⟨id, stored⟩ := e
    cases hmatch : matchesCheckpoint q id stored with
    | false => simp [visit, selectedOf, hmatch, ih]
    | true =>
      have hcons : selectedOf q threadId checkpointNs ((id, stored) :: l) =
          ⟨threadId, checkpointNs, id, stored⟩ :: selectedOf q threadId checkpointNs l := by
        simp [selectedOf, hmatch]
      rw [hcons]
      cases limit with
      | none => simp [visit, hmatch, ih, spend, left]
      | some n =>
        by_cases hn : n ≤ 0
        · have hzero : n.toNat = 0 := by omega
          simp [visit, hmatch, hn, spend, left, hzero]
        · have hsucc : n.toNat = (n - 1).toNat + 1 := by omega
          simp only [visit, hmatch, Bool.not_true, Bool.false_eq_true, if_false, hn, ih, spend,
            left, Option.map_some, hsucc, List.take_succ_cons, List.length_cons]
          congr 2
          omega

-- What the loops select without a limit, in their order.
def matched (q : Query F) (storage : MemoryStorage F) : List (Row F) :=
  (namespaces q storage).flatMap (fun n =>
    if matchesNamespace q n.2.1 then
      selectedOf q n.1 n.2.1 (descending Prod.fst n.2.2.items)
    else [])

theorem list_eq (q : Query F) (limit : Option Int) (storage : MemoryStorage F) :
    list q limit storage = spend limit (matched q storage) := by
  rw [list, matched]
  induction namespaces q storage generalizing limit with
  | nil => cases limit <;> simp [visitNamespaces, spend]
  | cons n rest ih =>
    rw [List.flatMap_cons, spend_append]
    cases hns : matchesNamespace q n.2.1 with
    | false =>
      simp only [visitNamespaces, hns, Bool.not_false, if_true, ih, Bool.false_eq_true, if_false]
      cases limit <;> simp [spend, left]
    | true => simp [visitNamespaces, hns, ih, visit_eq]

def matchesThread (q : Query F) (threadId : String) : Bool :=
  match q.config with
  | some config => threadId = config.threadId
  | none => true

def selects (q : Query F) (r : Row F) : Bool :=
  matchesThread q r.threadId && matchesNamespace q r.checkpointNs &&
    matchesCheckpoint q r.checkpointId r.stored

end InMemorySaver

-- The dictionaries and the table hold the same checkpoints.
structure SameContent (storage : MemoryStorage F) (rows : List (Row F)) : Prop where
  nodup : rows.Nodup
  mem : ∀ r, r ∈ rows ↔ ∃ byNs checkpoints, storage.get? r.threadId = some byNs ∧
    byNs.get? r.checkpointNs = some checkpoints ∧
    checkpoints.get? r.checkpointId = some r.stored

namespace InMemorySaver

variable {q : Query F} {storage : MemoryStorage F} {rows : List (Row F)}

omit [Floats F] in
theorem mem_namespaces {threadId checkpointNs : String}
    {checkpoints : Dict String (StoredCheckpoint F)} :
    (threadId, checkpointNs, checkpoints) ∈ namespaces q storage ↔
      matchesThread q threadId = true ∧ ∃ byNs, storage.get? threadId = some byNs ∧
        byNs.get? checkpointNs = some checkpoints := by
  simp only [namespaces, List.mem_flatMap, List.mem_map, matchesThread]
  cases q.config with
  | none =>
    simp only [true_and]
    constructor
    · rintro ⟨⟨t, byNs⟩, ht, ⟨⟨n, cs⟩, hn, heq⟩⟩
      cases heq
      exact ⟨byNs, Dict.get?_eq_some.mpr ht, Dict.get?_eq_some.mpr hn⟩
    · rintro ⟨byNs, ht, hn⟩
      exact ⟨(threadId, byNs), Dict.get?_eq_some.mp ht, (checkpointNs, checkpoints),
        Dict.get?_eq_some.mp hn, rfl⟩
  | some config =>
    simp only [List.mem_singleton, decide_eq_true_eq]
    constructor
    · rintro ⟨t, rfl, ⟨⟨n, cs⟩, hn, heq⟩⟩
      cases heq
      refine ⟨rfl, ?_⟩
      cases hget : storage.get? config.threadId with
      | none =>
        rw [Dict.getD_of_none hget] at hn
        cases hn
      | some byNs =>
        rw [Dict.getD_of_get? hget] at hn
        exact ⟨byNs, rfl, Dict.get?_eq_some.mpr hn⟩
    · rintro ⟨rfl, byNs, ht, hn⟩
      refine ⟨_, rfl, (checkpointNs, checkpoints), ?_, rfl⟩
      rw [Dict.getD_of_get? ht]
      exact Dict.get?_eq_some.mp hn

theorem mem_matched (h : SameContent storage rows) {r : Row F} :
    r ∈ matched q storage ↔ r ∈ rows ∧ selects q r = true := by
  rw [h.mem, matched, List.mem_flatMap]
  constructor
  · rintro ⟨⟨t, n, checkpoints⟩, hns, hr⟩
    obtain ⟨hthread, byNs, ht, hn⟩ := mem_namespaces.mp hns
    cases hmatch : matchesNamespace q n with
    | false => simp [hmatch] at hr
    | true =>
      simp only [hmatch, if_true, selectedOf, List.mem_map, List.mem_filter] at hr
      obtain ⟨⟨id, stored⟩, ⟨hmem, hselect⟩, rfl⟩ := hr
      refine ⟨⟨byNs, checkpoints, ht, hn, ?_⟩, ?_⟩
      · exact Dict.get?_eq_some.mpr ((descending_perm _).mem_iff.mp hmem)
      · simp only [selects, hthread, hmatch, Bool.true_and]
        exact hselect
  · rintro ⟨⟨byNs, checkpoints, ht, hn, hid⟩, hselect⟩
    simp only [selects, Bool.and_eq_true] at hselect
    obtain ⟨⟨hthread, hns⟩, hcheckpoint⟩ := hselect
    refine ⟨(r.threadId, r.checkpointNs, checkpoints),
      mem_namespaces.mpr ⟨hthread, byNs, ht, hn⟩, ?_⟩
    simp only [hns, if_true, selectedOf, List.mem_map, List.mem_filter]
    exact ⟨(r.checkpointId, r.stored),
      ⟨(descending_perm _).mem_iff.mpr (Dict.get?_eq_some.mp hid), hcheckpoint⟩, rfl⟩

end InMemorySaver

end Memory

section Conditions

open Json SqliteStore

variable {F : Type} [SqliteFloats F] (repr : F → String)

-- The parameter that a query value which is a number becomes.
def boundQuery : Json F → SqlValue F
  | .bool b => .integer (if b then 1 else 0)
  | .int n => .integer n
  | .float x => bindReal x
  | _ => .null

-- Where comparing a metadata value with a query value gives the same answer in both savers.
def ValueAlike (v x : Json F) : Prop :=
  match x with
  | .null => True
  | .str s => jsonText (SqliteSaver.metadataText repr) v ≠ some s
  | .bool _ | .int _ | .float _ => ∀ n m, v.number? = some n → x.number? = some m →
      (sqlNumber n).same (boundQuery x) = numbersEqual m n
  | .list _ | .dict _ =>
      (v = .str (jsonDumps repr true x) ∨
        jsonText (SqliteSaver.metadataText repr) v = some (jsonDumps repr true x)) ↔
      x.equal v = true

def selectsMetadata (key : String) (v x : Json F) : Bool :=
  match SqliteSaver.whereValue repr key x with
  | .ok c => c.test (sqlValue (SqliteSaver.metadataText repr) v) = some true
  | .error _ => false

-- A key with a dot is a path in SQLite: there the value under the key and the one at the path
-- count.
def FilterAlike (metadata : List (String × Json F)) (f : String × Json F) : Prop :=
  ValueAlike repr (get metadata f.1) f.2 ↔
    selectsMetadata repr f.1 (get metadata f.1) f.2 =
      selectsMetadata repr f.1 (atPath (path f.1) (.dict metadata)) f.2

variable {repr} {v x : Json F} {key : String} {c : Condition F}

theorem null_equal : (Json.null : Json F).equal v = true ↔ v = .null := by
  cases v <;> simp [equal, number?]

theorem str_equal {s : String} : (Json.str s : Json F).equal v = true ↔ v = .str s := by
  cases v <;> simp [equal, number?, eq_comm]

theorem number_equal {m : Number F} (hx : x.number? = some m) :
    x.equal v = true ↔ ∃ n, v.number? = some n ∧ numbersEqual m n = true := by
  cases x <;> cases hx <;> cases v <;> simp [equal, number?]

theorem storageClass_boundQuery (x : Json F) : (boundQuery x).storageClass ≠ 2 := by
  cases x with
  | float y =>
    simp only [boundQuery, bindReal]
    split <;> simp [SqlValue.storageClass]
  | _ => simp [boundQuery, SqlValue.storageClass]

theorem number_alike (hfinite : FiniteFloat v) {m : Number F} (hx : x.number? = some m) :
    ((sqlValue (SqliteSaver.metadataText repr) v).compare .eq (boundQuery x) = some true ↔
        x.equal v = true) ↔
      ∀ n m, v.number? = some n → x.number? = some m →
        (sqlNumber n).same (boundQuery x) = numbersEqual m n := by
  rw [compare_eq_iff, same_value hfinite (storageClass_boundQuery x), number_equal hx]
  constructor
  · intro h n m' hn hm
    cases hm.symm.trans hx
    rw [Bool.eq_iff_iff]
    constructor
    · intro hsame
      obtain ⟨n', hn', hequal⟩ := h.mp ⟨n, hn, hsame⟩
      cases hn.symm.trans hn'
      exact hequal
    · intro hequal
      obtain ⟨n', hn', hsame⟩ := h.mpr ⟨n, hn, hequal⟩
      cases hn.symm.trans hn'
      exact hsame
  · intro h
    constructor
    · rintro ⟨n, hn, hsame⟩
      exact ⟨n, hn, by rw [← h n m hn hx, hsame]⟩
    · rintro ⟨n, hn, hequal⟩
      exact ⟨n, hn, by rw [h n m hn hx, hequal]⟩

theorem whereValue_alike (hfinite : FiniteFloat v)
    (h : SqliteSaver.whereValue repr key x = .ok c) :
    (c.test (sqlValue (SqliteSaver.metadataText repr) v) = some true ↔ x.equal v = true) ↔
      ValueAlike repr v x := by
  have hint : ∀ (k : Int) (p : SqlValue F), SqliteSaver.bindInt k = .ok p → p = .integer k := by
    intro k p hp
    simp only [SqliteSaver.bindInt] at hp
    split at hp
    · exact (Except.ok.inj hp).symm
    · cases hp
  cases x with
  | null =>
    cases h
    simp [Condition.test, isNull_sqlValue hfinite, null_equal, ValueAlike]
  | str s =>
    cases h
    simp only [Condition.test, compare_eq_iff, same_text_iff hfinite, str_equal, ValueAlike]
    constructor
    · intro h htext
      rw [h.mp (.inr htext)] at htext
      cases htext
    · intro h
      exact ⟨fun hor => hor.resolve_right h, .inl⟩
  | bool b =>
    simp only [SqliteSaver.whereValue] at h
    obtain ⟨p, hp, rfl⟩ := map_ok h
    rw [hint _ p hp]
    have hx : (Json.bool b : Json F).number? = some _ := rfl
    exact number_alike hfinite hx
  | int n =>
    simp only [SqliteSaver.whereValue] at h
    obtain ⟨p, hp, rfl⟩ := map_ok h
    rw [hint _ p hp]
    have hx : (Json.int n : Json F).number? = some _ := rfl
    exact number_alike hfinite hx
  | float y =>
    cases h
    have hx : (Json.float y : Json F).number? = some _ := rfl
    exact number_alike hfinite hx
  | list xs =>
    cases h
    simp [Condition.test, compare_eq_iff, same_text_iff hfinite, ValueAlike]
  | dict items =>
    cases h
    simp [Condition.test, compare_eq_iff, same_text_iff hfinite, ValueAlike]

theorem key_whereValue (h : SqliteSaver.whereValue repr key x = .ok c) : c.key = key := by
  cases x with
  | bool b =>
    simp only [SqliteSaver.whereValue] at h
    obtain ⟨p, -, rfl⟩ := map_ok h
    rfl
  | int n =>
    simp only [SqliteSaver.whereValue] at h
    obtain ⟨p, -, rfl⟩ := map_ok h
    rfl
  | _ =>
    cases h
    rfl

-- Whether the condition that is generated for one filter entry holds of stored metadata.
def sqliteHolds (repr : F → String) (metadata : List (String × Json F)) (f : String × Json F) :
    Bool :=
  selectsMetadata repr f.1 (atPath (path f.1) (.dict metadata)) f.2

theorem all_holds {filter : List (String × Json F)} {conditions : List (Condition F)}
    (h : SqliteSaver.metadataPredicate repr filter = .ok conditions)
    (metadata : List (String × Json F)) :
    conditions.all (holds (SqliteSaver.metadataText repr) metadata) =
      filter.all (sqliteHolds repr metadata) := by
  induction filter generalizing conditions with
  | nil =>
    cases h
    rfl
  | cons f filter ih =>
    simp only [SqliteSaver.metadataPredicate] at h
    split at h
    · cases h
    · cases hc : SqliteSaver.whereValue repr f.1 f.2 with
      | error e =>
        rw [hc] at h
        cases h
      | ok c =>
        rw [hc] at h
        obtain ⟨rest, hrest, rfl⟩ := map_ok h
        rw [List.all_cons, List.all_cons, ih hrest, holds_of_key (key_whereValue hc)]
        simp [sqliteHolds, selectsMetadata, hc]

theorem filter_alike {filter : List (String × Json F)} {conditions : List (Condition F)}
    (h : SqliteSaver.metadataPredicate repr filter = .ok conditions)
    {metadata : List (String × Json F)} {f : String × Json F} (hf : f ∈ filter)
    (hfinite : FiniteFloat (get metadata f.1)) :
    sqliteHolds repr metadata f = f.2.equal (get metadata f.1) ↔
      FilterAlike repr metadata f := by
  have hvalue : ∃ c, SqliteSaver.whereValue repr f.1 f.2 = .ok c := by
    induction filter generalizing conditions with
    | nil => cases hf
    | cons f' filter ih =>
      simp only [SqliteSaver.metadataPredicate] at h
      split at h
      · cases h
      · cases hc : SqliteSaver.whereValue repr f'.1 f'.2 with
        | error e =>
          rw [hc] at h
          cases h
        | ok c =>
          rw [hc] at h
          obtain ⟨rest, hrest, rfl⟩ := map_ok h
          rcases List.mem_cons.mp hf with rfl | hmem
          · exact ⟨c, hc⟩
          · exact ih hrest hmem
  obtain ⟨c, hc⟩ := hvalue
  have hv : selectsMetadata repr f.1 (get metadata f.1) f.2 =
      decide (c.test (sqlValue (SqliteSaver.metadataText repr) (get metadata f.1)) = some true) := by
    simp only [selectsMetadata, hc]
  rw [FilterAlike, ← whereValue_alike hfinite hc, answer_iff, ← hv, sqliteHolds]
  cases selectsMetadata repr f.1 (get metadata f.1) f.2 <;>
    cases selectsMetadata repr f.1 (atPath (path f.1) (.dict metadata)) f.2 <;>
    cases f.2.equal (get metadata f.1) <;> simp

end Conditions

section Agreement

variable {F : Type} [SqliteFloats F] (repr : F → String)

def Agree (storage : MemoryStorage F) (rows : List (Row F)) (q : Query F) (limit : Option Int) :
    Prop :=
  ∀ result, SqliteSaver.Lists repr q limit rows result →
    InMemorySaver.list q limit storage = result

variable {repr} {storage : MemoryStorage F} {rows : List (Row F)} {q : Query F}
  {conditions : List (Condition F)}

theorem agree_iff (haccepted : SqliteSaver.metadataPredicate repr q.filter = .ok conditions)
    (limit : Option Int) :
    Agree repr storage rows q limit ↔
      ∀ ordered : List (Row F),
        ordered.Perm (rows.filter (SqliteSaver.searchWhere repr q conditions)) →
        Descends Row.checkpointId ordered →
        spend limit (InMemorySaver.matched q storage) = SqliteSaver.takeLimit limit ordered := by
  simp only [Agree, InMemorySaver.list_eq]
  constructor
  · exact fun h ordered hperm hdescends =>
      h _ ⟨conditions, haccepted, ordered, hperm, hdescends, rfl⟩
  · rintro h _ ⟨conditions', haccepted', ordered, hperm, hdescends, rfl⟩
    cases haccepted.symm.trans haccepted'
    exact h ordered hperm hdescends

omit [SqliteFloats F] in
theorem takeLimit_eq {limit : Option Int} (h : ∀ n, limit = some n → 0 ≤ n)
    (l : List (Row F)) : SqliteSaver.takeLimit limit l = spend limit l := by
  cases limit with
  | none => rfl
  | some n =>
    have hn : ¬ n < 0 := Int.not_lt.mpr (h n rfl)
    simp [SqliteSaver.takeLimit, spend, hn]

theorem agree_always_iff (h : SameContent storage rows)
    (haccepted : SqliteSaver.metadataPredicate repr q.filter = .ok conditions) :
    (∀ limit : Option Int, (∀ n, limit = some n → 0 ≤ n) → Agree repr storage rows q limit) ↔
      (∀ r ∈ rows,
        InMemorySaver.selects q r = SqliteSaver.searchWhere repr q conditions r) ∧
      StrictlyDescends Row.checkpointId (InMemorySaver.matched q storage) := by
  have hnodup : (rows.filter (SqliteSaver.searchWhere repr q conditions)).Nodup :=
    h.nodup.filter _
  constructor
  · intro hagree
    have hall := (agree_iff haccepted none).mp (hagree none (fun n hn => by cases hn))
    obtain ⟨hperm, hstrict⟩ := (all_descending_eq_iff hnodup).mp
      (fun m hm hdescends => (hall m hm hdescends).symm)
    refine ⟨fun r hr => ?_, hstrict⟩
    have hmem := hperm.mem_iff (a := r)
    rw [show spend none (InMemorySaver.matched q storage) = InMemorySaver.matched q storage
      from rfl, InMemorySaver.mem_matched h, List.mem_filter] at hmem
    simpa [hr, ← Bool.eq_iff_iff] using hmem
  · rintro ⟨hsame, hstrict⟩ limit hlimit
    refine (agree_iff haccepted limit).mpr fun ordered hperm hdescends => ?_
    rw [takeLimit_eq hlimit]
    have hmatched : (InMemorySaver.matched q storage).Nodup :=
      hstrict.imp fun {a b} hlt heq => by
        rw [heq] at hlt
        exact lt_irrefl _ hlt
    have hperm' : (InMemorySaver.matched q storage).Perm
        (rows.filter (SqliteSaver.searchWhere repr q conditions)) := by
      refine (List.perm_ext_iff_of_nodup hmatched hnodup).mpr fun r => ?_
      rw [InMemorySaver.mem_matched h, List.mem_filter]
      exact and_congr_right fun hr => by rw [hsame r hr]
    rw [eq_of_strictlyDescends hdescends (hperm.trans hperm'.symm) hstrict]

theorem agree_negative_iff
    (haccepted : SqliteSaver.metadataPredicate repr q.filter = .ok conditions) {n : Int}
    (hn : n < 0) :
    Agree repr storage rows q (some n) ↔
      ∀ r ∈ rows, SqliteSaver.searchWhere repr q conditions r = false := by
  have hzero : n.toNat = 0 := by omega
  rw [agree_iff haccepted]
  simp only [spend, hzero, List.take_zero, SqliteSaver.takeLimit, hn, if_true]
  constructor
  · intro hall r hr
    have hempty := hall _ (descending_perm (f := Row.checkpointId) _) (descends_descending _)
    have hnil : rows.filter (SqliteSaver.searchWhere repr q conditions) = [] := by
      have hperm := descending_perm (f := Row.checkpointId)
        (rows.filter (SqliteSaver.searchWhere repr q conditions))
      rw [← hempty] at hperm
      exact hperm.symm.eq_nil
    simpa using List.filter_eq_nil_iff.mp hnil r hr
  · intro hnone ordered hperm _
    have hnil : rows.filter (SqliteSaver.searchWhere repr q conditions) = [] :=
      List.filter_eq_nil_iff.mpr fun r hr => by simp [hnone r hr]
    rw [hnil] at hperm
    exact hperm.eq_nil.symm

theorem selects_eq (haccepted : SqliteSaver.metadataPredicate repr q.filter = .ok conditions)
    (hbefore : q.before ≠ some none ∧ q.before ≠ some (some "")) (r : Row F)
    (h : ∀ f ∈ q.filter,
      sqliteHolds repr r.stored.metadata f = f.2.equal (Json.get r.stored.metadata f.1)) :
    InMemorySaver.selects q r = SqliteSaver.searchWhere repr q conditions r := by
  have hfilter : InMemorySaver.metadataMatches q.filter r.stored.metadata =
      conditions.all (SqliteStore.holds (SqliteSaver.metadataText repr) r.stored.metadata) := by
    rw [all_holds haccepted, Bool.eq_iff_iff, InMemorySaver.metadataMatches, List.all_eq_true,
      List.all_eq_true]
    exact forall₂_congr fun f hf => by rw [h f hf]
  have hconfig : (InMemorySaver.matchesThread q r.threadId &&
      InMemorySaver.matchesNamespace q r.checkpointNs &&
      InMemorySaver.matchesId q r.checkpointId) = SqliteSaver.selectsConfig q r := by
    cases hq : q.config with
    | none => simp [InMemorySaver.matchesThread, InMemorySaver.matchesNamespace,
        InMemorySaver.matchesId, SqliteSaver.selectsConfig, hq, truthy]
    | some config => simp [InMemorySaver.matchesThread, InMemorySaver.matchesNamespace,
        InMemorySaver.matchesId, SqliteSaver.selectsConfig, hq]
  have hbefore' : InMemorySaver.matchesBefore q r.checkpointId =
      SqliteSaver.selectsBefore q r := by
    cases hq : q.before with
    | none => simp [InMemorySaver.matchesBefore, SqliteSaver.selectsBefore, hq, truthy]
    | some before =>
      cases before with
      | none => exact absurd hq hbefore.1
      | some id =>
        have hid : id ≠ "" := by
          rintro rfl
          exact hbefore.2 hq
        simp [InMemorySaver.matchesBefore, SqliteSaver.selectsBefore, hq, truthy,
          Option.filter, hid]
  rw [InMemorySaver.selects, InMemorySaver.matchesCheckpoint, hfilter, hbefore',
    SqliteSaver.searchWhere, ← hconfig]
  simp only [Bool.and_assoc, Bool.and_comm, Bool.and_left_comm]

theorem lists_agree_iff (h : SameContent storage rows)
    (haccepted : SqliteSaver.metadataPredicate repr q.filter = .ok conditions) :
    ((∀ limit : Option Int, (∀ n, limit = some n → 0 ≤ n) → Agree repr storage rows q limit) ↔
        (∀ r ∈ rows,
          InMemorySaver.selects q r = SqliteSaver.searchWhere repr q conditions r) ∧
        StrictlyDescends Row.checkpointId (InMemorySaver.matched q storage)) ∧
      (∀ n : Int, n < 0 → (Agree repr storage rows q (some n) ↔
        ∀ r ∈ rows, SqliteSaver.searchWhere repr q conditions r = false)) ∧
      ∀ r ∈ rows, (∀ key, SqliteStore.FiniteFloat (Json.get r.stored.metadata key)) →
        (∀ f ∈ q.filter,
          (sqliteHolds repr r.stored.metadata f =
              f.2.equal (Json.get r.stored.metadata f.1) ↔
            FilterAlike repr r.stored.metadata f)) ∧
        (q.before ≠ some none ∧ q.before ≠ some (some "") →
          (∀ f ∈ q.filter, FilterAlike repr r.stored.metadata f) →
          InMemorySaver.selects q r = SqliteSaver.searchWhere repr q conditions r) := by
  refine ⟨agree_always_iff h haccepted, fun n hn => agree_negative_iff haccepted hn,
    fun r _ hfinite => ⟨fun f hf => filter_alike haccepted hf (hfinite f.1), ?_⟩⟩
  intro hbefore halike
  exact selects_eq haccepted hbefore r fun f hf =>
    (filter_alike haccepted hf (hfinite f.1)).mpr (halike f hf)

end Agreement

section TwoThreads

open SqliteStore

def savedInput : StoredCheckpoint (Option Int) := ⟨none, [("source", .str "input")]⟩

def twoThreads : MemoryStorage (Option Int) :=
  (Dict.empty.set "a" (Dict.empty.set "" (Dict.empty.set "1" savedInput))).set "b"
    (Dict.empty.set "" (Dict.empty.set "2" savedInput))

def twoRows : List (Row (Option Int)) := [⟨"a", "", "1", savedInput⟩, ⟨"b", "", "2", savedInput⟩]

theorem get?_single {α : Type} {k k' : String} {v v' : α}
    (h : ((Dict.empty : Dict String α).set k v).get? k' = some v') : k' = k ∧ v' = v := by
  rw [Dict.get?_set] at h
  split at h
  · rename_i hk
    exact ⟨hk, (Option.some.inj h).symm⟩
  · cases h

theorem same_twoThreads : SameContent twoThreads twoRows := by
  constructor
  · refine List.nodup_cons.mpr ⟨fun h => ?_, List.nodup_singleton _⟩
    have hthread := congrArg Row.threadId (List.mem_singleton.mp h)
    exact absurd hthread (by decide)
  · rintro ⟨threadId, checkpointNs, checkpointId, stored⟩
    constructor
    · intro h
      rcases List.mem_cons.mp h with h | h
      · cases h
        exact ⟨_, _, rfl, rfl, rfl⟩
      · cases List.mem_singleton.mp h
        exact ⟨_, _, rfl, rfl, rfl⟩
    · rintro ⟨byNs, checkpoints, ht, hn, hid⟩
      simp only [twoThreads] at ht
      rw [Dict.get?_set] at ht
      split at ht
      · rename_i hthread
        cases ht
        obtain ⟨rfl, rfl⟩ := get?_single hn
        obtain ⟨rfl, rfl⟩ := get?_single hid
        cases hthread
        exact List.mem_cons_of_mem _ (List.mem_singleton_self _)
      · obtain ⟨rfl, rfl⟩ := get?_single ht
        obtain ⟨rfl, rfl⟩ := get?_single hn
        obtain ⟨rfl, rfl⟩ := get?_single hid
        exact List.mem_cons_self

theorem selectedOf_single (q : Query (Option Int)) (threadId checkpointId : String) :
    InMemorySaver.selectedOf q threadId ""
        (descending Prod.fst (Dict.empty.set checkpointId savedInput).items) =
      InMemorySaver.selectedOf q threadId "" [(checkpointId, savedInput)] := by
  have hitems : (Dict.empty.set checkpointId savedInput).items = [(checkpointId, savedInput)] := rfl
  rw [hitems, descending, List.mergeSort_singleton]

def showFloat (x : Option Int) : String := (x.map toString).getD "NaN"

def everything : Query (Option Int) := ⟨none, [], none⟩

def ofThread : Query (Option Int) := ⟨some ⟨"a", none, none⟩, [("source", .str "input")], none⟩

theorem lists_agree_ofThread :
    Agree showFloat twoThreads twoRows ofThread none ∧
      Agree showFloat twoThreads twoRows ofThread (some 1) := by
  have haccepted : SqliteSaver.metadataPredicate showFloat ofThread.filter =
      .ok [.compare "source" .eq (.text "input")] := rfl
  have hall : ∀ limit : Option Int, (∀ n, limit = some n → 0 ≤ n) →
      Agree showFloat twoThreads twoRows ofThread limit := by
    refine (lists_agree_iff same_twoThreads haccepted).1.mpr ⟨fun r hr => ?_, ?_⟩
    · rcases List.mem_cons.mp hr with rfl | hr
      · rfl
      · cases List.mem_singleton.mp hr
        rfl
    · have hmatched : InMemorySaver.matched ofThread twoThreads =
          InMemorySaver.selectedOf ofThread "a" ""
            (descending Prod.fst (Dict.empty.set "1" savedInput).items) ++ [] := rfl
      rw [hmatched, selectedOf_single]
      exact List.pairwise_singleton _ _
  refine ⟨hall none nofun, hall (some 1) (fun n hn => ?_)⟩
  obtain rfl := Option.some.inj hn
  decide

theorem newest_dropped :
    SameContent twoThreads twoRows ∧ SqliteSaver.metadataPredicate showFloat [] = .ok [] ∧
      ¬ Agree showFloat twoThreads twoRows everything (some 1) := by
  refine ⟨same_twoThreads, rfl, fun hagree => ?_⟩
  have hlisted : InMemorySaver.list everything (some 1) twoThreads =
      [⟨"a", "", "1", savedInput⟩] := by
    have hmatched : InMemorySaver.matched everything twoThreads =
        InMemorySaver.selectedOf everything "a" ""
            (descending Prod.fst (Dict.empty.set "1" savedInput).items) ++
          (InMemorySaver.selectedOf everything "b" ""
            (descending Prod.fst (Dict.empty.set "2" savedInput).items) ++ []) := rfl
    rw [InMemorySaver.list_eq, hmatched, selectedOf_single, selectedOf_single]
    rfl
  have hnewest := hagree [⟨"b", "", "2", savedInput⟩]
    ⟨[], rfl, twoRows.reverse, twoRows.reverse_perm, ?_, rfl⟩
  · rw [hlisted] at hnewest
    have hthread := congrArg (List.map Row.threadId) hnewest
    exact absurd hthread (by decide)
  · refine List.pairwise_cons.mpr ⟨fun r hr => ?_, List.pairwise_singleton _ _⟩
    cases List.mem_singleton.mp hr
    decide +kernel

end TwoThreads

end Listing

end LangGraph

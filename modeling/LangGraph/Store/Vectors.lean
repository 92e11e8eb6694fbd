import LangGraph.Store.Embeddings

namespace LangGraph

open Collections Transition

namespace Store

namespace InMemoryStore

variable {F Vec X : Type}

section Items

theorem cell_data_touch (ns : Namespace) (s : InMemoryStore F Vec) (ns' : Namespace)
    (key : String) : (touchNamespace ns s).data.cell ns' key = s.data.cell ns' key := by
  rw [touchNamespace]
  split
  · rfl
  · rename_i hnone
    have hget : s.data.get? ns = none := by
      rw [Dict.contains, Option.isSome_iff_ne_none, not_not] at hnone
      exact hnone
    rw [Dict.cell, Dict.getD, Dict.get?_set, Dict.cell, Dict.getD]
    split
    · rename_i hns
      rw [hns, hget]
      rfl
    · rfl

theorem cell_data_applyPut (s : InMemoryStore F Vec) (put : StoreKey × Option (PutValue F))
    (ns : Namespace) (key : String) :
    (applyPut s put).data.cell ns key =
      if put.1 = (ns, key) then put.2.map PutValue.value else s.data.cell ns key := by
  obtain ⟨⟨ns', key'⟩, value⟩ := put
  cases value with
  | none =>
    have hdata : (applyPut s ((ns', key'), none)).data =
        s.data.set ns' ((s.data.getD ns' ∅).filter (fun k _ => k ≠ key')) := rfl
    rw [hdata, Dict.cell, Dict.getD, Dict.get?_set]
    by_cases hns : ns = ns'
    · subst hns
      rw [if_pos rfl, Option.getD_some, Dict.get?_filter]
      by_cases hkey : key' = key
      · subst hkey
        rw [if_pos rfl]
        cases (s.data.getD ns ∅).get? key' <;> simp
      · rw [if_neg (fun h => hkey (Prod.mk.inj h).2), Dict.cell]
        have hne : key ≠ key' := fun h => hkey h.symm
        cases (s.data.getD ns ∅).get? key <;> simp [hne]
    · rw [if_neg hns, if_neg (fun h => hns (Prod.mk.inj h).1.symm)]
      rfl
  | some value =>
    have hdata : (applyPut s ((ns', key'), some value)).data =
        s.data.putCell (value.value, ns', key') := rfl
    rw [hdata, Dict.cell_putCell]
    rfl

theorem cell_data_applyPutOps (puts : PutOps F) (s : InMemoryStore F Vec) (key : StoreKey) :
    (applyPutOps puts s).data.cell key.1 key.2 =
      match puts.get? key with
      | none => s.data.cell key.1 key.2
      | some value => value.map PutValue.value := by
  have hfold (l : List (StoreKey × Option (PutValue F))) (hl : (l.map Prod.fst).Nodup)
      (s : InMemoryStore F Vec) : (l.foldl applyPut s).data.cell key.1 key.2 =
        match Dict.lookup key l with
        | none => s.data.cell key.1 key.2
        | some value => value.map PutValue.value := by
    induction l generalizing s with
    | nil => rfl
    | cons put l ih =>
      obtain ⟨hout, hrest⟩ := List.nodup_cons.mp hl
      rw [List.foldl_cons, ih hrest, Dict.lookup, cell_data_applyPut]
      by_cases hkey : put.1 = key
      · have hnone : Dict.lookup key l = none := Dict.lookup_eq_none.mpr (hkey ▸ hout)
        rw [if_pos hkey, if_pos hkey, hnone]
      · rw [if_neg hkey, if_neg hkey]
  exact hfold puts.items puts.nodup s

variable [Floats F]

theorem prepareOp_store (p : Prepared F Vec) (op : StoreOp F) :
    (prepareOp p op).store = p.store ∨ ∃ ns, (prepareOp p op).store = touchNamespace ns p.store := by
  unfold prepareOp
  split
  · exact Or.inl rfl
  · split
    · rename_i ns key r
      exact Or.inr ⟨ns, rfl⟩
    · split
      · exact Or.inl rfl
      · exact Or.inl rfl
    · exact Or.inl rfl
    · exact Or.inl rfl

-- Reads leave the items and the vectors as they are.
theorem prepareOps_content (ops : List (StoreOp F)) (s : InMemoryStore F Vec) :
    (∀ ns key, (prepareOps ops s).store.data.cell ns key = s.data.cell ns key) ∧
      (prepareOps ops s).store.vectors = s.vectors := by
  have hfold (p : Prepared F Vec) :
      (∀ ns key, (ops.foldl prepareOp p).store.data.cell ns key = p.store.data.cell ns key) ∧
        (ops.foldl prepareOp p).store.vectors = p.store.vectors := by
    induction ops generalizing p with
    | nil => exact ⟨fun _ _ => rfl, rfl⟩
    | cons op ops ih =>
      obtain ⟨hdata, hvectors⟩ := ih (prepareOp p op)
      rcases prepareOp_store p op with hsame | ⟨ns, htouch⟩
      · rw [hsame] at hdata hvectors
        exact ⟨hdata, hvectors⟩
      · rw [htouch] at hdata hvectors
        refine ⟨fun ns' key => ?_, hvectors.trans (vectors_touch ns p.store)⟩
        rw [List.foldl_cons, hdata, cell_data_touch]
  exact hfold ⟨s, [], ∅, [], none⟩

theorem abatch_failed {index : Option (IndexConfig F Vec X)} {ops : List (StoreOp F)}
    {s : InMemoryStore F Vec} (h : ¬ Runs index ops s) :
    (∃ e, (abatch index ops s).1 = .error e) ∧
      (abatch index ops s).2 = (prepareOps ops s).store := by
  obtain ⟨e, he⟩ := (raises_iff index ops s).mpr h
  refine ⟨⟨e, he⟩, ?_⟩
  simp only [abatch] at he ⊢
  split at he
  · rfl
  · split at he
    · rfl
    · split at he
      · rfl
      · split at he
        · rfl
        · cases he

omit [Floats F] in
theorem data_embedPuts {index : Option (IndexConfig F Vec X)}
    {toEmbed : Dict String (List (StoreKey × String))} {s store : InMemoryStore F Vec}
    (h : embedPuts index toEmbed s = .ok store) : store.data = s.data := by
  cases index with
  | none => rw [← Except.ok.inj h]
  | some config =>
    obtain ⟨-, -, -, hdata, -⟩ := embedPuts_vectors h
    exact hdata

theorem abatch_data {index : Option (IndexConfig F Vec X)} {ops : List (StoreOp F)}
    {s : InMemoryStore F Vec} (h : Runs index ops s) (key : StoreKey) :
    (abatch index ops s).2.data.cell key.1 key.2 =
      match (lastPuts ops).get? key with
      | none => s.data.cell key.1 key.2
      | some value => value.map PutValue.value := by
  obtain ⟨store, hstore, hbatch⟩ := abatch_store h
  rw [hbatch, cell_data_applyPutOps, data_embedPuts hstore, (prepareOps_content ops s).1]

end Items

-- The store, and for each item the paths of its last put with their texts' vectors.
structure Indexed (F Vec : Type) where
  store : InMemoryStore F Vec
  last : StoreKey → List (String × Vec)

def putVectors (config : IndexConfig F Vec X) (puts : PutOps F) (key : StoreKey) :
    List (String × Vec) :=
  match config.embedDocuments (extractTexts (some config) puts).keys with
  | .error _ => []
  | .ok vs =>
      ((foundTexts config puts).filter (fun f => f.2.1 = key)).filterMap (fun f =>
        (Dict.lookup f.1 ((extractTexts (some config) puts).keys.zip vs)).map
          (fun v => (f.2.2, v)))

namespace Indexed

variable [Floats F] (config : IndexConfig F Vec X)

def start : Indexed F Vec := ⟨⟨∅, ∅⟩, fun _ => []⟩

-- A batch that raises puts nothing.
def step (st : Indexed F Vec) (ops : List (StoreOp F)) : Indexed F Vec :=
  match abatch (some config) ops st.store with
  | (.error _, store) => { st with store := store }
  | (.ok _, store) =>
      { store := store
        last := fun key =>
          match (lastPuts ops).get? key with
          | none => st.last key
          | some none => []
          | some (some _) => putVectors config (lastPuts ops) key }

omit [Floats F] in
structure Current (st : Indexed F Vec) : Prop where
  vectors : ∀ key path, st.store.vectors.cell key path = Dict.lookup path (st.last key).reverse
  absent : ∀ key, st.store.data.cell key.1 key.2 = none → ∀ path,
    st.store.vectors.cell key path = none

-- A put has a text at every path that the item has a vector for.
def Covers (st : Indexed F Vec) (ops : List (StoreOp F)) : Prop :=
  Runs (some config) ops st.store → ∀ key put, (lastPuts ops).get? key = some (some put) →
    ∀ path v, st.store.vectors.cell key path = some v →
      ∃ text, (text, key, path) ∈ foundTexts config (lastPuts ops)

end Indexed

section Pairs

variable {found : List (String × StoreKey × String)} {vs : List Vec}

theorem lookup_pair (key : StoreKey) (path : String) (l : List ((StoreKey × String) × Vec)) :
    Dict.lookup (key, path) l =
      Dict.lookup path ((l.filter (fun e => e.1.1 = key)).map (fun e => (e.1.2, e.2))) := by
  induction l with
  | nil => rfl
  | cons e l ih =>
    obtain ⟨⟨k, p⟩, v⟩ := e
    rw [Dict.lookup, ih]
    by_cases hk : k = key
    · subst hk
      by_cases hp : p = path
      · subst hp
        simp [Dict.lookup]
      · simp [Dict.lookup, hp]
    · rw [if_neg (fun h => hk (Prod.mk.inj h).1), List.filter_cons_of_neg (by simpa using hk)]

theorem newVectors_zip (h : (found.map Prod.fst).Nodup) :
    newVectors vs (Dict.group found) =
      ((found.zip vs).map (fun e => (e.1.2, e.2))).reverse := by
  rw [newVectors, values_group h, List.zip_map_right, ← List.zip_swap vs found, List.map_reverse,
    List.map_map, List.map_map]
  rfl

theorem filterMap_zip (hlength : vs.length = found.length) (key : StoreKey)
    (g : String × StoreKey × String → Option (String × Vec))
    (hg : ∀ e ∈ found.zip vs, g e.1 = some (e.1.2.2, e.2)) :
    (found.filter (fun f => f.2.1 = key)).filterMap g =
      ((found.zip vs).filter (fun e => e.1.2.1 = key)).map (fun e => (e.1.2.2, e.2)) := by
  induction found generalizing vs with
  | nil => rfl
  | cons f found ih =>
    cases vs with
    | nil => simp at hlength
    | cons v vs =>
      rw [List.zip_cons_cons] at hg ⊢
      obtain ⟨hf, hrest⟩ := List.forall_mem_cons.mp hg
      have hih := ih (Nat.succ.inj hlength) hrest
      by_cases hkey : f.2.1 = key
      · rw [List.filter_cons_of_pos (by simpa using hkey),
          List.filter_cons_of_pos (by simpa using hkey), List.filterMap_cons, hf, hih]
        rfl
      · rw [List.filter_cons_of_neg (by simpa using hkey),
          List.filter_cons_of_neg (by simpa using hkey), hih]

end Pairs

-- The embedding function gives one vector for each text.
def OneEach (config : IndexConfig F Vec X) : Prop :=
  ∀ texts vs, config.embedDocuments texts = .ok vs → vs.length = texts.length

section Batch

variable [Floats F] {config : IndexConfig F Vec X} {ops : List (StoreOp F)}
  {s : InMemoryStore F Vec}

theorem runs_texts (hembed : OneEach config) (h : Runs (some config) ops s) :
    ((foundTexts config (lastPuts ops)).map Prod.fst).Nodup := by
  have hvalues := Dict.length_values_group (foundTexts config (lastPuts ops))
  rw [← Dict.length_keys_group_iff]
  rcases h.texts config rfl _ rfl with hnil | ⟨vs, hvs, hcount⟩
  · have hitems : (Dict.group (foundTexts config (lastPuts ops))).items = [] := hnil
    rw [Dict.values, hitems] at hvalues
    rw [Dict.keys, hitems]
    exact hvalues
  · exact (hembed _ vs hvs).symm.trans (hcount.symm.trans hvalues)

theorem lookup_newVectors (hembed : OneEach config) (h : Runs (some config) ops s) {vs : List Vec}
    (hlength : vs.length = (foundTexts config (lastPuts ops)).length)
    (hasked : foundTexts config (lastPuts ops) ≠ [] →
      config.embedDocuments (extractTexts (some config) (lastPuts ops)).keys = .ok vs)
    (key : StoreKey) (path : String) :
    Dict.lookup (key, path) (newVectors vs (extractTexts (some config) (lastPuts ops))) =
      Dict.lookup path (putVectors config (lastPuts ops) key).reverse := by
  have htexts := runs_texts hembed h
  rw [extractTexts_eq, newVectors_zip htexts, lookup_pair, List.filter_reverse, List.map_reverse,
    List.filter_map, List.map_map]
  have hput : putVectors config (lastPuts ops) key =
      (((foundTexts config (lastPuts ops)).zip vs).filter (fun e => e.1.2.1 = key)).map
        (fun e => (e.1.2.2, e.2)) := by
    by_cases hnil : foundTexts config (lastPuts ops) = []
    · rw [putVectors, hnil]
      cases config.embedDocuments (extractTexts (some config) (lastPuts ops)).keys <;> rfl
    · rw [putVectors, hasked hnil]
      refine filterMap_zip hlength key _ (fun e he => ?_)
      have hkeys : (extractTexts (some config) (lastPuts ops)).keys =
          (foundTexts config (lastPuts ops)).map Prod.fst := keys_group htexts
      rw [hkeys, lookup_text htexts hlength he]
      rfl
  rw [hput]
  rfl

theorem lookup_putVectors (hembed : OneEach config) (h : Runs (some config) ops s)
    {key : StoreKey} {path : String} :
    Dict.lookup path (putVectors config (lastPuts ops) key).reverse ≠ none ↔
      ∃ text, (text, key, path) ∈ foundTexts config (lastPuts ops) := by
  have htexts := runs_texts hembed h
  obtain ⟨vs, hlength, hasked, -⟩ := abatch_vectors h
  rw [← lookup_newVectors hembed h hlength hasked, ne_eq, Dict.lookup_eq_none, not_not,
    extractTexts_eq, newVectors_zip htexts, List.map_reverse, List.mem_reverse, List.map_map]
  constructor
  · intro hmem
    obtain ⟨⟨⟨text, key', path'⟩, v⟩, he, hpair⟩ := List.mem_map.mp hmem
    cases hpair
    exact ⟨text, (List.of_mem_zip he).1⟩
  · rintro ⟨text, hfound⟩
    obtain ⟨v, hv⟩ := exists_mem_zip hlength hfound
    exact List.mem_map.mpr ⟨_, hv, rfl⟩

end Batch

namespace Indexed

variable [Floats F] {config : IndexConfig F Vec X} {st : Indexed F Vec} {ops : List (StoreOp F)}

theorem step_failed (h : ¬ Runs (some config) ops st.store) :
    st.step config ops = { st with store := (prepareOps ops st.store).store } := by
  obtain ⟨⟨e, he⟩, hstore⟩ := abatch_failed h
  have hpair : abatch (some config) ops st.store = (.error e, (prepareOps ops st.store).store) :=
    Prod.ext he hstore
  rw [step, hpair]

theorem step_ran (h : Runs (some config) ops st.store) :
    st.step config ops =
      { store := (abatch (some config) ops st.store).2
        last := fun key =>
          match (lastPuts ops).get? key with
          | none => st.last key
          | some none => []
          | some (some _) => putVectors config (lastPuts ops) key } := by
  obtain ⟨results, hresults, -⟩ := abatch_ok (some config) h
  have hpair : abatch (some config) ops st.store =
      (.ok results, (abatch (some config) ops st.store).2) := Prod.ext hresults rfl
  rw [step, hpair]

theorem vectors_ran (hembed : OneEach config) (h : Runs (some config) ops st.store)
    (key : StoreKey) (path : String) :
    (abatch (some config) ops st.store).2.vectors.cell key path =
      if deletes (lastPuts ops) key then none
      else (Dict.lookup path (putVectors config (lastPuts ops) key).reverse).or
        (st.store.vectors.cell key path) := by
  obtain ⟨vs, hlength, hasked, hcell⟩ := abatch_vectors h
  rw [hcell, lookup_newVectors hembed h hlength hasked]

theorem unput_vectors (hembed : OneEach config) (h : Runs (some config) ops st.store)
    {key : StoreKey} (hnone : (lastPuts ops).get? key = none) (path : String) :
    (abatch (some config) ops st.store).2.vectors.cell key path =
      st.store.vectors.cell key path := by
  have hlookup : Dict.lookup path (putVectors config (lastPuts ops) key).reverse = none := by
    by_contra hne
    obtain ⟨text, hfound⟩ := (lookup_putVectors hembed h).mp hne
    obtain ⟨put, hput⟩ := mem_foundTexts hfound
    rw [hnone] at hput
    cases hput
  rw [vectors_ran hembed h, hlookup, deletes, hnone]
  rfl

theorem deleted_vectors (hembed : OneEach config) (h : Runs (some config) ops st.store)
    {key : StoreKey} (hgone : (lastPuts ops).get? key = some none) (path : String) :
    (abatch (some config) ops st.store).2.vectors.cell key path = none := by
  rw [vectors_ran hembed h, deletes, hgone]
  rfl

theorem put_vectors (hembed : OneEach config) (h : Runs (some config) ops st.store)
    {key : StoreKey} {put : PutValue F} (hput : (lastPuts ops).get? key = some (some put))
    (path : String) :
    (abatch (some config) ops st.store).2.vectors.cell key path =
      (Dict.lookup path (putVectors config (lastPuts ops) key).reverse).or
        (st.store.vectors.cell key path) := by
  rw [vectors_ran hembed h, deletes, hput]
  rfl

theorem current_failed (hst : st.Current) (h : ¬ Runs (some config) ops st.store) :
    (st.step config ops).Current := by
  obtain ⟨hdata, hvectors⟩ := prepareOps_content ops st.store
  rw [step_failed h]
  refine ⟨fun key path => ?_, fun key habsent path => ?_⟩
  · exact (congrArg (fun d => Dict.cell d key path) hvectors).trans (hst.vectors key path)
  · refine (congrArg (fun d => Dict.cell d key path) hvectors).trans (hst.absent key ?_ path)
    rw [← hdata]
    exact habsent

theorem covers_of_current (hembed : OneEach config) (h : (st.step config ops).Current) :
    st.Covers config ops := by
  intro hruns key put hput path v hv
  have hcell := h.vectors key path
  rw [step_ran hruns] at hcell
  dsimp only at hcell
  rw [hput, put_vectors hembed hruns hput, hv] at hcell
  refine (lookup_putVectors hembed hruns).mp (fun hnone => ?_)
  rw [hnone] at hcell
  cases hcell

theorem current_of_covers (hembed : OneEach config) (hst : st.Current)
    (hruns : Runs (some config) ops st.store) (h : st.Covers config ops) :
    (st.step config ops).Current := by
  rw [step_ran hruns]
  constructor
  · intro key path
    dsimp only
    cases hget : (lastPuts ops).get? key with
    | none => exact (unput_vectors hembed hruns hget path).trans (hst.vectors key path)
    | some value =>
      cases value with
      | none => exact deleted_vectors hembed hruns hget path
      | some put =>
        rw [put_vectors hembed hruns hget]
        cases hold : st.store.vectors.cell key path with
        | none => exact Option.or_none
        | some v =>
          have hlookup := (lookup_putVectors hembed hruns).mpr (h hruns key put hget path v hold)
          obtain ⟨v', hv'⟩ := Option.ne_none_iff_exists'.mp hlookup
          rw [hv', Option.some_or]
  · intro key habsent path
    rw [abatch_data hruns] at habsent
    cases hget : (lastPuts ops).get? key with
    | none =>
      rw [hget] at habsent
      exact (unput_vectors hembed hruns hget path).trans (hst.absent key habsent path)
    | some value =>
      rw [hget] at habsent
      cases value with
      | none => exact deleted_vectors hembed hruns hget path
      | some put => cases habsent

theorem current_step_iff (hembed : OneEach config) (hst : st.Current) :
    (st.step config ops).Current ↔ st.Covers config ops := by
  by_cases hruns : Runs (some config) ops st.store
  · exact ⟨covers_of_current hembed, current_of_covers hembed hst hruns⟩
  · exact iff_of_true (current_failed hst hruns) (fun h => absurd h hruns)

theorem vectors_current_iff (hembed : OneEach config) (batches : List (List (StoreOp F))) :
    Always (step config) Current (start : Indexed F Vec) batches ↔
      EachStep (step config) (Covers config) start batches :=
  always_iff_eachStep (fun _ _ (_ : True) hst => current_step_iff hembed hst)
    (fun _ _ h _ _ => h) batches trivial ⟨fun _ _ => rfl, fun _ _ _ => rfl⟩

def reindexed : List (List (StoreOp Int)) :=
  [[.put (["docs"], "a") (some ⟨[("text", .str "old")], .default⟩)],
    [.put (["docs"], "a") (some ⟨[("text", .str "new")], .off⟩)]]

theorem textIndex_oneEach : OneEach textIndex := by
  intro texts vs h
  obtain rfl := Except.ok.inj h
  exact List.length_map _

theorem vectors_current_reindexed :
    Always (step textIndex) Current (start : Indexed Int Nat) reindexed ↔
      EachStep (step textIndex) (Covers textIndex) start reindexed :=
  vectors_current_iff textIndex_oneEach reindexed

theorem vector_survives :
    ¬ ∀ (config : IndexConfig Int Nat Unit) (batches : List (List (StoreOp Int))),
        OneEach config → Always (step config) Current (start : Indexed Int Nat) batches := by
  intro h
  have hlast := (h textIndex reindexed textIndex_oneEach reindexed List.prefix_rfl).vectors
    (["docs"], "a") "text"
  exact absurd hlast (by decide)

end Indexed

end InMemoryStore

end Store

end LangGraph

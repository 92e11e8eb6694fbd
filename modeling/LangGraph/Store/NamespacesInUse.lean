import LangGraph.Store.Vectors

namespace LangGraph

open Collections Transition

namespace Store

namespace InMemoryStore

variable {F Vec X : Type}

def InUse (s : InMemoryStore F Vec) (ns : Namespace) : Prop := ∃ key, s.data.cell ns key ≠ none

def inUse (s : InMemoryStore F Vec) : List Namespace :=
  s.data.keys.filter (fun ns => !(s.data.getD ns ∅).items.isEmpty)

def listing (maxDepth : Option Nat) (limit offset : Nat) (namespaces : List Namespace) :
    List Namespace :=
  let truncated := match maxDepth with
    | some depth => (namespaces.map (List.take depth)).dedup
    | none => namespaces
  ((truncated.mergeSort (fun a b => decide (¬ b < a))).drop offset).take limit

theorem mem_inUse {s : InMemoryStore F Vec} {ns : Namespace} : ns ∈ inUse s ↔ InUse s ns := by
  have hitems (d : Dict String (List (String × Json F))) :
      d.items ≠ [] ↔ ∃ key, d.get? key ≠ none := by
    constructor
    · intro hne
      obtain ⟨e, he⟩ := List.exists_mem_of_ne_nil _ hne
      have hget : d.get? e.1 = some e.2 := Dict.get?_eq_some.mpr he
      exact ⟨e.1, by rw [hget]; exact Option.some_ne_none e.2⟩
    · rintro ⟨key, hkey⟩ hnil
      obtain ⟨v, hv⟩ := Option.ne_none_iff_exists'.mp hkey
      have hmem := Dict.get?_eq_some.mp hv
      rw [hnil] at hmem
      cases hmem
  rw [inUse, List.mem_filter, InUse]
  have hempty : (!(s.data.getD ns ∅).items.isEmpty) = true ↔ (s.data.getD ns ∅).items ≠ [] := by
    simp
  rw [hempty, hitems]
  constructor
  · exact fun h => h.2
  · rintro ⟨key, hkey⟩
    refine ⟨?_, key, hkey⟩
    by_contra hout
    rw [Dict.cell, Dict.getD_of_none (Dict.get?_eq_none.mpr hout)] at hkey
    exact hkey rfl

section Runs

variable [Floats F] (index : Option (IndexConfig F Vec X))

def ListsInUse (s : InMemoryStore F Vec) : Prop :=
  ∀ maxDepth limit offset,
    (abatch index [.read (.listNamespaces [] maxDepth limit offset)] s).1 =
      .ok [.namespaces (listing maxDepth limit offset (inUse s))]

-- A get reads in the namespace, before any search whose filter raises.
def Reads (s : InMemoryStore F Vec) (ns : Namespace) : List (StoreOp F) → Prop
  | [] => False
  | .read (.get ns' _ _) :: ops => ns' = ns ∨ Reads s ns ops
  | .read (.search leading filter _ _ _ _) :: ops => Answers leading filter s ∧ Reads s ns ops
  | .read (.listNamespaces _ _ _ _) :: ops => Reads s ns ops
  | .put _ _ :: ops => Reads s ns ops

def Writes (s : InMemoryStore F Vec) (ns : Namespace) (ops : List (StoreOp F)) : Prop :=
  Runs index ops s ∧ ∃ key value, (lastPuts ops).get? (ns, key) = some value

-- An item of the namespace is put, or stays.
def Keeps (s : InMemoryStore F Vec) (ns : Namespace) (ops : List (StoreOp F)) : Prop :=
  ∃ key, (Runs index ops s ∧ ∃ put, (lastPuts ops).get? (ns, key) = some (some put)) ∨
    ((Runs index ops s → (lastPuts ops).get? (ns, key) = none) ∧ s.data.cell ns key ≠ none)

def Clear (s : InMemoryStore F Vec) (ops : List (StoreOp F)) : Prop :=
  ∀ ns, Reads s ns ops ∨ Writes index s ns ops → Keeps index s ns ops

def step (s : InMemoryStore F Vec) (ops : List (StoreOp F)) : InMemoryStore F Vec :=
  (abatch index ops s).2

theorem abatch_list (maxDepth : Option Nat) (limit offset : Nat) (s : InMemoryStore F Vec) :
    (abatch index [.read (.listNamespaces [] maxDepth limit offset)] s).1 =
      .ok [.namespaces (listing maxDepth limit offset s.data.keys)] := by
  have hlist : handleListNamespaces [] maxDepth limit offset s =
      listing maxDepth limit offset s.data.keys := by
    have hkeys : s.data.keys.filter
        (fun ns => ([] : List MatchCondition).all (fun c => doesMatch c ns)) = s.data.keys :=
      List.filter_eq_self.mpr (fun _ _ => rfl)
    unfold handleListNamespaces
    simp only [hkeys]
    rfl
  rw [← hlist]
  cases index with
  | none => rfl
  | some config => rfl

theorem lists_iff (s : InMemoryStore F Vec) :
    ListsInUse index s ↔ ∀ ns ∈ s.data.keys, InUse s ns := by
  have hfilter : (∀ ns ∈ s.data.keys, InUse s ns) ↔ inUse s = s.data.keys := by
    constructor
    · intro h
      refine List.filter_eq_self.mpr (fun ns hns => ?_)
      exact (List.mem_filter.mp (mem_inUse.mpr (h ns hns))).2
    · intro h ns hns
      exact mem_inUse.mp (h ▸ hns)
  rw [hfilter]
  constructor
  · intro h
    have hall := h none s.data.keys.length 0
    rw [abatch_list] at hall
    have hlength := congrArg List.length (StoreResult.namespaces.inj
      (List.cons.inj (Except.ok.inj hall)).1)
    rw [listing, listing, List.drop_zero, List.drop_zero, List.length_take, List.length_take,
      List.length_mergeSort, List.length_mergeSort] at hlength
    refine List.filter_sublist.eq_of_length_le ?_
    have hinUse : (inUse s).length = (s.data.keys.filter
      (fun ns => !(s.data.getD ns ∅).items.isEmpty)).length := rfl
    omega
  · intro h maxDepth limit offset
    rw [abatch_list, h]

variable {index} {s : InMemoryStore F Vec} {ops : List (StoreOp F)} {ns : Namespace}

omit [Floats F] in
theorem mem_keys_touch {ns' : Namespace} :
    ns ∈ (touchNamespace ns' s).data.keys ↔ ns' = ns ∨ ns ∈ s.data.keys := by
  rw [touchNamespace]
  split
  · rename_i hin
    constructor
    · exact Or.inr
    · rintro (rfl | hmem)
      · exact Dict.contains_iff.mp hin
      · exact hmem
  · rw [Dict.mem_keys_set, eq_comm]

theorem foldl_stopped {p : Prepared F Vec} (h : p.error.isSome = true) (ops : List (StoreOp F)) :
    ops.foldl prepareOp p = p := by
  induction ops with
  | nil => rfl
  | cons op ops ih =>
    have hstop : prepareOp p op = p := if_pos h
    rw [List.foldl_cons, hstop, ih]

theorem mem_keys_foldl {p : Prepared F Vec} (hrunning : p.error.isSome = false)
    (hunder : ∀ leading, underNamespace leading p.store = underNamespace leading s) :
    ns ∈ (ops.foldl prepareOp p).store.data.keys ↔
      ns ∈ p.store.data.keys ∨ Reads s ns ops := by
  induction ops generalizing p with
  | nil => simp [Reads]
  | cons op ops ih =>
    rw [List.foldl_cons]
    match op with
    | .put key value =>
      rw [prepareOp, hrunning]
      exact ih hrunning hunder
    | .read (.listNamespaces conditions maxDepth limit offset) =>
      rw [prepareOp, hrunning]
      exact ih hrunning hunder
    | .read (.get ns' key refreshTtl) =>
      rw [prepareOp, hrunning]
      simp only [Bool.false_eq_true, if_false]
      have htouched (leading : Namespace) := (underNamespace_touch leading ns' p.store).trans
        (hunder leading)
      refine (ih (p := { p with
        store := touchNamespace ns' p.store
        results := p.results ++ [.item (getItem ns' key p.store)] }) hrunning htouched).trans ?_
      have htouch := @mem_keys_touch F Vec p.store ns ns'
      simp only [Reads]
      rw [htouch]
      tauto
    | .read (.search leading filter limit offset query refreshTtl) =>
      have hanswers : Answers leading filter p.store ↔ Answers leading filter s := by
        rw [Answers, Answers, hunder]
      by_cases hs : Answers leading filter s
      · have hfilter := filterItems_of_answers (hanswers.mpr hs) query
        have hreads : Reads s ns (.read (.search leading filter limit offset query refreshTtl) :: ops) ↔
            Reads s ns ops := and_iff_right hs
        rw [prepareOp, hrunning, hreads]
        simp only [Bool.false_eq_true, if_false, hfilter]
        exact ih hrunning hunder
      · obtain ⟨e, he⟩ := filterItems_of_not_answers (fun h => hs (hanswers.mp h)) query
        have hreads : ¬ Reads s ns (.read (.search leading filter limit offset query refreshTtl) :: ops) :=
          fun h => hs h.1
        rw [prepareOp, hrunning, or_iff_left hreads]
        simp only [Bool.false_eq_true, if_false, he]
        rw [foldl_stopped rfl]

theorem mem_keys_prepareOps :
    ns ∈ (prepareOps ops s).store.data.keys ↔ ns ∈ s.data.keys ∨ Reads s ns ops :=
  mem_keys_foldl rfl (fun _ => rfl)

omit [Floats F] in
theorem mem_keys_applyPutOps (puts : PutOps F) :
    ns ∈ (applyPutOps puts s).data.keys ↔
      ns ∈ s.data.keys ∨ ∃ key value, puts.get? (ns, key) = some value := by
  have hput (s : InMemoryStore F Vec) (put : StoreKey × Option (PutValue F)) :
      ns ∈ (applyPut s put).data.keys ↔ ns = put.1.1 ∨ ns ∈ s.data.keys := by
    obtain ⟨key, value⟩ := put
    cases value <;> exact Dict.mem_keys_set
  have hfold (l : List (StoreKey × Option (PutValue F))) (s : InMemoryStore F Vec) :
      ns ∈ (l.foldl applyPut s).data.keys ↔ ns ∈ s.data.keys ∨ ∃ put ∈ l, ns = put.1.1 := by
    induction l generalizing s with
    | nil => simp
    | cons put l ih =>
      rw [List.foldl_cons, ih, hput]
      simp only [List.exists_mem_cons_iff]
      tauto
  rw [applyPutOps, hfold]
  refine or_congr_right ?_
  constructor
  · rintro ⟨⟨⟨ns', key⟩, value⟩, hmem, rfl⟩
    exact ⟨key, value, Dict.get?_eq_some.mpr hmem⟩
  · rintro ⟨key, value, hget⟩
    exact ⟨((ns, key), value), Dict.get?_eq_some.mp hget, rfl⟩

theorem mem_keys_step :
    ns ∈ (step index s ops).data.keys ↔
      ns ∈ s.data.keys ∨ Reads s ns ops ∨ Writes index s ns ops := by
  by_cases hruns : Runs index ops s
  · obtain ⟨store, hstore, hbatch⟩ := abatch_store hruns
    rw [step, hbatch, mem_keys_applyPutOps, data_embedPuts hstore, mem_keys_prepareOps, or_assoc,
      Writes, and_iff_right hruns]
  · rw [step, (abatch_failed hruns).2, mem_keys_prepareOps, Writes]
    simp [hruns]

theorem inUse_step : InUse (step index s ops) ns ↔ Keeps index s ns ops := by
  refine exists_congr fun key => ?_
  by_cases hruns : Runs index ops s
  · have hdata := abatch_data hruns (ns, key)
    rw [step, hdata]
    cases hget : (lastPuts ops).get? (ns, key) with
    | none => simp [hruns]
    | some value => cases value <;> simp [hruns]
  · rw [step, (abatch_failed hruns).2, (prepareOps_content ops s).1]
    simp [hruns]

theorem lists_step_iff (h : ListsInUse index s) :
    ListsInUse index (step index s ops) ↔ Clear index s ops := by
  rw [lists_iff] at h ⊢
  simp only [mem_keys_step, inUse_step]
  constructor
  · exact fun hall ns htouched => hall ns (Or.inr htouched)
  · rintro hclear ns (hold | htouched)
    · by_cases htouched : Reads s ns ops ∨ Writes index s ns ops
      · exact hclear ns htouched
      · obtain ⟨key, hkey⟩ := h ns hold
        refine ⟨key, Or.inr ⟨fun hruns => ?_, hkey⟩⟩
        by_contra hput
        obtain ⟨value, hvalue⟩ := Option.ne_none_iff_exists'.mp hput
        exact htouched (Or.inr ⟨hruns, key, value, hvalue⟩)
    · exact hclear ns htouched

theorem lists_in_use_iff (index : Option (IndexConfig F Vec X))
    (batches : List (List (StoreOp F))) :
    Always (step index) (ListsInUse index) (⟨∅, ∅⟩ : InMemoryStore F Vec) batches ↔
      EachStep (step index) (Clear index) ⟨∅, ∅⟩ batches := by
  refine always_iff_eachStep (fun _ _ (_ : True) h => lists_step_iff h) (fun _ _ h _ _ => h)
    batches trivial ?_
  rw [lists_iff]
  exact fun ns hns => absurd hns List.not_mem_nil

theorem read_lists :
    ¬ ∀ batches : List (List (StoreOp Int)),
        Always (step unindexed) (ListsInUse unindexed) (⟨∅, ∅⟩ : InMemoryStore Int Nat)
          batches := by
  intro h
  have hread := h [[.read (.get ["docs"] "a" false)]] _ List.prefix_rfl
  obtain ⟨key, hkey⟩ := (lists_iff unindexed _).mp hread ["docs"] (by decide)
  exact hkey rfl

end Runs

end InMemoryStore

end Store

end LangGraph

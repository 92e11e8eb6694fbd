import LangGraph.Collections.Groups
import LangGraph.Store.BatchFailures
import Mathlib.Data.List.Zip

namespace LangGraph

open Collections

namespace Store

variable {F Vec X : Type}

def IndexConfig.withEmbed (config : IndexConfig F Vec X)
    (embed : List String → Except X (List Vec)) : IndexConfig F Vec X :=
  { config with embedDocuments := embed }

namespace InMemoryStore

abbrev PutOps (F : Type) := Dict StoreKey (Option (PutValue F))

-- The texts of the puts, each with the item and the path it stands for.
def foundTexts (config : IndexConfig F Vec X) (puts : PutOps F) :
    List (String × StoreKey × String) :=
  puts.items.flatMap (fun p =>
    match p.2 with
    | none => []
    | some put => (indexedPaths config put.index).flatMap (fun path =>
        let texts := config.textAtPath put.value path.2
        if 1 < texts.length then
          texts.zipIdx.map (fun t => (t.1, p.1, path.1 ++ "." ++ toString t.2))
        else texts.map (fun t => (t, p.1, path.1))))

theorem extractTexts_eq (config : IndexConfig F Vec X) (puts : PutOps F) :
    extractTexts (some config) puts = Dict.group (foundTexts config puts) := rfl

def putOps (ops : List (StoreKey × Option (PutValue F))) : List (StoreOp F) :=
  ops.map (fun p => .put p.1 p.2)

def lastPuts (ops : List (StoreOp F)) : PutOps F := (∅ : PutOps F).update (Op.puts ops)

theorem vectors_insertVectors (toEmbed : Dict String (List (StoreKey × String)))
    (vs : List Vec) (s : InMemoryStore F Vec) :
    (insertVectors toEmbed vs s).vectors =
      (vs.zip toEmbed.values.flatten).foldl Dict.putCell s.vectors := rfl

def deletes (puts : PutOps F) (key : StoreKey) : Bool := ((puts.get? key).map Option.isNone).getD false

theorem cell_filter (vectors : Dict StoreKey (Dict String Vec)) (gone key : StoreKey)
    (path : String) :
    (vectors.filter (fun k _ => k ≠ gone)).cell key path =
      if key = gone then none else vectors.cell key path := by
  rw [Dict.cell, Dict.getD, Dict.get?_filter, Dict.cell, Dict.getD]
  cases vectors.get? key with
  | none => simp
  | some held =>
    by_cases hkey : key = gone
    · simp [hkey]
    · simp [hkey, Option.filter]

theorem cell_applyPut (s : InMemoryStore F Vec) (put : StoreKey × Option (PutValue F))
    (key : StoreKey) (path : String) :
    (applyPut s put).vectors.cell key path =
      if (decide (put.1 = key) && put.2.isNone) = true then none else s.vectors.cell key path := by
  obtain ⟨k, value⟩ := put
  cases value with
  | none =>
    have hvectors : (applyPut s (k, none)).vectors = s.vectors.filter (fun k' _ => k' ≠ k) := rfl
    rw [hvectors, cell_filter]
    simp [eq_comm]
  | some value => simp [applyPut]

theorem cell_applyPutOps (puts : PutOps F) (s : InMemoryStore F Vec) (key : StoreKey)
    (path : String) :
    (applyPutOps puts s).vectors.cell key path =
      if deletes puts key then none else s.vectors.cell key path := by
  have hfold (l : List (StoreKey × Option (PutValue F))) (s : InMemoryStore F Vec) :
      (l.foldl applyPut s).vectors.cell key path =
        if l.any (fun p => decide (p.1 = key) && p.2.isNone) then none
        else s.vectors.cell key path := by
    induction l generalizing s with
    | nil => rfl
    | cons put l ih =>
      rw [List.foldl_cons, ih, cell_applyPut, List.any_cons]
      cases decide (put.1 = key) && put.2.isNone with
      | false => rfl
      | true => simp
  have hdeletes : puts.items.any (fun p => decide (p.1 = key) && p.2.isNone) =
      deletes puts key := by
    rw [Bool.eq_iff_iff, List.any_eq_true, deletes]
    cases hget : puts.get? key with
    | none =>
      refine iff_of_false ?_ (by simp)
      rintro ⟨p, hp, hkey⟩
      rw [Bool.and_eq_true, decide_eq_true_iff] at hkey
      have hsome : puts.get? key = some p.2 := Dict.get?_eq_some.mpr (hkey.1 ▸ hp)
      rw [hget] at hsome
      cases hsome
    | some value =>
      constructor
      · rintro ⟨p, hp, hkey⟩
        rw [Bool.and_eq_true, decide_eq_true_iff] at hkey
        have hsome : puts.get? key = some p.2 := Dict.get?_eq_some.mpr (hkey.1 ▸ hp)
        rw [Option.some.inj (hget.symm.trans hsome)]
        exact hkey.2
      · intro hnone
        exact ⟨(key, value), Dict.get?_eq_some.mp hget, by simpa using hnone⟩
  rw [applyPutOps, hfold, hdeletes]

-- The new vectors, the last one for a path first.
def newVectors (vs : List Vec) (toEmbed : Dict String (List (StoreKey × String))) :
    List ((StoreKey × String) × Vec) :=
  (vs.zip toEmbed.values.flatten).reverse.map Prod.swap

theorem embedPuts_vectors {config : IndexConfig F Vec X}
    {toEmbed : Dict String (List (StoreKey × String))} {s store : InMemoryStore F Vec}
    (h : embedPuts (some config) toEmbed s = .ok store) :
    ∃ vs, toEmbed.values.flatten.length = vs.length ∧
      (toEmbed.items ≠ [] → config.embedDocuments toEmbed.keys = .ok vs) ∧
      store.data = s.data ∧ ∀ key path, store.vectors.cell key path =
        (Dict.lookup (key, path) (newVectors vs toEmbed)).or (s.vectors.cell key path) := by
  simp only [embedPuts, List.isEmpty_iff] at h
  split at h
  · rename_i hitems
    have hvalues : toEmbed.values = [] := by
      rw [Dict.values, hitems]
      rfl
    refine ⟨[], ?_, fun hne => absurd hitems hne, ?_, fun key path => ?_⟩
    · rw [hvalues]
      rfl
    · rw [← Except.ok.inj h]
    · rw [← Except.ok.inj h]
      rfl
  · split at h
    · cases h
    · rename_i vs hvs
      split at h
      · cases h
      · rename_i hcount
        refine ⟨vs, not_not.mp hcount, fun _ => hvs, ?_, fun key path => ?_⟩
        · rw [← Except.ok.inj h]
          rfl
        · rw [← Except.ok.inj h, vectors_insertVectors, Dict.cell_foldl_putCell]
          rfl

section Batches

variable [Floats F] {index : Option (IndexConfig F Vec X)} {config : IndexConfig F Vec X}
  {ops : List (StoreOp F)} {s : InMemoryStore F Vec}

theorem abatch_store (h : Runs index ops s) :
    ∃ store, embedPuts index (extractTexts index (lastPuts ops)) (prepareOps ops s).store =
        .ok store ∧ (abatch index ops s).2 = applyPutOps (lastPuts ops) store := by
  rcases prepareOps_cases ops s with ⟨-, hafter⟩ | ⟨hno, -⟩
  · obtain ⟨embedded, hembedded⟩ : ∃ embedded, embedSearchQueries index (asked ops) =
        .ok embedded := by
      refine (embedSearchQueries_ok_iff index (asked ops)).mpr
        (fun config hconfig query hquery => ?_)
      obtain ⟨hne, q, hq, rfl⟩ := mem_asked.mp hquery
      exact h.queries config hconfig q hq hne
    obtain ⟨found, hfound⟩ := (searches_ok_iff index hafter hembedded).mpr h.scores
    have hputs : (prepareOps ops s).puts = lastPuts ops := hafter.puts
    obtain ⟨store, hstore⟩ := (embedPuts_ok_iff index
      (extractTexts index (lastPuts ops)) (prepareOps ops s).store).mpr
        (fun config hconfig => h.texts config hconfig _ rfl)
    refine ⟨store, hstore, ?_⟩
    simp only [abatch, hafter.running, hafter.queries, hembedded, hfound, hputs, hstore]
  · exact absurd h.filters hno

theorem prepared_of_runs (h : Runs index ops s) : (prepareOps ops s).After s ops := by
  rcases prepareOps_cases ops s with ⟨-, hafter⟩ | ⟨hno, -⟩
  · exact hafter
  · exact absurd h.filters hno

-- The vectors after a batch that does not raise.
theorem abatch_vectors (h : Runs (some config) ops s) :
    ∃ vs, vs.length = (foundTexts config (lastPuts ops)).length ∧
      (foundTexts config (lastPuts ops) ≠ [] →
        config.embedDocuments (extractTexts (some config) (lastPuts ops)).keys = .ok vs) ∧
      ∀ key path, (abatch (some config) ops s).2.vectors.cell key path =
        if deletes (lastPuts ops) key then none
        else (Dict.lookup (key, path)
          (newVectors vs (extractTexts (some config) (lastPuts ops)))).or
            (s.vectors.cell key path) := by
  obtain ⟨store, hstore, hbatch⟩ := abatch_store h
  obtain ⟨vs, hcount, hembed, -, hcell⟩ := embedPuts_vectors hstore
  have hlength := Dict.length_values_group (foundTexts config (lastPuts ops))
  rw [← extractTexts_eq] at hlength
  refine ⟨vs, hcount.symm.trans hlength, fun hne => hembed (fun hitems => hne ?_),
    fun key path => ?_⟩
  · rw [Dict.values, hitems] at hlength
    exact List.eq_nil_of_length_eq_zero hlength.symm
  · rw [hbatch, cell_applyPutOps, hcell, (prepared_of_runs h).vectors]

end Batches

section Pairing

variable {found : List (String × StoreKey × String)} {vs : List Vec}

theorem values_group (h : (found.map Prod.fst).Nodup) :
    (Dict.group found).values.flatten = found.map Prod.snd := by
  rw [Dict.values, Dict.items_group h, List.map_map]
  induction found with
  | nil => rfl
  | cons f found ih => exact congrArg (f.2 :: ·) (ih (List.nodup_cons.mp h).2)

theorem keys_group (h : (found.map Prod.fst).Nodup) :
    (Dict.group found).keys = found.map Prod.fst := by
  rw [Dict.keys, Dict.items_group h, List.map_map]
  rfl

theorem lookup_text (h : (found.map Prod.fst).Nodup) (hlength : vs.length = found.length) {f : String × StoreKey × String} {v : Vec}
    (hf : (f, v) ∈ found.zip vs) :
    Dict.lookup f.1 ((found.map Prod.fst).zip vs) = some v := by
  have hnodup : (((found.map Prod.fst).zip vs).map Prod.fst).Nodup := by
    rw [List.map_fst_zip (by rw [List.length_map, hlength])]
    exact h
  rw [Dict.lookup_eq_some hnodup, List.zip_map_left]
  exact List.mem_map.mpr ⟨(f, v), hf, rfl⟩

theorem lookup_target (h : (found.map Prod.fst).Nodup) (ht : (found.map Prod.snd).Nodup)
    (hlength : vs.length = found.length) {f : String × StoreKey × String} {v : Vec} (hf : (f, v) ∈ found.zip vs) :
    Dict.lookup f.2 (newVectors vs (Dict.group found)) = some v := by
  have hkeys : (newVectors vs (Dict.group found)).map Prod.fst =
      ((vs.zip (found.map Prod.snd)).map Prod.snd).reverse := by
    rw [newVectors, values_group h, List.map_map, List.map_reverse]
    rfl
  have hnodup : ((newVectors vs (Dict.group found)).map Prod.fst).Nodup := by
    rw [hkeys, List.nodup_reverse, List.map_snd_zip (by rw [List.length_map, hlength])]
    exact ht
  rw [Dict.lookup_eq_some hnodup, newVectors, values_group h]
  refine List.mem_map.mpr ⟨(v, f.2), List.mem_reverse.mpr ?_, rfl⟩
  rw [List.zip_map_right]
  refine List.mem_map.mpr ⟨(v, f), ?_, rfl⟩
  rw [← List.zip_swap]
  exact List.mem_map.mpr ⟨(f, v), hf, rfl⟩

theorem exists_mem_zip (hlength : vs.length = found.length) {f : String × StoreKey × String}
    (hf : f ∈ found) : ∃ v, (f, v) ∈ found.zip vs := by
  obtain ⟨i, hi, rfl⟩ := List.mem_iff_getElem.mp hf
  have hi' : i < vs.length := hlength.symm ▸ hi
  refine ⟨vs[i], List.mem_iff_getElem.mpr ⟨i, ?_, List.getElem_zip⟩⟩
  rw [List.length_zip]
  exact lt_min hi hi'

theorem lookup_zip_map {texts : List String} {e : String → Vec} {t : String} {v : Vec}
    (h : Dict.lookup t (texts.zip (texts.map e)) = some v) : v = e t := by
  induction texts with
  | nil => cases h
  | cons u texts ih =>
    rw [List.map_cons, List.zip_cons_cons, Dict.lookup] at h
    split at h
    · rename_i hu
      rw [← hu]
      exact (Option.some.inj h).symm
    · exact ih h

end Pairing

section Puts

variable [Floats F] {config : IndexConfig F Vec X} {s : InMemoryStore F Vec}
  {ops : List (StoreKey × Option (PutValue F))}

-- The texts that are sent to the embedding function.
def requested (config : IndexConfig F Vec X) (ops : List (StoreKey × Option (PutValue F))) :
    List String :=
  (extractTexts (some config) (lastPuts (putOps ops))).keys

def OnePerText (embed : List String → Except X (List Vec)) : Prop :=
  ∀ texts, ∃ vs, embed texts = .ok vs ∧ vs.length = texts.length

-- Whatever the embedding function is, the batch stores for each path its own text's vector.
def OwnEmbeddings (config : IndexConfig F Vec X) (ops : List (StoreKey × Option (PutValue F)))
    (s : InMemoryStore F Vec) : Prop :=
  ∀ embed : List String → Except X (List Vec), OnePerText embed →
    (∃ results, (abatch (some (config.withEmbed embed)) (putOps ops) s).1 = .ok results) ∧
      ∃ vs, embed (requested config ops) = .ok vs ∧
        ∀ f ∈ foundTexts config (lastPuts (putOps ops)), ∃ v,
          Dict.lookup f.1 ((requested config ops).zip vs) = some v ∧
            (abatch (some (config.withEmbed embed)) (putOps ops) s).2.vectors.cell f.2.1 f.2.2 =
              some v

-- No text stands at two paths, and no path is given to two texts.
structure Separate (config : IndexConfig F Vec X)
    (ops : List (StoreKey × Option (PutValue F))) : Prop where
  texts : ((foundTexts config (lastPuts (putOps ops))).map Prod.fst).Nodup
  targets : ((foundTexts config (lastPuts (putOps ops))).map Prod.snd).Nodup

omit [Floats F] in
theorem searchesOf_putOps (ops : List (StoreKey × Option (PutValue F))) :
    searchesOf (putOps ops) = [] := by
  rw [searchesOf, putOps, List.filterMap_map, List.filterMap_eq_nil_iff]
  intro p _
  rfl

theorem runs_putOps_iff {embed : List String → Except X (List Vec)} (h : OnePerText embed) :
    Runs (some (config.withEmbed embed)) (putOps ops) s ↔
      ((foundTexts config (lastPuts (putOps ops))).map Prod.fst).Nodup := by
  have hkeys : requested config ops = (extractTexts (some config) (lastPuts (putOps ops))).keys := rfl
  obtain ⟨vs, hvs, hlength⟩ := h (requested config ops)
  have hvalues := Dict.length_values_group (foundTexts config (lastPuts (putOps ops)))
  rw [← Dict.length_keys_group_iff]
  constructor
  · intro hruns
    rcases hruns.texts _ rfl _ rfl with hnil | ⟨vs', hvs', hcount⟩
    · have hnil' : (Dict.group (foundTexts config (lastPuts (putOps ops)))).items = [] := hnil
      rw [Dict.values, hnil'] at hvalues
      rw [Dict.keys, hnil']
      exact hvalues
    · obtain rfl : vs = vs' := Except.ok.inj (hvs.symm.trans hvs')
      exact hlength.symm.trans (hcount.symm.trans hvalues)
  · intro hcount
    refine ⟨?_, ?_, ?_, ?_⟩
    · simp [searchesOf_putOps]
    · simp [searchesOf_putOps]
    · simp [searchesOf_putOps]
    · rintro config' ⟨⟩ toEmbed rfl
      exact Or.inr ⟨vs, hvs, hvalues.trans (hcount.symm.trans hlength.symm)⟩

omit [Floats F] in
theorem mem_foundTexts {puts : PutOps F} {f : String × StoreKey × String}
    (h : f ∈ foundTexts config puts) : ∃ put, puts.get? f.2.1 = some (some put) := by
  obtain ⟨⟨key, value⟩, hp, hf⟩ := List.mem_flatMap.mp h
  cases value with
  | none => cases hf
  | some put =>
    obtain ⟨path, -, hf⟩ := List.mem_flatMap.mp hf
    have hkey : f.2.1 = key := by
      dsimp only at hf
      split at hf
      · obtain ⟨t, -, rfl⟩ := List.mem_map.mp hf
        rfl
      · obtain ⟨t, -, rfl⟩ := List.mem_map.mp hf
        rfl
    exact ⟨put, Dict.get?_eq_some.mpr (hkey ▸ hp)⟩

omit [Floats F] in
theorem not_deletes {puts : PutOps F} {f : String × StoreKey × String}
    (h : f ∈ foundTexts config puts) : deletes puts f.2.1 = false := by
  obtain ⟨put, hput⟩ := mem_foundTexts h
  rw [deletes, hput]
  rfl

theorem own_of_separate (h : Separate config ops) : OwnEmbeddings config ops s := by
  intro embed hembed
  have hruns := (runs_putOps_iff (s := s) hembed).mpr h.texts
  obtain ⟨results, hresults, -⟩ := abatch_ok _ hruns
  obtain ⟨vs, hlength, hasked, hcell⟩ := abatch_vectors hruns
  obtain ⟨vs', hvs', -⟩ := hembed (requested config ops)
  refine ⟨⟨results, hresults⟩, vs', hvs', fun f hf => ?_⟩
  obtain rfl : vs = vs' :=
    Except.ok.inj ((hasked (List.ne_nil_of_mem hf)).symm.trans hvs')
  obtain ⟨v, hv⟩ := exists_mem_zip hlength hf
  refine ⟨v, ?_, ?_⟩
  · have hkeys : requested config ops =
        (foundTexts config (lastPuts (putOps ops))).map Prod.fst := keys_group h.texts
    rw [hkeys]
    exact lookup_text h.texts hlength hv
  · have htarget := lookup_target h.texts h.targets hlength hv
    rw [hcell, not_deletes hf]
    simp only [Bool.false_eq_true, if_false]
    exact (congrArg (fun o => o.or (s.vectors.cell f.2.1 f.2.2)) htarget).trans Option.some_or

omit [Floats F] in
theorem onePerText_map (e : String → Vec) :
    OnePerText (fun texts => (.ok (texts.map e) : Except X (List Vec))) :=
  fun texts => ⟨texts.map e, rfl, List.length_map _⟩

theorem separate_of_own [Nontrivial Vec] (h : OwnEmbeddings config ops s) :
    Separate config ops := by
  obtain ⟨a, b, hab⟩ := exists_pair_ne Vec
  have hnodup (e : String → Vec) := onePerText_map (X := X) e
  have htexts : ((foundTexts config (lastPuts (putOps ops))).map Prod.fst).Nodup := by
    obtain ⟨⟨results, hresults⟩, -⟩ := h _ (hnodup (fun _ => a))
    exact (runs_putOps_iff (hnodup (fun _ => a))).mp (runs_of_ok _ hresults)
  refine ⟨htexts, (List.nodup_map_iff_inj_on htexts.of_map).mpr ?_⟩
  intro f hf f' hf' htarget
  by_contra hne
  have htext : f.1 ≠ f'.1 := fun heq => hne (List.inj_on_of_nodup_map htexts hf hf' heq)
  -- An embedding function that tells the two texts apart.
  obtain ⟨-, vs, hvs, hcell⟩ := h _ (hnodup (fun t => if t = f.1 then a else b))
  obtain rfl := Except.ok.inj hvs
  obtain ⟨v, hv, hcellv⟩ := hcell f hf
  obtain ⟨v', hv', hcellv'⟩ := hcell f' hf'
  rw [← htarget, hcellv] at hcellv'
  have hsame := Option.some.inj hcellv'
  have hown := lookup_zip_map hv
  have hown' := lookup_zip_map hv'
  rw [if_pos rfl] at hown
  rw [if_neg (fun heq => htext heq.symm)] at hown'
  exact hab (hown.symm.trans (hsame.trans hown'))

theorem own_embeddings_iff [Nontrivial Vec] :
    OwnEmbeddings config ops s ↔ Separate config ops :=
  ⟨separate_of_own, own_of_separate⟩

def sameTexts : List (StoreKey × Option (PutValue Int)) :=
  [((["docs"], "a"), some ⟨[("text", .str "same")], .default⟩),
    ((["docs"], "b"), some ⟨[("text", .str "same")], .default⟩)]

theorem own_embeddings_same :
    OwnEmbeddings textIndex sameTexts ⟨∅, ∅⟩ ↔ Separate textIndex sameTexts :=
  own_embeddings_iff

theorem same_texts_lost :
    ¬ ∀ (config : IndexConfig Int Nat Unit) (ops : List (StoreKey × Option (PutValue Int)))
        (s : InMemoryStore Int Nat), OwnEmbeddings config ops s := by
  intro h
  have htexts := (separate_of_own (h textIndex sameTexts ⟨∅, ∅⟩)).texts
  exact absurd htexts (by decide)

end Puts

end InMemoryStore

end Store

end LangGraph

import LangGraph.Collections.Pages
import LangGraph.Collections.StableSort
import LangGraph.Store.BatchFailures

namespace LangGraph

open Collections

namespace Store

def FoundItem.storeKey {F : Type} (item : FoundItem F) : StoreKey := (item.ns, item.key)

namespace InMemoryStore

variable {F Vec X : Type}

abbrev SearchItem (F : Type) := FoundItem F × Option F

structure Search (F : Type) where
  ns : Namespace
  filter : List (String × Json F)
  limit : Nat
  query : String
  refreshTtl : Bool

def Search.op (q : Search F) (offset : Nat) : StoreOp F :=
  .read (.search q.ns q.filter q.limit offset q.query q.refreshTtl)

section Pooling

def scoredItem (x : F × FoundItem F) : SearchItem F := (x.2, some x.1)

def scoreKey (x : F × FoundItem F) : StoreKey := x.2.storeKey

theorem pool_eq (offset limit : Nat) (seen : List StoreKey) (l : List (F × FoundItem F)) :
    pool offset limit seen l =
      (((firsts scoreKey seen l).take (offset + limit - seen.length)).drop
        (offset - seen.length)).map scoredItem := by
  induction l generalizing seen with
  | nil => simp [pool, firsts]
  | cons x l ih =>
    obtain ⟨score, item⟩ := x
    have hkey : scoreKey (score, item) = (item.ns, item.key) := rfl
    rw [pool, firsts, hkey]
    by_cases hseen : (item.ns, item.key) ∈ seen
    · rw [if_pos hseen, if_pos hseen, ih]
    · rw [if_neg hseen, if_neg hseen]
      by_cases hstop : offset + limit ≤ seen.length
      · rw [if_pos hstop, Nat.sub_eq_zero_of_le hstop, List.take_zero, List.drop_nil, List.map_nil]
      · obtain ⟨n, hn⟩ : ∃ n, offset + limit - seen.length = n + 1 :=
          ⟨offset + limit - seen.length - 1, by omega⟩
        have hnext : offset + limit - (seen.length + 1) = n := by omega
        rw [if_neg hstop, hn, List.take_succ_cons, ih, List.length_cons, hnext]
        by_cases hskip : seen.length < offset
        · obtain ⟨m, hm⟩ : ∃ m, offset - seen.length = m + 1 :=
            ⟨offset - seen.length - 1, by omega⟩
          have hskipped : offset - (seen.length + 1) = m := by omega
          rw [if_pos hskip, hm, List.drop_succ_cons, hskipped]
        · have hnone : offset - seen.length = 0 := by omega
          have hnone' : offset - (seen.length + 1) = 0 := by omega
          rw [if_neg hskip, hnone, hnone']
          rfl

theorem pool_page (limit k : Nat) (l : List (F × FoundItem F)) :
    pool (k * limit) limit [] l = pageOf ((firsts scoreKey [] l).map scoredItem) limit k := by
  have hlength : k * limit + limit - k * limit = limit := by omega
  rw [pool_eq, pageOf, List.length_nil, Nat.sub_zero, Nat.sub_zero, List.drop_take, hlength,
    List.map_take, List.map_drop]

end Pooling

section Keys

theorem nodup_underNamespace (ns : Namespace) (s : InMemoryStore F Vec) :
    ((underNamespace ns s).map FoundItem.storeKey).Nodup := by
  rw [underNamespace, List.map_flatMap, List.nodup_flatMap]
  constructor
  · rintro ⟨ns', d⟩ -
    rw [List.map_map]
    have hkeys : (d.items.map Prod.fst).Nodup := d.nodup
    have hmap : d.items.map (FoundItem.storeKey ∘
        fun i => (⟨ns', i.1, i.2⟩ : FoundItem F)) = (d.items.map Prod.fst).map (fun k => (ns', k)) := by
      rw [List.map_map]
      rfl
    rw [hmap]
    exact hkeys.map (fun a b h => (Prod.mk.inj h).2)
  · have hnodup : (s.data.items.map Prod.fst).Nodup := s.data.nodup
    have hpairs := (List.pairwise_map.mp hnodup).filter (fun d => ns.isPrefixOf d.1)
    refine hpairs.imp (fun hne => ?_)
    intro key hkey hkey'
    obtain ⟨item, hitem, rfl⟩ := List.mem_map.mp hkey
    obtain ⟨i, -, rfl⟩ := List.mem_map.mp hitem
    obtain ⟨item', hitem', hsame⟩ := List.mem_map.mp hkey'
    obtain ⟨i', -, rfl⟩ := List.mem_map.mp hitem'
    exact hne (Prod.mk.inj hsame).1.symm

end Keys

section Searching

variable [Floats F] (index : Option (IndexConfig F Vec X)) (q : Search F)
  (s : InMemoryStore F Vec)

def Search.candidates (q : Search F) (s : InMemoryStore F Vec) : List (Candidate F Vec) :=
  selected q.ns q.filter q.query s

def Search.matching (q : Search F) (s : InMemoryStore F Vec) : List (FoundItem F) :=
  (underNamespace q.ns s).filter (fun item => accepted (compareItems item.value q.filter))

def Finds (k : Nat) (items : List (SearchItem F)) : Prop :=
  (abatch index [q.op (k * q.limit)] s).1 = .ok [.items items]

def Precedes : Option F → Option F → Prop
  | some a, some b => Floats.lt a b = false
  | none, some _ => False
  | _, none => True

-- Each item once, the scored ones first.
structure Lists (l : List (SearchItem F)) (items : List (FoundItem F)) : Prop where
  once : (l.map (fun r => r.1.storeKey)).Nodup
  all : ∀ item, item ∈ l.map Prod.fst ↔ item ∈ items
  order : l.Pairwise (fun r r' => Precedes r.2 r'.2)

def PagesPartition : Prop :=
  ∃ pages, (∀ k, Finds index q s k (pages k)) ∧
    ∃ l, Concatenated pages l ∧ Lists l (q.matching s)

-- The search raises nothing: the filter compares with each item under the prefix, the query
-- embeds and its similarities are computed.
structure Search.Runs : Prop where
  filter : Answers q.ns q.filter s
  query : ∀ config ∈ index, q.query ≠ "" → ∃ v, config.embedQuery q.query = .ok v
  scores : ∀ config ∈ index, q.query ≠ "" → ∀ v, config.embedQuery q.query = .ok v →
    q.candidates s ≠ [] → ∃ scores, config.cosineSimilarity v
      ((q.candidates s).flatMap Candidate.vectors) = .ok scores

variable {index q s}

theorem runs_op_iff (offset : Nat) :
    InMemoryStore.Runs index [q.op offset] s ↔ q.Runs index s := by
  have hsearches : searchesOf [q.op offset] =
      [⟨q.ns, q.filter, q.limit, offset, q.query⟩] := rfl
  constructor
  · intro h
    have hmem : (⟨q.ns, q.filter, q.limit, offset, q.query⟩ : SearchParams F) ∈
        searchesOf [q.op offset] := hsearches ▸ List.mem_cons_self
    exact ⟨h.filters _ hmem, fun config hconfig => h.queries config hconfig _ hmem,
      fun config hconfig => h.scores config hconfig _ hmem⟩
  · intro h
    refine ⟨?_, ?_, ?_, ?_⟩
    · rw [hsearches]
      exact List.forall_mem_singleton.mpr h.filter
    · rw [hsearches]
      exact fun config hconfig => List.forall_mem_singleton.mpr (h.query config hconfig)
    · rw [hsearches]
      exact fun config hconfig => List.forall_mem_singleton.mpr (h.scores config hconfig)
    · rintro config hconfig toEmbed rfl
      refine Or.inl ?_
      cases hconfig
      rfl

theorem prepareOps_op (h : Answers q.ns q.filter s) (offset : Nat) :
    prepareOps [q.op offset] s =
      ⟨s, [.none], ∅, [(0, (offset, q.limit, q.query), q.candidates s)], none⟩ := by
  have hfilter := filterItems_of_answers h q.query
  simp only [prepareOps, Search.op, List.foldl_cons, List.foldl_nil, prepareOp, hfilter]
  rfl

theorem abatch_op (h : Answers q.ns q.filter s) (offset : Nat) (embedded : List (String × Vec))
    (hembedded : embedSearchQueries index (if q.query = "" then [] else [q.query]) =
      .ok embedded) {r : StoreResult F}
    (hr : searchResult index embedded offset q.limit q.query (q.candidates s) = .ok r) :
    (abatch index [q.op offset] s).1 = .ok [r] := by
  have hqueries : [(0, (offset, q.limit, q.query), q.candidates s)].filterMap
      (fun s => if s.2.1.2.2 = "" then none else some s.2.1.2.2) =
        if q.query = "" then [] else [q.query] := by
    by_cases hquery : q.query = ""
    · simp [hquery]
    · simp [hquery]
  have hsearch : batchSearch index embedded
      ⟨s, [.none], ∅, [(0, (offset, q.limit, q.query), q.candidates s)], none⟩ = .ok [r] := by
    rw [batchSearch, List.foldlM_cons, hr]
    rfl
  have hput : embedPuts index (extractTexts index (∅ : Dict StoreKey (Option (PutValue F)))) s = .ok s := by
    cases index with
    | none => rfl
    | some config => rfl
  simp only [abatch, prepareOps_op h, hqueries, hembedded, hsearch, hput]

theorem finds_unscored (h : q.Runs index s) (hplain : index = none ∨ q.query = "") (k : Nat) :
    Finds index q s k (pageOf ((q.candidates s).map (fun c => (c.item, none))) q.limit k) := by
  have hpage : pageOf ((q.candidates s).map (fun c => (c.item, (none : Option F)))) q.limit k =
      page (k * q.limit) q.limit (q.candidates s) := by
    rw [pageOf, page, List.map_take, List.map_drop]
  rw [hpage]
  cases index with
  | none => exact abatch_op h.filter _ [] rfl rfl
  | some config =>
    have hquery : q.query = "" := by
      rcases hplain with hnone | hquery
      · cases hnone
      · exact hquery
    refine abatch_op h.filter _ [] ?_ ?_
    · rw [if_pos hquery]
      rfl
    · rfl

theorem searchResult_query {config : IndexConfig F Vec X} (hquery : q.query ≠ "") {v : Vec}
    (hv : config.embedQuery q.query = .ok v) (offset : Nat) {r : StoreResult F}
    (hr : (if (q.candidates s).isEmpty ∨ q.query = "" then
        .ok (.items (page offset q.limit (q.candidates s)))
      else (config.cosineSimilarity v ((q.candidates s).flatMap Candidate.vectors)).map
        (fun scores => .items (scored offset q.limit (q.candidates s) scores))) = .ok r)
    (h : Answers q.ns q.filter s) : (abatch (some config) [q.op offset] s).1 = .ok [r] := by
  refine abatch_op h offset [(q.query, v)] ?_ ?_
  · have hdedup : [q.query].dedup = [q.query] := List.dedup_eq_self.mpr (List.nodup_singleton _)
    rw [if_neg hquery, embedSearchQueries, hdedup, List.mapM_cons, hv]
    rfl
  · have hlookup : Dict.lookup q.query [(q.query, v)] = some v := if_pos rfl
    simp only [searchResult, hlookup]
    exact hr

theorem finds_none (h : q.Runs index s) (hnone : q.candidates s = []) (k : Nat) :
    Finds index q s k [] := by
  have hpage (offset : Nat) : page offset q.limit (q.candidates s) = [] := by
    rw [hnone, page, List.drop_nil, List.take_nil, List.map_nil]
  by_cases hplain : index = none ∨ q.query = ""
  · have hfinds := finds_unscored h hplain k
    rw [hnone, List.map_nil, pageOf, List.drop_nil, List.take_nil] at hfinds
    exact hfinds
  · rw [not_or] at hplain
    obtain ⟨config, rfl⟩ := Option.ne_none_iff_exists'.mp hplain.1
    obtain ⟨v, hv⟩ := h.query config rfl hplain.2
    refine searchResult_query hplain.2 hv _ ?_ h.filter
    rw [if_pos (Or.inl (by rw [hnone]; rfl)), hpage]

theorem finds_scored {config : IndexConfig F Vec X} (h : q.Runs (some config) s)
    (hquery : q.query ≠ "") (hsome : q.candidates s ≠ []) :
    ∃ v scores, config.cosineSimilarity v ((q.candidates s).flatMap Candidate.vectors) =
        .ok scores ∧
      ∀ k, Finds (some config) q s k (scored (k * q.limit) q.limit (q.candidates s) scores) := by
  obtain ⟨v, hv⟩ := h.query config rfl hquery
  obtain ⟨scores, hscores⟩ := h.scores config rfl hquery v hv hsome
  refine ⟨v, scores, hscores, fun k => searchResult_query hquery hv _ ?_ h.filter⟩
  rw [if_neg (by simp [hsome, hquery]), hscores]
  rfl

end Searching

section Ranking

variable [Floats F]

-- Scores are compared as numbers are: no comparison goes both ways, and ties are transitive.
structure Comparable (scores : List F) : Prop where
  asymm : ∀ a ∈ scores, ∀ b ∈ scores, Floats.lt a b = true → Floats.lt b a = false
  trans : ∀ a ∈ scores, ∀ b ∈ scores, ∀ c ∈ scores, Floats.lt a b = false →
    Floats.lt b c = false → Floats.lt a c = false

def flatItems (candidates : List (Candidate F Vec)) : List (FoundItem F) :=
  candidates.flatMap (fun c => c.vectors.map (fun _ => c.item))

def ranking (candidates : List (Candidate F Vec)) (scores : List F) : List (F × FoundItem F) :=
  (scores.zip (flatItems candidates)).mergeSort (fun a b => !Floats.lt a.1 b.1)

def ranked (candidates : List (Candidate F Vec)) (scores : List F) : List (SearchItem F) :=
  (firsts scoreKey [] (ranking candidates scores)).map scoredItem

def scoreless (candidates : List (Candidate F Vec)) : List (Candidate F Vec) :=
  candidates.filter (fun c => c.vectors.isEmpty)

theorem scored_eq (candidates : List (Candidate F Vec)) (scores : List F) (limit k : Nat) :
    scored (k * limit) limit candidates scores =
      pageOf (ranked candidates scores) limit k ++
        ((scoreless candidates).take
          (limit - (pageOf (ranked candidates scores) limit k).length)).map
            (fun c => (c.item, none)) := by
  rw [ranked, ← pool_page]
  rfl

theorem scored_ne_nil {candidates : List (Candidate F Vec)} (scores : List F) {limit : Nat}
    (hlimit : 0 < limit) (h : scoreless candidates ≠ []) (k : Nat) :
    scored (k * limit) limit candidates scores ≠ [] := by
  intro hnil
  rw [scored_eq, List.append_eq_nil_iff, List.map_eq_nil_iff] at hnil
  obtain ⟨hkept, hrest⟩ := hnil
  rw [hkept, List.length_nil, Nat.sub_zero, List.take_eq_nil_iff] at hrest
  rcases hrest with hzero | hrest
  · exact absurd hzero (Nat.ne_of_gt hlimit)
  · exact h hrest

theorem scored_page {candidates : List (Candidate F Vec)} (scores : List F) (limit k : Nat)
    (h : scoreless candidates = []) :
    scored (k * limit) limit candidates scores = pageOf (ranked candidates scores) limit k := by
  rw [scored_eq, h, List.take_nil, List.map_nil, List.append_nil]

omit [Floats F] in
theorem length_flatItems (candidates : List (Candidate F Vec)) :
    (flatItems candidates).length = (candidates.flatMap Candidate.vectors).length := by
  rw [flatItems, List.length_flatMap, List.length_flatMap]
  simp

omit [Floats F] in
theorem mem_flatItems {candidates : List (Candidate F Vec)} {item : FoundItem F} :
    item ∈ flatItems candidates ↔ ∃ c ∈ candidates, c.vectors ≠ [] ∧ c.item = item := by
  rw [flatItems, List.mem_flatMap]
  refine exists_congr (fun c => and_congr_right (fun _ => ?_))
  rw [List.mem_map]
  constructor
  · rintro ⟨v, hv, rfl⟩
    exact ⟨List.ne_nil_of_mem hv, rfl⟩
  · rintro ⟨hne, rfl⟩
    obtain ⟨v, hv⟩ := List.exists_mem_of_ne_nil _ hne
    exact ⟨v, hv, rfl⟩

theorem mem_ranking {candidates : List (Candidate F Vec)} {scores : List F}
    (hcount : scores.length = (candidates.flatMap Candidate.vectors).length)
    {item : FoundItem F} :
    item ∈ (ranking candidates scores).map Prod.snd ↔ item ∈ flatItems candidates := by
  have hperm := (List.mergeSort_perm (scores.zip (flatItems candidates))
    (fun a b => !Floats.lt a.1 b.1)).map Prod.snd
  have hsnd : (scores.zip (flatItems candidates)).map Prod.snd = flatItems candidates := by
    rw [List.map_snd_zip]
    rw [hcount, length_flatItems]
  rw [ranking, hperm.mem_iff, hsnd]

theorem pairwise_ranking {candidates : List (Candidate F Vec)} {scores : List F}
    (h : Comparable scores) :
    (ranking candidates scores).Pairwise (fun a b => Floats.lt a.1 b.1 = false) := by
  have hmem {x : F × FoundItem F} (hx : x ∈ scores.zip (flatItems candidates)) : x.1 ∈ scores :=
    (List.of_mem_zip hx).1
  have hsorted : (ranking candidates scores).Pairwise
      (fun a b => (!Floats.lt a.1 b.1) = true) := by
    refine pairwise_mergeSort ?_ ?_
    · intro a ha b hb c hc hab hbc
      rw [Bool.not_eq_true'] at hab hbc ⊢
      exact h.trans a.1 (hmem ha) b.1 (hmem hb) c.1 (hmem hc) hab hbc
    · intro a ha b hb
      cases hab : Floats.lt a.1 b.1 with
      | false => rfl
      | true =>
        rw [h.asymm a.1 (hmem ha) b.1 (hmem hb) hab]
        rfl
  exact hsorted.imp (fun hab => by simpa using hab)

end Ranking

section Partition

variable [Floats F] {index : Option (IndexConfig F Vec X)} {q : Search F}
  {s : InMemoryStore F Vec}

-- One score for each vector, and scores that compare.
structure Similarities (config : IndexConfig F Vec X) : Prop where
  count : ∀ v vs scores, config.cosineSimilarity v vs = .ok scores → scores.length = vs.length
  comparable : ∀ v vs scores, config.cosineSimilarity v vs = .ok scores → Comparable scores

theorem map_candidates (q : Search F) (s : InMemoryStore F Vec) :
    (q.candidates s).map Candidate.item = q.matching s := by
  rw [Search.candidates, selected, List.map_map]
  exact List.map_id _

theorem nodup_matching (q : Search F) (s : InMemoryStore F Vec) :
    ((q.matching s).map FoundItem.storeKey).Nodup :=
  (nodup_underNamespace q.ns s).sublist (List.filter_sublist.map _)

theorem lists_unscored (q : Search F) (s : InMemoryStore F Vec) :
    Lists ((q.candidates s).map (fun c => (c.item, none))) (q.matching s) := by
  have hfst : ((q.candidates s).map (fun c => (c.item, (none : Option F)))).map Prod.fst =
      q.matching s := by
    rw [List.map_map, ← map_candidates]
    rfl
  constructor
  · have hkeys := nodup_matching q s
    rw [← hfst, List.map_map] at hkeys
    exact hkeys
  · intro item
    rw [hfst]
  · rw [List.pairwise_map]
    exact List.pairwise_of_forall (fun _ _ => trivial)

theorem lists_ranked {scores : List F}
    (hcount : scores.length = ((q.candidates s).flatMap Candidate.vectors).length)
    (hscores : Comparable scores) (hall : ∀ c ∈ q.candidates s, c.vectors ≠ []) :
    Lists (ranked (q.candidates s) scores) (q.matching s) := by
  have hitems (item : FoundItem F) :
      item ∈ (ranking (q.candidates s) scores).map Prod.snd ↔ item ∈ q.matching s := by
    rw [mem_ranking hcount, mem_flatItems, ← map_candidates, List.mem_map]
    refine exists_congr (fun c => and_congr_right (fun hc => ?_))
    exact and_iff_right (hall c hc)
  have hsublist := firsts_sublist scoreKey [] (ranking (q.candidates s) scores)
  constructor
  · have hkeys := nodup_firsts scoreKey [] (ranking (q.candidates s) scores)
    rw [ranked, List.map_map]
    exact hkeys
  · intro item
    have hfst : (ranked (q.candidates s) scores).map Prod.fst =
        (firsts scoreKey [] (ranking (q.candidates s) scores)).map Prod.snd := by
      rw [ranked, List.map_map]
      rfl
    rw [hfst]
    constructor
    · intro h
      exact (hitems item).mp ((hsublist.map Prod.snd).subset h)
    · intro h
      obtain ⟨x, hx, rfl⟩ := List.mem_map.mp ((hitems item).mpr h)
      obtain ⟨y, hy, hkey⟩ : ∃ y ∈ firsts scoreKey [] (ranking (q.candidates s) scores),
          scoreKey y = scoreKey x := exists_firsts hx List.not_mem_nil
      have hmatch : y.2 ∈ q.matching s :=
        (hitems y.2).mp (List.mem_map_of_mem (hsublist.subset hy))
      have hsame : y.2 = x.2 := List.inj_on_of_nodup_map (nodup_matching q s) hmatch h hkey
      exact List.mem_map.mpr ⟨y, hy, hsame⟩
  · rw [ranked, List.pairwise_map]
    exact (pairwise_ranking hscores).sublist hsublist

theorem partition_of_pages {l : List (SearchItem F)} (hlimit : 0 < q.limit)
    (hfinds : ∀ k, Finds index q s k (pageOf l q.limit k)) (hl : Lists l (q.matching s)) :
    PagesPartition index q s :=
  ⟨_, hfinds, l, concatenated_pages l hlimit, hl⟩

theorem runs_of_finds {k : Nat} {items : List (SearchItem F)} (h : Finds index q s k items) :
    q.Runs index s :=
  (runs_op_iff _).mp (runs_of_ok index h)

theorem finds_unique {k : Nat} {items items' : List (SearchItem F)}
    (h : Finds index q s k items) (h' : Finds index q s k items') : items = items' := by
  have hsame := h.symm.trans h'
  simpa using hsame

theorem partition_of_vectors (hlimit : 0 < q.limit)
    (hsimilar : ∀ config ∈ index, Similarities config) (hruns : q.Runs index s)
    (h : index = none ∨ q.query = "" ∨ ∀ c ∈ q.candidates s, c.vectors ≠ []) :
    PagesPartition index q s := by
  by_cases hplain : index = none ∨ q.query = ""
  · exact partition_of_pages hlimit (finds_unscored hruns hplain) (lists_unscored q s)
  · rw [← or_assoc] at h
    have hall := h.resolve_left hplain
    rw [not_or] at hplain
    obtain ⟨config, rfl⟩ := Option.ne_none_iff_exists'.mp hplain.1
    by_cases hnone : q.candidates s = []
    · refine partition_of_pages hlimit (l := []) (fun k => ?_) ?_
      · rw [pageOf, List.drop_nil, List.take_nil]
        exact finds_none hruns hnone k
      · have hlists := lists_unscored q s
        rw [hnone] at hlists
        exact hlists
    · obtain ⟨v, scores, hscores, hfinds⟩ := finds_scored hruns hplain.2 hnone
      have hless : scoreless (q.candidates s) = [] := by
        rw [scoreless, List.filter_eq_nil_iff]
        intro c hc
        rw [List.isEmpty_iff]
        exact hall c hc
      have hconfig := hsimilar config rfl
      refine partition_of_pages hlimit (fun k => ?_) (lists_ranked
        (hconfig.count v _ scores hscores) (hconfig.comparable v _ scores hscores) hall)
      rw [← scored_page scores q.limit k hless]
      exact hfinds k

theorem vectors_of_partition (hlimit : 0 < q.limit) (h : PagesPartition index q s) :
    index = none ∨ q.query = "" ∨ ∀ c ∈ q.candidates s, c.vectors ≠ [] := by
  obtain ⟨pages, hpages, l, hl, -⟩ := h
  have hruns := runs_of_finds (hpages 0)
  by_contra hno
  rw [not_or, not_or] at hno
  obtain ⟨hindex, hquery, hvectors⟩ := hno
  obtain ⟨config, rfl⟩ := Option.ne_none_iff_exists'.mp hindex
  obtain ⟨c, hc⟩ := not_forall.mp hvectors
  obtain ⟨hc, hempty⟩ := Classical.not_imp.mp hc
  rw [not_not] at hempty
  obtain ⟨-, scores, -, hfinds⟩ := finds_scored hruns hquery (List.ne_nil_of_mem hc)
  have hless : scoreless (q.candidates s) ≠ [] :=
    List.ne_nil_of_mem (List.mem_filter.mpr ⟨hc, by rw [hempty]; rfl⟩)
  refine not_concatenated (fun k => ?_) l hl
  rw [finds_unique (hpages k) (hfinds k)]
  exact scored_ne_nil scores hlimit hless k

theorem pages_partition_iff (hlimit : 0 < q.limit)
    (hsimilar : ∀ config ∈ index, Similarities config) :
    PagesPartition index q s ↔ q.Runs index s ∧
      (index = none ∨ q.query = "" ∨ ∀ c ∈ q.candidates s, c.vectors ≠ []) := by
  constructor
  · intro h
    obtain ⟨pages, hpages, -⟩ := id h
    exact ⟨runs_of_finds (hpages 0), vectors_of_partition hlimit h⟩
  · rintro ⟨hruns, h⟩
    exact partition_of_vectors hlimit hsimilar hruns h

section Unvectorised

def plainItem : InMemoryStore Int Nat :=
  ⟨Dict.empty.set ["docs"] (Dict.empty.set "a" [("n", .int 1)]), ∅⟩

def askedFor : Search Int := ⟨["docs"], [], 1, "x", false⟩

theorem similarities_textIndex : Similarities textIndex := by
  constructor
  · intro v vs scores h
    rw [← Except.ok.inj h, List.length_map]
  · intro v vs scores _
    constructor
    · intro a _ b _ hab
      have hlt : a < b := of_decide_eq_true hab
      exact decide_eq_false (by omega)
    · intro a _ b _ c _ hab hbc
      have hba : ¬ a < b := of_decide_eq_false hab
      have hcb : ¬ b < c := of_decide_eq_false hbc
      exact decide_eq_false (by omega)

theorem pages_partition_plain :
    PagesPartition (some textIndex) askedFor plainItem ↔
      askedFor.Runs (some textIndex) plainItem ∧ (some textIndex = none ∨ askedFor.query = "" ∨
        ∀ c ∈ askedFor.candidates plainItem, c.vectors ≠ []) :=
  pages_partition_iff (by decide)
    (fun _ hconfig => Option.some.inj hconfig ▸ similarities_textIndex)

theorem askedFor_runs : askedFor.Runs (some textIndex) plainItem := by
  refine ⟨fun item _ => ⟨true, rfl⟩, ?_, ?_⟩
  · rintro config ⟨⟩ -
    exact ⟨_, rfl⟩
  · rintro config ⟨⟩ - v - -
    exact ⟨_, rfl⟩

theorem unscored_pages_repeat :
    ¬ ∀ (index : Option (IndexConfig Int Nat Unit)) (q : Search Int) (s : InMemoryStore Int Nat),
        0 < q.limit → q.Runs index s → PagesPartition index q s := by
  intro h
  have hpages := h (some textIndex) askedFor plainItem (by decide) askedFor_runs
  rcases vectors_of_partition (by decide) hpages with hindex | hquery | hall
  · cases hindex
  · exact absurd hquery (by decide)
  · exact hall _ List.mem_cons_self rfl

end Unvectorised

end Partition

end InMemoryStore

end Store

end LangGraph

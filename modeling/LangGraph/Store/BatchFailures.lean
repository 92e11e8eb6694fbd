import LangGraph.Collections.Exceptions
import LangGraph.Store.Memory

namespace LangGraph

open Collections Transition

namespace Store

namespace InMemoryStore

variable {F Vec X : Type} [Floats F]

section Exceptions

variable {α β γ ε : Type}

theorem mapM_ok_iff {f : α → Except ε β} (l : List α) :
    (∃ bs, l.mapM f = .ok bs) ↔ ∀ a ∈ l, ∃ b, f a = .ok b := by
  induction l with
  | nil => simp [pure, Except.pure]
  | cons a l ih =>
    rw [List.forall_mem_cons, ← ih, List.mapM_cons]
    cases f a with
    | error e =>
      constructor
      · rintro ⟨bs, h⟩
        cases h
      · rintro ⟨⟨b, h⟩, -⟩
        cases h
    | ok b =>
      cases l.mapM f with
      | error e =>
        constructor
        · rintro ⟨bs, h⟩
          cases h
        · rintro ⟨-, bs, h⟩
          cases h
      | ok bs => exact ⟨fun _ => ⟨⟨b, rfl⟩, bs, rfl⟩, fun _ => ⟨b :: bs, rfl⟩⟩

theorem lookup_mapM [DecidableEq α] {f : α → Except ε β} {l : List α} {bs : List (α × β)}
    (h : l.mapM (fun a => (f a).map (fun b => (a, b))) = .ok bs) {a : α} {b : β} (ha : a ∈ l)
    (hb : f a = .ok b) : Dict.lookup a bs = some b := by
  induction l generalizing bs with
  | nil => cases ha
  | cons a' l ih =>
    rw [List.mapM_cons] at h
    cases hf : f a' with
    | error e =>
      rw [hf] at h
      cases h
    | ok b' =>
      rw [hf] at h
      cases hrest : l.mapM (fun a => (f a).map (fun b => (a, b))) with
      | error e =>
        rw [hrest] at h
        cases h
      | ok bs' =>
        rw [hrest] at h
        cases h
        rw [Dict.lookup]
        split
        · rename_i heq
          have hsame : a' = a := heq
          rw [hsame, hb] at hf
          cases hf
          rfl
        · rename_i hne
          refine ih hrest ?_
          rcases List.mem_cons.mp ha with rfl | ha
          · exact absurd rfl hne
          · exact ha

theorem foldlM_ok_iff {f : α → Except ε β} {g : γ → α → β → γ} (l : List α) (c : γ) :
    (∃ d, l.foldlM (fun c a => (f a).map (g c a)) c = .ok d) ↔ ∀ a ∈ l, ∃ b, f a = .ok b := by
  induction l generalizing c with
  | nil => simp [pure, Except.pure]
  | cons a l ih =>
    rw [List.forall_mem_cons, List.foldlM_cons]
    cases f a with
    | error e =>
      constructor
      · rintro ⟨d, h⟩
        cases h
      · rintro ⟨⟨b, h⟩, -⟩
        cases h
    | ok b =>
      refine (ih (g c a b)).trans ?_
      exact ⟨fun h => ⟨⟨b, rfl⟩, h⟩, fun h => h.2⟩

end Exceptions

section Preparing

def Answers (ns : Namespace) (filter : List (String × Json F)) (s : InMemoryStore F Vec) : Prop :=
  ∀ item ∈ underNamespace ns s, ∃ b, compareItems item.value filter = .ok b

def accepted : Except CompareError Bool → Bool
  | .ok b => b
  | .error _ => false

def selected (ns : Namespace) (filter : List (String × Json F)) (query : String)
    (s : InMemoryStore F Vec) : List (Candidate F Vec) :=
  ((underNamespace ns s).filter (fun item => accepted (compareItems item.value filter))).map
    (candidate query s)

structure SearchParams (F : Type) where
  ns : Namespace
  filter : List (String × Json F)
  limit : Nat
  offset : Nat
  query : String

def searchesOf (ops : List (StoreOp F)) : List (SearchParams F) :=
  ops.filterMap (fun op =>
    match op with
    | .read (.search ns filter limit offset query _) => some ⟨ns, filter, limit, offset, query⟩
    | _ => none)

def SearchParams.found (p : SearchParams F) (s : InMemoryStore F Vec) : List (Candidate F Vec) :=
  selected p.ns p.filter p.query s

theorem filterItems_of_answers {ns : Namespace} {filter : List (String × Json F)}
    {s : InMemoryStore F Vec} (h : Answers ns filter s) (query : String) :
    filterItems ns filter query s = .ok (selected ns filter query s) := by
  rw [filterItems]
  refine Exceptions.foldlM_keep (fun acc item hitem => ?_) (fun acc item hitem => ?_)
    (fun item b hitem => ?_) h []
  · simp only [hitem]
  · simp only [hitem]
  · cases b with
    | true => simp [accepted, hitem]
    | false => simp [accepted, hitem]

theorem filterItems_of_not_answers {ns : Namespace} {filter : List (String × Json F)}
    {s : InMemoryStore F Vec} (h : ¬ Answers ns filter s) (query : String) :
    ∃ e, filterItems ns filter query s = .error e := by
  rw [filterItems]
  refine Exceptions.foldlM_keep_error (f := candidate query s) (fun acc item hitem => ?_)
    (fun acc item hitem => ?_) (fun acc item e hitem => ?_) h []
  · simp only [hitem]
  · simp only [hitem]
  · simp only [hitem]

omit [Floats F] in
theorem underNamespace_touch (ns ns' : Namespace) (s : InMemoryStore F Vec) :
    underNamespace ns (touchNamespace ns' s) = underNamespace ns s := by
  rw [touchNamespace]
  split
  · rfl
  · rename_i hnone
    have hkeys : ns' ∉ s.data.items.map Prod.fst := by
      intro hmem
      exact hnone (Dict.contains_iff.mpr hmem)
    have hset : (s.data.set ns' ∅).items = s.data.items ++ [(ns', ∅)] :=
      Dict.insert_of_not_mem hkeys
    rw [underNamespace, hset, List.filter_append, List.flatMap_append]
    have hempty : ([(ns', ∅)].filter (fun d => ns.isPrefixOf d.1)).flatMap
        (fun d : Namespace × Dict String (List (String × Json F)) =>
          d.2.items.map (fun i => (⟨d.1, i.1, i.2⟩ : FoundItem F))) = [] := by
      rw [List.filter_singleton]
      cases List.isPrefixOf ns ns' <;> rfl
    rw [hempty, List.append_nil]
    rfl

omit [Floats F] in
theorem vectors_touch (ns : Namespace) (s : InMemoryStore F Vec) :
    (touchNamespace ns s).vectors = s.vectors := by
  rw [touchNamespace]
  split <;> rfl

structure Prepared.After (s : InMemoryStore F Vec) (ops : List (StoreOp F))
    (p : Prepared F Vec) : Prop where
  under : ∀ ns, underNamespace ns p.store = underNamespace ns s
  vectors : p.store.vectors = s.vectors
  size : p.results.length = ops.length
  puts : p.puts = (∅ : Dict StoreKey (Option (PutValue F))).update (Op.puts ops)
  found : p.searches.map Prod.snd =
    (searchesOf ops).map (fun q => ((q.offset, q.limit, q.query), q.found s))
  answers : ∀ q ∈ searchesOf ops, Answers q.ns q.filter s
  running : p.error = none

theorem Prepared.After.selected_eq {s : InMemoryStore F Vec} {ops : List (StoreOp F)}
    {p : Prepared F Vec} (h : p.After s ops) (ns : Namespace) (filter : List (String × Json F))
    (query : String) : selected ns filter query p.store = selected ns filter query s := by
  have hcandidate : candidate query p.store = candidate query s := by
    funext item
    rw [candidate, candidate, h.vectors]
  rw [selected, selected, h.under, hcandidate]

theorem Prepared.After.answers_iff {s : InMemoryStore F Vec} {ops : List (StoreOp F)}
    {p : Prepared F Vec} (h : p.After s ops) (ns : Namespace) (filter : List (String × Json F)) :
    Answers ns filter p.store ↔ Answers ns filter s := by
  rw [Answers, Answers, h.under]

omit [Floats F] in
theorem searchesOf_append (ops : List (StoreOp F)) (op : StoreOp F) :
    searchesOf (ops ++ [op]) = searchesOf ops ++ searchesOf [op] :=
  List.filterMap_append

omit [Floats F] in
theorem puts_update (ops : List (StoreOp F)) (op : StoreOp F) :
    (∅ : Dict StoreKey (Option (PutValue F))).update (Op.puts (ops ++ [op])) =
      ((∅ : Dict StoreKey (Option (PutValue F))).update (Op.puts ops)).update (Op.puts [op]) := by
  rw [Op.puts_append]
  exact List.foldl_append

theorem prepareOp_after {s : InMemoryStore F Vec} {ops : List (StoreOp F)} {p : Prepared F Vec}
    (h : p.After s ops) (op : StoreOp F)
    (hop : ∀ q ∈ searchesOf [op], Answers q.ns q.filter s) :
    (prepareOp p op).After s (ops ++ [op]) := by
  have hrunning : p.error.isSome = false := by
    rw [h.running]
    rfl
  cases op with
  | put key value =>
    rw [prepareOp, hrunning]
    refine ⟨h.under, h.vectors, by simp [h.size], ?_, ?_, ?_, h.running⟩
    · rw [puts_update, ← h.puts]
      rfl
    · rw [searchesOf_append]
      simpa [searchesOf] using h.found
    · rw [searchesOf_append]
      simpa [searchesOf] using h.answers
  | read r =>
    cases r with
    | get ns key refreshTtl =>
      rw [prepareOp, hrunning]
      refine ⟨fun ns' => (underNamespace_touch ns' ns p.store).trans (h.under ns'),
        (vectors_touch ns p.store).trans h.vectors, by simp [h.size], ?_, ?_, ?_, h.running⟩
      · rw [puts_update, ← h.puts]
        rfl
      · rw [searchesOf_append]
        simpa [searchesOf] using h.found
      · rw [searchesOf_append]
        simpa [searchesOf] using h.answers
    | listNamespaces conditions maxDepth limit offset =>
      rw [prepareOp, hrunning]
      refine ⟨h.under, h.vectors, by simp [h.size], ?_, ?_, ?_, h.running⟩
      · rw [puts_update, ← h.puts]
        rfl
      · rw [searchesOf_append]
        simpa [searchesOf] using h.found
      · rw [searchesOf_append]
        simpa [searchesOf] using h.answers
    | search ns filter limit offset query refreshTtl =>
      have hanswers : Answers ns filter s := hop ⟨ns, filter, limit, offset, query⟩ List.mem_cons_self
      have hfilter := filterItems_of_answers ((h.answers_iff ns filter).mpr hanswers) query
      rw [h.selected_eq] at hfilter
      rw [prepareOp, hrunning]
      simp only [Bool.false_eq_true, if_false, hfilter]
      refine ⟨h.under, h.vectors, by simp [h.size], ?_, ?_, ?_, h.running⟩
      · rw [puts_update, ← h.puts]
        rfl
      · rw [searchesOf_append, List.map_append, List.map_append, h.found]
        rfl
      · intro q hq
        rw [searchesOf_append, List.mem_append] at hq
        rcases hq with hq | hq
        · exact h.answers q hq
        · exact hop q hq

theorem prepareOp_error {s : InMemoryStore F Vec} {ops : List (StoreOp F)} {p : Prepared F Vec}
    (h : p.After s ops) (op : StoreOp F)
    (hop : ¬ ∀ q ∈ searchesOf [op], Answers q.ns q.filter s) :
    (prepareOp p op).error.isSome = true := by
  cases op with
  | put key value => exact absurd (fun q hq => by cases hq) hop
  | read r =>
    cases r with
    | get ns key refreshTtl => exact absurd (fun q hq => by cases hq) hop
    | listNamespaces conditions maxDepth limit offset =>
      exact absurd (fun q hq => by cases hq) hop
    | search ns filter limit offset query refreshTtl =>
      have hno : ¬ Answers ns filter p.store := by
        rw [h.answers_iff]
        intro hanswers
        refine hop (fun q hq => ?_)
        cases List.mem_singleton.mp hq
        exact hanswers
      obtain ⟨e, he⟩ := filterItems_of_not_answers hno query
      have hrunning : p.error.isSome = false := by
        rw [h.running]
        rfl
      rw [prepareOp, hrunning]
      simp only [Bool.false_eq_true, if_false, he]
      rfl

theorem prepare_stopped {p : Prepared F Vec} (h : p.error.isSome = true)
    (ops : List (StoreOp F)) : (ops.foldl prepareOp p).error.isSome = true := by
  induction ops generalizing p with
  | nil => exact h
  | cons op ops ih =>
    have hstop : prepareOp p op = p := if_pos h
    rw [List.foldl_cons, hstop]
    exact ih h

theorem foldl_prepareOp {s : InMemoryStore F Vec} {done : List (StoreOp F)} {p : Prepared F Vec}
    (h : p.After s done) (ops : List (StoreOp F)) :
    ((∀ q ∈ searchesOf ops, Answers q.ns q.filter s) ∧
      (ops.foldl prepareOp p).After s (done ++ ops)) ∨
    ((¬ ∀ q ∈ searchesOf ops, Answers q.ns q.filter s) ∧
      (ops.foldl prepareOp p).error.isSome = true) := by
  induction ops generalizing done p with
  | nil =>
    rw [List.append_nil]
    exact Or.inl ⟨List.forall_mem_nil _, h⟩
  | cons op ops ih =>
    have hsplit : searchesOf (op :: ops) = searchesOf [op] ++ searchesOf ops := by
      rw [searchesOf, searchesOf, searchesOf, ← List.filterMap_append]
      rfl
    rw [hsplit, List.forall_mem_append, List.foldl_cons]
    by_cases hop : ∀ q ∈ searchesOf [op], Answers q.ns q.filter s
    · rcases ih (prepareOp_after h op hop) with ⟨hrest, hafter⟩ | ⟨hrest, herror⟩
      · rw [List.append_assoc] at hafter
        exact Or.inl ⟨⟨hop, hrest⟩, hafter⟩
      · exact Or.inr ⟨fun hall => hrest hall.2, herror⟩
    · exact Or.inr ⟨fun hall => hop hall.1, prepare_stopped (prepareOp_error h op hop) ops⟩

theorem prepareOps_cases (ops : List (StoreOp F)) (s : InMemoryStore F Vec) :
    ((∀ q ∈ searchesOf ops, Answers q.ns q.filter s) ∧ (prepareOps ops s).After s ops) ∨
    ((¬ ∀ q ∈ searchesOf ops, Answers q.ns q.filter s) ∧
      (prepareOps ops s).error.isSome = true) := by
  have hstart : Prepared.After s [] ⟨s, [], ∅, [], none⟩ :=
    ⟨fun _ => rfl, rfl, rfl, rfl, rfl, List.forall_mem_nil _, rfl⟩
  exact foldl_prepareOp hstart ops

end Preparing

section Running

variable (index : Option (IndexConfig F Vec X))

-- No filter of a search raises on an item it meets, its query embeds and is compared, and the
-- texts of the puts embed with one vector for each entry.
structure Runs (ops : List (StoreOp F)) (s : InMemoryStore F Vec) : Prop where
  filters : ∀ q ∈ searchesOf ops, Answers q.ns q.filter s
  queries : ∀ config ∈ index, ∀ q ∈ searchesOf ops, q.query ≠ "" →
    ∃ v, config.embedQuery q.query = .ok v
  scores : ∀ config ∈ index, ∀ q ∈ searchesOf ops, q.query ≠ "" →
    ∀ v, config.embedQuery q.query = .ok v → q.found s ≠ [] →
      ∃ scores, config.cosineSimilarity v ((q.found s).flatMap Candidate.vectors) = .ok scores
  texts : ∀ config ∈ index, ∀ toEmbed,
    toEmbed = extractTexts index ((∅ : Dict StoreKey (Option (PutValue F))).update (Op.puts ops)) →
      toEmbed.items = [] ∨ ∃ vs, config.embedDocuments toEmbed.keys = .ok vs ∧
        toEmbed.values.flatten.length = vs.length

omit [Floats F] in
theorem embedSearchQueries_ok_iff (queries : List String) :
    (∃ embedded, embedSearchQueries index queries = .ok embedded) ↔
      ∀ config ∈ index, ∀ q ∈ queries, ∃ v, config.embedQuery q = .ok v := by
  cases index with
  | none => simp [embedSearchQueries]
  | some config =>
    rw [embedSearchQueries, mapM_ok_iff]
    have hmap (q : String) : (∃ b, (config.embedQuery q).map (fun v => (q, v)) = .ok b) ↔
        ∃ v, config.embedQuery q = .ok v := by
      cases config.embedQuery q with
      | error x => simp [Except.map]
      | ok v => simp [Except.map]
    simp only [List.mem_dedup, hmap, Option.mem_some_iff, forall_eq']

omit [Floats F] in
theorem embedPuts_ok_iff (toEmbed : Dict String (List (StoreKey × String)))
    (s : InMemoryStore F Vec) :
    (∃ store, embedPuts index toEmbed s = .ok store) ↔ ∀ config ∈ index,
      toEmbed.items = [] ∨ ∃ vs, config.embedDocuments toEmbed.keys = .ok vs ∧
        toEmbed.values.flatten.length = vs.length := by
  cases index with
  | none => simp [embedPuts]
  | some config =>
    simp only [Option.mem_some_iff, forall_eq', embedPuts, List.isEmpty_iff]
    by_cases hempty : toEmbed.items = []
    · simp [hempty]
    · rw [if_neg hempty]
      cases config.embedDocuments toEmbed.keys with
      | error x => simp [hempty]
      | ok vs =>
        by_cases hcount : toEmbed.values.flatten.length = vs.length
        · dsimp only
          rw [if_neg (not_not.mpr hcount)]
          exact ⟨fun _ => Or.inr ⟨vs, rfl, hcount⟩, fun _ => ⟨_, rfl⟩⟩
        · dsimp only
          rw [if_pos hcount]
          constructor
          · rintro ⟨store, h⟩
            cases h
          · rintro (h | ⟨vs', hvs, hlength⟩)
            · exact absurd h hempty
            · cases hvs
              exact absurd hlength hcount

theorem batchSearch_ok_iff (embedded : List (String × Vec)) (p : Prepared F Vec) :
    (∃ results, batchSearch index embedded p = .ok results) ↔ ∀ q ∈ p.searches.map Prod.snd,
      ∃ r, searchResult index embedded q.1.1 q.1.2.1 q.1.2.2 q.2 = .ok r := by
  rw [batchSearch, foldlM_ok_iff, List.forall_mem_map]

theorem searchResult_ok_iff {config : IndexConfig F Vec X} {embedded : List (String × Vec)}
    {query : String} {v : Vec} (hv : Dict.lookup query embedded = some v) (offset limit : Nat)
    (candidates : List (Candidate F Vec)) :
    (∃ r, searchResult (some config) embedded offset limit query candidates = .ok r) ↔
      candidates = [] ∨ query = "" ∨
        ∃ scores, config.cosineSimilarity v (candidates.flatMap Candidate.vectors) = .ok scores := by
  simp only [searchResult, hv, List.isEmpty_iff]
  by_cases hempty : candidates = []
  · simp [hempty]
  · by_cases hquery : query = ""
    · simp [hquery]
    · rw [if_neg (by simp [hempty, hquery])]
      cases config.cosineSimilarity v (candidates.flatMap Candidate.vectors) with
      | error x => simp [Except.map, hempty, hquery]
      | ok scores => simp [Except.map]

theorem searchResult_unqueried (embedded : List (String × Vec)) (offset limit : Nat)
    (candidates : List (Candidate F Vec)) :
    ∃ r, searchResult index embedded offset limit "" candidates = .ok r := by
  cases index with
  | none => exact ⟨_, rfl⟩
  | some config =>
    simp only [searchResult]
    cases Dict.lookup "" embedded with
    | none => exact ⟨_, rfl⟩
    | some v => exact ⟨_, if_pos (Or.inr trivial)⟩

def asked (ops : List (StoreOp F)) : List String :=
  (searchesOf ops).filterMap (fun q => if q.query = "" then none else some q.query)

omit [Floats F] in
theorem mem_asked {ops : List (StoreOp F)} {query : String} :
    query ∈ asked ops ↔ query ≠ "" ∧ ∃ q ∈ searchesOf ops, q.query = query := by
  rw [asked, List.mem_filterMap]
  constructor
  · rintro ⟨q, hq, h⟩
    split at h
    · cases h
    · rename_i hne
      cases h
      exact ⟨hne, q, hq, rfl⟩
  · rintro ⟨hne, q, hq, rfl⟩
    exact ⟨q, hq, if_neg hne⟩

theorem searches_ok_iff {s : InMemoryStore F Vec} {ops : List (StoreOp F)} {p : Prepared F Vec}
    (h : p.After s ops) {embedded : List (String × Vec)}
    (hembedded : embedSearchQueries index (asked ops) = .ok embedded) :
    (∃ results, batchSearch index embedded p = .ok results) ↔
      ∀ config ∈ index, ∀ q ∈ searchesOf ops, q.query ≠ "" →
        ∀ v, config.embedQuery q.query = .ok v → q.found s ≠ [] →
          ∃ scores, config.cosineSimilarity v ((q.found s).flatMap Candidate.vectors) =
            .ok scores := by
  rw [batchSearch_ok_iff, h.found, List.forall_mem_map]
  cases index with
  | none => simp [searchResult]
  | some config =>
    simp only [Option.mem_some_iff, forall_eq']
    refine forall₂_congr (fun q hq => ?_)
    by_cases hquery : q.query = ""
    · rw [hquery]
      simp [searchResult_unqueried]
    · have hasked : q.query ∈ asked ops := mem_asked.mpr ⟨hquery, q, hq, rfl⟩
      obtain ⟨v, hv⟩ := (embedSearchQueries_ok_iff (some config) (asked ops)).mp ⟨_, hembedded⟩
        config rfl q.query hasked
      have hlookup : Dict.lookup q.query embedded = some v :=
        lookup_mapM hembedded (List.mem_dedup.mpr hasked) hv
      rw [searchResult_ok_iff hlookup]
      constructor
      · rintro hall - v' hv' hfound
        rw [hv] at hv'
        cases hv'
        rcases hall with hnil | hempty | hscores
        · exact absurd hnil hfound
        · exact absurd hempty hquery
        · exact hscores
      · intro hall
        by_cases hfound : q.found s = []
        · exact Or.inl hfound
        · exact Or.inr (Or.inr (hall hquery v hv hfound))

theorem Prepared.After.queries {s : InMemoryStore F Vec} {ops : List (StoreOp F)}
    {p : Prepared F Vec} (h : p.After s ops) :
    p.searches.filterMap (fun s => if s.2.1.2.2 = "" then none else some s.2.1.2.2) = asked ops := by
  have hmap : p.searches.filterMap (fun s => if s.2.1.2.2 = "" then none else some s.2.1.2.2) =
      (p.searches.map Prod.snd).filterMap
        (fun s => if s.1.2.2 = "" then none else some s.1.2.2) := by
    rw [List.filterMap_map]
    rfl
  rw [hmap, h.found, List.filterMap_map]
  rfl

theorem length_batchSearch {embedded : List (String × Vec)} {p : Prepared F Vec}
    {results : List (StoreResult F)} (h : batchSearch index embedded p = .ok results) :
    results.length = p.results.length := by
  have hfold (l : List (Nat × (Nat × Nat × String) × List (Candidate F Vec)))
      (start : List (StoreResult F))
      (hl : l.foldlM (fun results s =>
        (searchResult index embedded s.2.1.1 s.2.1.2.1 s.2.1.2.2 s.2.2).map
          (fun r => results.set s.1 r)) start = .ok results) : results.length = start.length := by
    induction l generalizing start with
    | nil =>
      cases hl
      rfl
    | cons q rest ih =>
      rw [List.foldlM_cons] at hl
      cases hr : searchResult index embedded q.2.1.1 q.2.1.2.1 q.2.1.2.2 q.2.2 with
      | error x =>
        rw [hr] at hl
        cases hl
      | ok r =>
        rw [hr] at hl
        exact (ih _ hl).trans List.length_set
  exact hfold p.searches p.results h

theorem abatch_ok {ops : List (StoreOp F)} {s : InMemoryStore F Vec} (h : Runs index ops s) :
    ∃ results, (abatch index ops s).1 = .ok results ∧ results.length = ops.length := by
  rcases prepareOps_cases ops s with ⟨-, hafter⟩ | ⟨hno, -⟩
  · obtain ⟨embedded, hembedded⟩ : ∃ embedded, embedSearchQueries index (asked ops) =
        .ok embedded := by
      refine (embedSearchQueries_ok_iff index (asked ops)).mpr (fun config hconfig query hquery => ?_)
      obtain ⟨hne, q, hq, rfl⟩ := mem_asked.mp hquery
      exact h.queries config hconfig q hq hne
    obtain ⟨results, hresults⟩ := (searches_ok_iff index hafter hembedded).mpr h.scores
    obtain ⟨store, hstore⟩ := (embedPuts_ok_iff index
      (extractTexts index (prepareOps ops s).puts) (prepareOps ops s).store).mpr
        (fun config hconfig => h.texts config hconfig _ (by rw [hafter.puts]))
    refine ⟨results, ?_, (length_batchSearch index hresults).trans hafter.size⟩
    simp only [abatch, hafter.running, hafter.queries, hembedded, hresults, hstore]
  · exact absurd h.filters hno

theorem runs_of_ok {ops : List (StoreOp F)} {s : InMemoryStore F Vec}
    {results : List (StoreResult F)} (h : (abatch index ops s).1 = .ok results) :
    Runs index ops s := by
  rcases prepareOps_cases ops s with ⟨hanswers, hafter⟩ | ⟨-, herror⟩
  · simp only [abatch, hafter.running, hafter.queries] at h
    cases hembedded : embedSearchQueries index (asked ops) with
    | error x =>
      rw [hembedded] at h
      cases h
    | ok embedded =>
      rw [hembedded] at h
      dsimp only at h
      cases hresults : batchSearch index embedded (prepareOps ops s) with
      | error x =>
        rw [hresults] at h
        cases h
      | ok found =>
        rw [hresults] at h
        dsimp only at h
        cases hstore : embedPuts index (extractTexts index (prepareOps ops s).puts)
            (prepareOps ops s).store with
        | error x =>
          rw [hstore] at h
          cases h
        | ok store =>
          refine ⟨hanswers, ?_, (searches_ok_iff index hafter hembedded).mp ⟨_, hresults⟩, ?_⟩
          · intro config hconfig q hq hne
            exact (embedSearchQueries_ok_iff index (asked ops)).mp ⟨_, hembedded⟩ config hconfig
              q.query (mem_asked.mpr ⟨hne, q, hq, rfl⟩)
          · intro config hconfig toEmbed htexts
            rw [htexts, ← hafter.puts]
            exact (embedPuts_ok_iff index _ _).mp ⟨_, hstore⟩ config hconfig
  · obtain ⟨e, he⟩ := Option.isSome_iff_exists.mp herror
    simp only [abatch, he] at h
    cases h

theorem raises_iff (ops : List (StoreOp F)) (s : InMemoryStore F Vec) :
    (∃ e, (abatch index ops s).1 = .error e) ↔ ¬ Runs index ops s := by
  constructor
  · rintro ⟨e, he⟩ hruns
    obtain ⟨results, hresults, -⟩ := abatch_ok index hruns
    rw [he] at hresults
    cases hresults
  · intro hno
    cases h : (abatch index ops s).1 with
    | error e => exact ⟨e, rfl⟩
    | ok results => exact absurd (runs_of_ok index h) hno

end Running

section Independence

variable (index : Option (IndexConfig F Vec X))

abbrev Batching (F Vec X : Type) :=
  Background (ReadOp F) StoreKey (PutValue F) (InMemoryStore F Vec) (StoreResult F) (StoreError X)

def merged (s : Batching F Vec X) : List (StoreOp F) := (dedupeOps (s.items.map Prod.snd)).2

def GetsException (s : Batching F Vec X) (i : Nat) : Prop :=
  ∃ e, s.futs[i]? = some (.exception e)

def RaisesAlone (s : Batching F Vec X) (op : StoreOp F) : Prop :=
  ∃ e, (abatch index [op] s.store).1 = .error e

theorem mapM_get {α : Type} {results : List α} (ixs : List Nat)
    (h : ∀ ix ∈ ixs, ix < results.length) : ∃ rs, ixs.mapM (fun ix => results[ix]?) = some rs := by
  induction ixs with
  | nil => exact ⟨[], rfl⟩
  | cons ix ixs ih =>
    obtain ⟨rs, hrs⟩ := ih (fun x hx => h x (List.mem_cons_of_mem _ hx))
    have hlt : ix < results.length := h ix List.mem_cons_self
    have hget : results[ix]? = some results[ix] := List.getElem?_eq_getElem hlt
    exact ⟨results[ix] :: rs, by rw [List.mapM_cons, hget, hrs]; rfl⟩

theorem redistribute_some {values : List (StoreOp F)} {results : List (StoreResult F)}
    (h : results.length = (dedupeOps values).2.length) :
    ∃ rs, Background.redistribute (dedupeOps values).1 results = some rs := by
  rcases dedupeOps_cases values with hsame | ⟨d, hd, hsame⟩
  · rw [hsame]
    exact ⟨results, rfl⟩
  · rw [hsame] at h ⊢
    refine mapM_get d.listen (fun ix hix => ?_)
    obtain ⟨n, hn, hget⟩ := List.mem_iff_getElem.mp hix
    obtain ⟨hlength, hall⟩ := List.forall₂_iff_get.mp hd.listened
    obtain ⟨held, hheld, -⟩ := hall n (hlength ▸ hn) hn
    obtain ⟨hlt, -⟩ := List.getElem?_eq_some_iff.mp hheld
    have hsize : results.length = d.dedupped.length := h
    rw [hsize, ← hget]
    exact hlt

omit [Floats F] in
theorem exception_of_settled {i : Nat} {os : List (Nat × Fut (StoreResult F) (StoreError X))}
    (hos : ∀ o ∈ os, ∃ r, o.2 = .result r) {futs : List (Fut (StoreResult F) (StoreError X))}
    {e : BatchError (StoreError X)}
    (h : (Background.settleAll futs os)[i]? = some (.exception e)) :
    futs[i]? = some (.exception e) := by
  induction os generalizing futs with
  | nil => exact h
  | cons o os ih =>
    have hrest := ih (fun x hx => hos x (List.mem_cons_of_mem _ hx)) h
    rw [List.getElem?_modify] at hrest
    obtain ⟨f, hf, hsettled⟩ := Option.map_eq_some_iff.mp hrest
    obtain ⟨r, hr⟩ := hos o List.mem_cons_self
    rw [hf]
    split at hsettled
    · rw [hr] at hsettled
      cases f with
      | pending => cases hsettled
      | cancelled => cases hsettled
      | result r' => cases hsettled
      | exception e' => exact congrArg some hsettled
    · exact congrArg some hsettled

theorem exception_iff {s : Batching F Vec X} (h : s.Tidy) {item : Nat × StoreOp F}
    (hitem : item ∈ s.items) :
    GetsException (Background.step (abatch index) s .finish) item.1 ↔
      ¬ Runs index (merged s) s.store ∧ s.futs[item.1]? = some .pending := by
  obtain ⟨batch, hrunning⟩ : ∃ batch, s.running = some batch := by
    cases hrunning : s.running with
    | none =>
      rw [Background.items, hrunning] at hitem
      cases hitem
    | some batch => exact ⟨batch, rfl⟩
  have hbatch : s.items = batch := by
    rw [Background.items, hrunning]
    rfl
  have hstep : Background.step (abatch index) s .finish = s.finish (abatch index) batch := by
    rw [Background.step, hrunning]
  have hids : item.1 ∈ (s.items ++ s.aqueue).map Prod.fst := by
    rw [List.map_append, List.mem_append]
    exact Or.inl (List.mem_map_of_mem hitem)
  have hawaited := h.awaited item.1 hids
  have hnodup : (batch.map Prod.fst).Nodup := by
    have hall := h.nodup
    rw [List.map_append, hbatch] at hall
    exact (List.nodup_append.mp hall).1
  have hfuts : (s.finish (abatch index) batch).futs = Background.settleAll s.futs
      (Background.outcomes (batch.map Prod.fst) (dedupeOps (batch.map Prod.snd)).1
        (abatch index (merged s) s.store).1) := by
    rw [merged, hbatch]
    rfl
  rw [hstep, GetsException, hfuts]
  rw [hbatch] at hitem
  by_cases hruns : Runs index (merged s) s.store
  · obtain ⟨results, hresults, hlength⟩ := abatch_ok index hruns
    have hmerged : (dedupeOps (batch.map Prod.snd)).2 = merged s := by
      rw [merged, hbatch]
    obtain ⟨rs, hrs⟩ := redistribute_some (hmerged ▸ hlength)
    rw [hresults, Background.outcomes, hrs]
    constructor
    · rintro ⟨e, he⟩
      have hold := exception_of_settled (fun o ho => by
        obtain ⟨r, -, hr⟩ := List.mem_map.mp (List.of_mem_zip ho).2
        exact ⟨r, hr.symm⟩) he
      rcases hawaited with hf | hf
      · rw [hf] at hold
        cases hold
      · rw [hf] at hold
        cases hold
    · rintro ⟨hno, -⟩
      exact absurd hruns hno
  · obtain ⟨e, he⟩ := (raises_iff index (merged s) s.store).mpr hruns
    rw [he, Background.outcomes]
    have hos : (item.1, Fut.exception (BatchError.raised e)) ∈ (batch.map Prod.fst).map
        (fun fut => (fut, (Fut.exception (.raised e) : Fut (StoreResult F) (StoreError X)))) :=
      List.mem_map.mpr ⟨item.1, List.mem_map_of_mem hitem, rfl⟩
    have hkeys : (((batch.map Prod.fst).map
        (fun fut => (fut, (Fut.exception (.raised e) : Fut (StoreResult F) (StoreError X))))).map
          Prod.fst).Nodup := by
      simpa [Function.comp_def] using hnodup
    rcases hawaited with hf | hf
    · rw [Background.settleAll_mem hkeys hos hf, hf]
      exact ⟨fun _ => ⟨hruns, rfl⟩, fun _ => ⟨_, rfl⟩⟩
    · rw [Background.settleAll_mem hkeys hos hf, hf]
      constructor
      · rintro ⟨e', he'⟩
        cases he'
      · rintro ⟨-, hpending⟩
        cases hpending

def reached (store : InMemoryStore F Vec)
    (es : List (BackgroundEvent (ReadOp F) StoreKey (PutValue F))) : Batching F Vec X :=
  Background.after (abatch index) store es

def FailIndependently (s : Batching F Vec X) : Prop :=
  ∀ item ∈ s.items, GetsException (Background.step (abatch index) s .finish) item.1 →
    RaisesAlone index s item.2

theorem batched_fail_independently_iff (store : InMemoryStore F Vec)
    (es : List (BackgroundEvent (ReadOp F) StoreKey (PutValue F))) :
    FailIndependently index (reached index store es) ↔
      Runs index (merged (reached index store es)) (reached index store es).store ∨
        ∀ item ∈ (reached index store es).items,
          (reached index store es).futs[item.1]? = some .pending →
            ¬ Runs index [item.2] (reached index store es).store := by
  have htidy : (reached index store es).Tidy := Background.Tidy.after store es
  constructor
  · intro h
    by_cases hruns : Runs index (merged (reached index store es)) (reached index store es).store
    · exact Or.inl hruns
    · refine Or.inr (fun item hitem hpending => ?_)
      exact (raises_iff index [item.2] _).mp
        (h item hitem ((exception_iff index htidy hitem).mpr ⟨hruns, hpending⟩))
  · rintro h item hitem hexception
    obtain ⟨hno, hpending⟩ := (exception_iff index htidy hitem).mp hexception
    rcases h with hruns | halone
    · exact absurd hruns hno
    · exact (raises_iff index [item.2] _).mpr (halone item hitem hpending)

end Independence

section Failing

instance wholeFloats : Floats Int where
  ofInt n := some n
  ofStr s := if s = "1" then some 1 else none
  lt a b := decide (a < b)
  le a b := decide (a ≤ b)
  eq a b := decide (a = b)
  eqInt a b := decide (a = b)

def textIndex : IndexConfig Int Nat Unit where
  fields := ["text"]
  textAtPath := fun value _ => value.filterMap (fun i =>
    match i.2 with
    | .str t => some t
    | _ => none)
  embedQuery := fun q => .ok q.length
  embedDocuments := fun texts => .ok (texts.map String.length)
  cosineSimilarity := fun _ vs => .ok (vs.map (fun _ => 0))

def unindexed : Option (IndexConfig Int Nat Unit) := none

def sameText : List (BackgroundEvent (ReadOp Int) StoreKey (PutValue Int)) :=
  [.submit (.put (["docs"], "a") (some ⟨[("text", .str "same")], .default⟩)),
    .submit (.put (["docs"], "b") (some ⟨[("text", .str "same")], .default⟩)), .gather]

def badFilter : List (BackgroundEvent (ReadOp Int) StoreKey (PutValue Int)) :=
  [.submit (.put (["docs"], "b") (some ⟨[("n", .int 2)], .default⟩)),
    .submit (.read (.search ["docs"] [("n", .dict [("$gt", .str "x")])] 10 0 "" false)), .gather]

def oneItem : InMemoryStore Int Nat := ⟨Dict.empty.set ["docs"] (Dict.empty.set "a" [("n", .int 1)]), ∅⟩

theorem other_caller_fails :
    ¬ FailIndependently (some textIndex) (reached (some textIndex) ⟨∅, ∅⟩ sameText) ∧
      ¬ FailIndependently unindexed (reached unindexed oneItem badFilter) := by
  constructor
  · intro h
    obtain ⟨e, he⟩ := h (0, .put (["docs"], "a") (some ⟨[("text", .str "same")], .default⟩))
      List.mem_cons_self ⟨.raised .countMismatch, rfl⟩
    cases he
  · intro h
    obtain ⟨e, he⟩ := h (0, .put (["docs"], "b") (some ⟨[("n", .int 2)], .default⟩))
      List.mem_cons_self ⟨.raised (.compare .valueError), rfl⟩
    cases he

end Failing

end InMemoryStore

end Store

end LangGraph

import LangGraph.Store.Batched
import LangGraph.Store.Filters
import LangGraph.Store.Namespaces

namespace LangGraph

open Collections

namespace Store

-- GetOp, SearchOp and ListNamespacesOp.
inductive ReadOp (F : Type) where
  | get (ns : Namespace) (key : String) (refreshTtl : Bool)
  | search (namespaceLeading : Namespace) (filter : List (String × Json F)) (limit offset : Nat)
      (query : String) (refreshTtl : Bool)
  | listNamespaces (conditions : List MatchCondition) (maxDepth : Option Nat) (limit offset : Nat)

inductive PutIndex where
  | default
  | off
  | paths (ps : List String)

structure PutValue (F : Type) where
  value : List (String × Json F)
  index : PutIndex

abbrev StoreKey := Namespace × String

abbrev StoreOp (F : Type) := Op (ReadOp F) StoreKey (PutValue F)

def ReadOp.equal {F : Type} [Floats F] : ReadOp F → ReadOp F → Bool
  | .get ns key r, .get ns' key' r' => ns = ns' && key = key' && r = r'
  | .search ns filter limit offset query r, .search ns' filter' limit' offset' query' r' =>
      ns = ns' && (Json.dict filter).equal (.dict filter') && limit = limit' &&
        offset = offset' && query = query' && r = r'
  | .listNamespaces cs depth limit offset, .listNamespaces cs' depth' limit' offset' =>
      cs.map (fun c => (c.matchType, c.path)) = cs'.map (fun c => (c.matchType, c.path)) &&
        depth = depth' && limit = limit' && offset = offset'
  | _, _ => false

instance {F : Type} [Floats F] : BEq (ReadOp F) := ⟨ReadOp.equal⟩

structure FoundItem (F : Type) where
  ns : Namespace
  key : String
  value : List (String × Json F)

inductive StoreResult (F : Type) where
  | none
  | item (i : Option (FoundItem F))
  | items (is : List (FoundItem F × Option F))
  | namespaces (ns : List Namespace)

inductive TextPath where
  | whole
  | tokenized (path : String)

-- The embeddings and the similarity are third-party code; `textAtPath` reads a stored value.
structure IndexConfig (F Vec X : Type) where
  fields : List String
  textAtPath : List (String × Json F) → TextPath → List String
  embedQuery : String → Except X Vec
  embedDocuments : List String → Except X (List Vec)
  cosineSimilarity : Vec → List Vec → Except X (List F)

inductive StoreError (X : Type) where
  | compare (e : CompareError)
  | countMismatch
  | raised (x : X)

structure InMemoryStore (F Vec : Type) where
  data : Dict Namespace (Dict String (List (String × Json F)))
  vectors : Dict StoreKey (Dict String Vec)

namespace InMemoryStore

variable {F Vec X : Type}

structure Candidate (F Vec : Type) where
  item : FoundItem F
  vectors : List Vec

section Search

variable [Floats F]

def underNamespace (namespaceLeading : Namespace) (s : InMemoryStore F Vec) :
    List (FoundItem F) :=
  (s.data.items.filter (fun d => namespaceLeading.isPrefixOf d.1)).flatMap (fun d =>
    d.2.items.map (fun i => ⟨d.1, i.1, i.2⟩))

def candidate (query : String) (s : InMemoryStore F Vec) (item : FoundItem F) :
    Candidate F Vec :=
  ⟨item, if query = "" then []
    else match s.vectors.get? (item.ns, item.key) with
      | some embeddings => embeddings.values
      | none => []⟩

def filterItems (namespaceLeading : Namespace) (filter : List (String × Json F)) (query : String)
    (s : InMemoryStore F Vec) : Except CompareError (List (Candidate F Vec)) :=
  (underNamespace namespaceLeading s).foldlM (fun filtered item =>
    match compareItems item.value filter with
    | .ok true => .ok (filtered ++ [candidate query s item])
    | .ok false => .ok filtered
    | .error e => .error e) []

def pool (offset limit : Nat) (seen : List StoreKey) :
    List (F × FoundItem F) → List (FoundItem F × Option F)
  | [] => []
  | (score, item) :: rest =>
      if (item.ns, item.key) ∈ seen then pool offset limit seen rest
      else if offset + limit ≤ seen.length then []
      else if seen.length < offset then pool offset limit ((item.ns, item.key) :: seen) rest
      else (item, some score) :: pool offset limit ((item.ns, item.key) :: seen) rest

def page (offset limit : Nat) (candidates : List (Candidate F Vec)) :
    List (FoundItem F × Option F) :=
  ((candidates.drop offset).take limit).map (fun c => (c.item, none))

def scored (offset limit : Nat) (candidates : List (Candidate F Vec)) (scores : List F) :
    List (FoundItem F × Option F) :=
  let flat := candidates.flatMap (fun c => c.vectors.map (fun _ => c.item))
  let sorted := (scores.zip flat).mergeSort (fun a b => !Floats.lt a.1 b.1)
  let kept := pool offset limit [] sorted
  let scoreless := candidates.filter (fun c => c.vectors.isEmpty)
  kept ++ (scoreless.take (limit - kept.length)).map (fun c => (c.item, none))

end Search

structure Prepared (F Vec : Type) where
  store : InMemoryStore F Vec
  results : List (StoreResult F)
  puts : Dict StoreKey (Option (PutValue F))
  searches : List (Nat × (Nat × Nat × String) × List (Candidate F Vec))
  error : Option CompareError

def touchNamespace (ns : Namespace) (s : InMemoryStore F Vec) : InMemoryStore F Vec :=
  if s.data.contains ns then s else { s with data := s.data.set ns ∅ }

def getItem (ns : Namespace) (key : String) (s : InMemoryStore F Vec) : Option (FoundItem F) :=
  ((s.data.getD ns ∅).get? key).map (fun v => ⟨ns, key, v⟩)

def handleListNamespaces (conditions : List MatchCondition) (maxDepth : Option Nat)
    (limit offset : Nat) (s : InMemoryStore F Vec) : List Namespace :=
  let namespaces := s.data.keys.filter (fun ns => conditions.all (fun c => doesMatch c ns))
  let truncated := match maxDepth with
    | some depth => (namespaces.map (List.take depth)).dedup
    | none => namespaces
  ((truncated.mergeSort (fun a b => decide (¬ b < a))).drop offset).take limit

section Batch

variable [Floats F]

def prepareOp (p : Prepared F Vec) (op : StoreOp F) : Prepared F Vec :=
  if p.error.isSome then p
  else
    match op with
    | .read (.get ns key _) => { p with
        store := touchNamespace ns p.store
        results := p.results ++ [.item (getItem ns key p.store)] }
    | .read (.search ns filter limit offset query _) =>
        match filterItems ns filter query p.store with
        | .ok candidates => { p with
            searches := p.searches ++ [(p.results.length, (offset, limit, query), candidates)]
            results := p.results ++ [.none] }
        | .error e => { p with error := some e }
    | .read (.listNamespaces conditions maxDepth limit offset) => { p with
        results := p.results ++
          [.namespaces (handleListNamespaces conditions maxDepth limit offset p.store)] }
    | .put key value => { p with
        puts := p.puts.set key value
        results := p.results ++ [.none] }

def prepareOps (ops : List (StoreOp F)) (s : InMemoryStore F Vec) : Prepared F Vec :=
  ops.foldl (prepareOp) ⟨s, [], ∅, [], none⟩

variable (index : Option (IndexConfig F Vec X))

def embedSearchQueries (queries : List String) : Except X (List (String × Vec)) :=
  match index with
  | none => .ok []
  | some config => queries.dedup.mapM (fun q => (config.embedQuery q).map (fun v => (q, v)))

def searchResult (embedded : List (String × Vec)) (offset limit : Nat) (query : String)
    (candidates : List (Candidate F Vec)) : Except X (StoreResult F) :=
  match index, Dict.lookup query embedded with
  | some config, some embedding =>
      if candidates.isEmpty ∨ query = "" then .ok (.items (page offset limit candidates))
      else
        (config.cosineSimilarity embedding (candidates.flatMap Candidate.vectors)).map
          (fun scores => .items (scored offset limit candidates scores))
  | _, _ => .ok (.items (page offset limit candidates))

def batchSearch (embedded : List (String × Vec)) (p : Prepared F Vec) :
    Except X (List (StoreResult F)) :=
  p.searches.foldlM (fun results s =>
    (searchResult index embedded s.2.1.1 s.2.1.2.1 s.2.1.2.2 s.2.2).map
      (fun r => results.set s.1 r)) p.results

def indexedPaths (config : IndexConfig F Vec X) : PutIndex → List (String × TextPath)
  | .default => config.fields.map (fun p => (p, if p = "$" then .whole else .tokenized p))
  | .off => []
  | .paths ps => ps.map (fun p => (p, .tokenized p))

-- The texts to embed, each with the entries it stands for.
def extractTexts (puts : Dict StoreKey (Option (PutValue F))) :
    Dict String (List (StoreKey × String)) :=
  match index with
  | none => ∅
  | some config =>
      let found := puts.items.flatMap (fun p =>
        match p.2 with
        | none => []
        | some put => (indexedPaths config put.index).flatMap (fun path =>
            let texts := config.textAtPath put.value path.2
            if 1 < texts.length then
              texts.zipIdx.map (fun t => (t.1, p.1, path.1 ++ "." ++ toString t.2))
            else texts.map (fun t => (t, p.1, path.1))))
      found.foldl (fun toEmbed f => toEmbed.set f.1 (toEmbed.getD f.1 [] ++ [f.2])) ∅

def insertVectors (toEmbed : Dict String (List (StoreKey × String))) (embeddings : List Vec)
    (s : InMemoryStore F Vec) : InMemoryStore F Vec :=
  { s with vectors := (embeddings.zip toEmbed.values.flatten).foldl (fun vectors e =>
      vectors.set e.2.1 ((vectors.getD e.2.1 ∅).set e.2.2 e.1)) s.vectors }

def embedPuts (toEmbed : Dict String (List (StoreKey × String))) (s : InMemoryStore F Vec) :
    Except (StoreError X) (InMemoryStore F Vec) :=
  match index with
  | none => .ok s
  | some config =>
      if toEmbed.items.isEmpty then .ok s
      else
        match config.embedDocuments toEmbed.keys with
        | .error x => .error (.raised x)
        | .ok embeddings =>
            if toEmbed.values.flatten.length ≠ embeddings.length then .error .countMismatch
            else .ok (insertVectors toEmbed embeddings s)

def applyPut (s : InMemoryStore F Vec) (put : StoreKey × Option (PutValue F)) :
    InMemoryStore F Vec :=
  let items := s.data.getD put.1.1 ∅
  match put.2 with
  | none =>
      { data := s.data.set put.1.1 (items.filter (fun k _ => k ≠ put.1.2))
        vectors := s.vectors.filter (fun k _ => k ≠ put.1) }
  | some value => { s with data := s.data.set put.1.1 (items.set put.1.2 value.value) }

def applyPutOps (puts : Dict StoreKey (Option (PutValue F))) (s : InMemoryStore F Vec) :
    InMemoryStore F Vec :=
  puts.items.foldl applyPut s

def abatch (ops : List (StoreOp F)) (s : InMemoryStore F Vec) :
    Except (StoreError X) (List (StoreResult F)) × InMemoryStore F Vec :=
  let p := prepareOps ops s
  match p.error with
  | some e => (.error (.compare e), p.store)
  | none =>
      let queries := p.searches.filterMap (fun s =>
        if s.2.1.2.2 = "" then none else some s.2.1.2.2)
      match embedSearchQueries index queries with
      | .error x => (.error (.raised x), p.store)
      | .ok embedded =>
          match batchSearch index embedded p with
          | .error x => (.error (.raised x), p.store)
          | .ok results =>
              match embedPuts index (extractTexts index p.puts) p.store with
              | .error e => (.error e, p.store)
              | .ok store => (.ok results, applyPutOps p.puts store)

end Batch

end InMemoryStore

end Store

end LangGraph

import LangGraph.Collections.NewestFirst
import LangGraph.Serde.JsonText
import LangGraph.Store.SqliteFilters

namespace LangGraph

open Collections Store

namespace Listing

structure StoredCheckpoint (F : Type) where
  parent : Option String
  metadata : List (String × Json F)

-- A listed checkpoint, and a row of the `checkpoints` table.
structure Row (F : Type) where
  threadId : String
  checkpointNs : String
  checkpointId : String
  stored : StoredCheckpoint F

structure Config where
  threadId : String
  checkpointNs : Option String
  checkpointId : Option String

-- No filter and an empty one are the same; `before` is a config with or without an id.
structure Query (F : Type) where
  config : Option Config
  filter : List (String × Json F)
  before : Option (Option String)

def truthy (id : Option String) : Option String := id.filter (fun s => s ≠ "")

section Memory

variable {F : Type} [Floats F]

abbrev MemoryStorage (F : Type) := Dict String (Dict String (Dict String (StoredCheckpoint F)))

namespace InMemorySaver

-- The namespaces of the two outer loops, in the order of the loops.
def namespaces (q : Query F) (storage : MemoryStorage F) :
    List (String × String × Dict String (StoredCheckpoint F)) :=
  let threads := match q.config with
    | some config => [(config.threadId, storage.getD config.threadId ∅)]
    | none => storage.items
  threads.flatMap (fun t => t.2.items.map (fun n => (t.1, n.1, n.2)))

def metadataMatches (filter : List (String × Json F)) (metadata : List (String × Json F)) :
    Bool :=
  filter.all (fun f => f.2.equal (Json.get metadata f.1))

def matchesNamespace (q : Query F) (checkpointNs : String) : Bool :=
  match q.config.bind Config.checkpointNs with
  | some ns => checkpointNs = ns
  | none => true

def matchesId (q : Query F) (checkpointId : String) : Bool :=
  match truthy (q.config.bind Config.checkpointId) with
  | some id => checkpointId = id
  | none => true

def matchesBefore (q : Query F) (checkpointId : String) : Bool :=
  match truthy q.before.join with
  | some id => checkpointId < id
  | none => true

def matchesCheckpoint (q : Query F) (checkpointId : String) (stored : StoredCheckpoint F) :
    Bool :=
  matchesId q checkpointId && matchesBefore q checkpointId &&
    metadataMatches q.filter stored.metadata

-- The innermost loop, which a spent limit breaks.
def visit (q : Query F) (threadId checkpointNs : String) :
    Option Int → List (String × StoredCheckpoint F) → List (Row F) × Option Int
  | limit, [] => ([], limit)
  | limit, (id, stored) :: rest =>
      if !matchesCheckpoint q id stored then visit q threadId checkpointNs limit rest
      else
        match limit with
        | none =>
            (⟨threadId, checkpointNs, id, stored⟩ ::
              (visit q threadId checkpointNs none rest).1, none)
        | some n =>
            if n ≤ 0 then ([], some n)
            else
              let later := visit q threadId checkpointNs (some (n - 1)) rest
              (⟨threadId, checkpointNs, id, stored⟩ :: later.1, later.2)

def visitNamespaces (q : Query F) :
    Option Int → List (String × String × Dict String (StoredCheckpoint F)) → List (Row F)
  | _, [] => []
  | limit, (threadId, checkpointNs, checkpoints) :: rest =>
      if !matchesNamespace q checkpointNs then visitNamespaces q limit rest
      else
        let found := visit q threadId checkpointNs limit (descending Prod.fst checkpoints.items)
        found.1 ++ visitNamespaces q found.2 rest

def list (q : Query F) (limit : Option Int) (storage : MemoryStorage F) : List (Row F) :=
  visitNamespaces q limit (namespaces q storage)

end InMemorySaver

end Memory

section Sqlite

-- `repr` is `float.__repr__`.
variable {F : Type} [SqliteFloats F] (repr : F → String)

namespace SqliteSaver

open SqliteStore

inductive ListError where
  | invalidKey
  | overflow
  deriving DecidableEq

def bindInt (n : Int) : Except ListError (SqlValue F) :=
  if -2 ^ 63 ≤ n ∧ n < 2 ^ 63 then .ok (.integer n) else .error .overflow

-- A bool is an int here, bound as 0 or 1.
def whereValue (key : String) (queryValue : Json F) : Except ListError (Condition F) :=
  match queryValue with
  | .null => .ok (.isNull key)
  | .str s => .ok (.compare key .eq (.text s))
  | .bool b => (bindInt (if b then 1 else 0)).map (.compare key .eq)
  | .int n => (bindInt n).map (.compare key .eq)
  | .float x => .ok (.compare key .eq (bindReal x))
  | .list _ | .dict _ => .ok (.compare key .eq (.text (jsonDumps repr true queryValue)))

def metadataPredicate :
    List (String × Json F) → Except ListError (List (Condition F))
  | [] => .ok []
  | (key, queryValue) :: rest =>
      if !isFilterKey key then .error .invalidKey
      else
        match whereValue repr key queryValue with
        | .error e => .error e
        | .ok c => (metadataPredicate rest).map (c :: ·)

-- Of a stored list or dict `json_extract` gives the text that `json.dumps` stored, minified.
def metadataText (v : Json F) : Except FilterError String := .ok (jsonDumps repr false v)

def selectsConfig (q : Query F) (r : Row F) : Bool :=
  match q.config with
  | none => true
  | some config =>
      r.threadId = config.threadId &&
      (match config.checkpointNs with
        | some ns => r.checkpointNs = ns
        | none => true) &&
      (match truthy config.checkpointId with
        | some id => r.checkpointId = id
        | none => true)

def selectsBefore (q : Query F) (r : Row F) : Bool :=
  match q.before with
  | none => true
  | some none => false
  | some (some id) => r.checkpointId < id

def searchWhere (q : Query F) (conditions : List (Condition F)) (r : Row F) : Bool :=
  selectsConfig q r && conditions.all (holds (metadataText repr) r.stored.metadata) &&
    selectsBefore q r

def takeLimit (limit : Option Int) (rows : List (Row F)) : List (Row F) :=
  match limit with
  | none => rows
  | some n => if n < 0 then rows else rows.take n.toNat

-- The order of rows with one checkpoint id is SQLite's own.
def Lists (q : Query F) (limit : Option Int) (rows : List (Row F)) (result : List (Row F)) :
    Prop :=
  ∃ conditions, metadataPredicate repr q.filter = .ok conditions ∧
    ∃ ordered : List (Row F), ordered.Perm (rows.filter (searchWhere repr q conditions)) ∧
      Descends Row.checkpointId ordered ∧ result = takeLimit limit ordered

end SqliteSaver

end Sqlite

end Listing

end LangGraph

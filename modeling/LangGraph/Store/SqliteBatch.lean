import LangGraph.Collections.Upsert
import LangGraph.Store.Namespaces
import Mathlib.Logic.Function.Basic

namespace LangGraph

open Collections

namespace Store

namespace SqliteStore

-- A text of the namespace and a key; a vector has a field name too.
abbrev RowKey := String × String

abbrev VectorKey := String × String × String

structure Row (V T M : Type) where
  value : V
  createdAt : T
  updatedAt : T
  expiresAt : Option T
  ttlMinutes : Option M

structure VectorRow (Vec T : Type) where
  embedding : Vec
  createdAt : T
  updatedAt : T

structure Content (V T M Vec : Type) where
  rows : RowKey → Option (Row V T M)
  vectors : VectorKey → Option (VectorRow Vec T)

inductive RowWrite (V T M : Type) where
  | refresh (now : T)
  | delete
  | insert (row : Row V T M)

inductive SqlOp (V I M Q : Type) where
  | get (ns : Namespace) (key : String) (refreshTtl : Bool)
  | search (op : Q) (refreshTtl : Bool)
  | listNamespaces
  | put (ns : Namespace) (key : String) (value : Option V) (index : I) (ttl : Option M)

inductive Statement (V T M Vec : Type) where
  | select
  | refresh (ns : String) (keys : List String)
  | delete (ns : String) (keys : List String)
  | insert (values : List (RowKey × V × Option T × Option M))
  | insertVectors (values : List (VectorKey × Vec))

inductive BatchFailure where
  | begin
  | statement (n : Nat)
  | load (n : Nat)
  | prepareSearch
  | embedQueries
  | preparePut
  | embedDocuments
  | commit
  deriving DecidableEq

-- What SQLite does with the transaction when a statement fails.
inductive Undo where
  | statement
  | transaction
  deriving DecidableEq

structure Engine (V I T M Vec Q : Type) where
  refreshOnRead : Bool
  clock : Nat → T
  refreshedExpiry : T → M → T
  insertedExpiry : M → T
  found : Q → Content V T M Vec → List RowKey
  embedsQuery : Q → Bool
  texts : V → I → List (String × String)
  embedDocuments : List String → List Vec
  fails : Nat → Option Undo
  raises : BatchFailure → Bool
  commitFails : Option Undo

structure FirstFailure where
  error : BatchFailure
  logged : Bool
  undo : Undo

structure Session (V T M Vec : Type) where
  content : Content V T M Vec
  saved : Content V T M Vec
  active : Bool
  executed : Nat
  error : Option BatchFailure
  first : Option FirstFailure
  log : List (RowKey × RowWrite V T M)
  vectorLog : List (VectorKey × VectorRow Vec T)

section Writes

variable {V I T M Vec Q : Type} (db : Engine V I T M Vec Q)

def RowWrite.apply (held : Option (Row V T M)) : RowWrite V T M → Option (Row V T M)
  | .refresh now => held.map (fun row =>
      match row.ttlMinutes with
      | some ttl => { row with expiresAt := some (db.refreshedExpiry now ttl) }
      | none => row)
  | .delete => none
  | .insert row => some row

def applyRow (rows : RowKey → Option (Row V T M)) (w : RowKey × RowWrite V T M) :
    RowKey → Option (Row V T M) :=
  Function.update rows w.1 (w.2.apply db (rows w.1))

def applyVector (vectors : VectorKey → Option (VectorRow Vec T))
    (w : VectorKey × VectorRow Vec T) : VectorKey → Option (VectorRow Vec T) :=
  Function.update vectors w.1 (some w.2)

def Statement.writes (now : T) : Statement V T M Vec → List (RowKey × RowWrite V T M)
  | .refresh ns keys => keys.map (fun k => ((ns, k), .refresh now))
  | .delete ns keys => keys.map (fun k => ((ns, k), .delete))
  | .insert values => values.map (fun v => (v.1, .insert ⟨v.2.1, now, now, v.2.2.1, v.2.2.2⟩))
  | _ => []

def Statement.vectors (now : T) : Statement V T M Vec → List (VectorKey × VectorRow Vec T)
  | .insertVectors values => values.map (fun v => (v.1, ⟨v.2, now, now⟩))
  | _ => []

def Content.after (c : Content V T M Vec) (log : List (RowKey × RowWrite V T M))
    (vectorLog : List (VectorKey × VectorRow Vec T)) : Content V T M Vec :=
  ⟨log.foldl (applyRow db) c.rows, vectorLog.foldl applyVector c.vectors⟩

end Writes

section Execution

variable {V I T M Vec Q : Type} (db : Engine V I T M Vec Q)

def execute (logged : Bool) (st : Statement V T M Vec) (s : Session V T M Vec) :
    Session V T M Vec :=
  if s.error.isSome then s
  else
    match db.fails s.executed with
    | none => { s with
        content := s.content.after db (st.writes (db.clock s.executed))
          (st.vectors (db.clock s.executed))
        log := s.log ++ st.writes (db.clock s.executed)
        vectorLog := s.vectorLog ++ st.vectors (db.clock s.executed)
        executed := s.executed + 1 }
    | some undo => { s with
        content := if undo = .transaction ∧ s.active = true then s.saved else s.content
        active := s.active && undo ≠ .transaction
        first := s.first.or (some ⟨.statement s.executed, logged, undo⟩)
        error := if logged then none else some (.statement s.executed)
        executed := s.executed + 1 }

def check (e : BatchFailure) (s : Session V T M Vec) : Session V T M Vec :=
  if s.error.isSome then s
  else if db.raises e then { s with
    error := some e
    first := s.first.or (some ⟨e, false, .statement⟩) }
  else s

def groupBy {ν κ : Type} [DecidableEq ν] (items : List (ν × κ)) : List (ν × List κ) :=
  (items.foldl (fun d i => d.set i.1 (d.getD i.1 [] ++ [i.2])) (∅ : Dict ν (List κ))).items

def getGroup (group : Namespace × List (String × Bool)) (s : Session V T M Vec) :
    Session V T M Vec :=
  let keys := group.2.map Prod.fst
  let refreshed :=
    if group.2.any Prod.snd && db.refreshOnRead then
      execute db false (.refresh (namespaceToText false group.1) keys) s
    else s
  check db (.load refreshed.executed) (execute db false .select refreshed)

def batchGetOps (gets : List (Namespace × String × Bool)) (s : Session V T M Vec) :
    Session V T M Vec :=
  (groupBy gets).foldl (fun s g => getGroup db g s) s

def searchOne (op : Q × Bool) (s : Session V T M Vec) : Session V T M Vec :=
  let selected := execute db false .select s
  let refreshed :=
    if op.2 && db.refreshOnRead && selected.error.isNone then
      (groupBy (db.found op.1 s.content)).foldl
        (fun s g => execute db true (.refresh g.1 g.2) s) selected
    else selected
  check db (.load s.executed) refreshed

def batchSearchOps (searches : List (Q × Bool)) (s : Session V T M Vec) : Session V T M Vec :=
  let prepared := check db .prepareSearch s
  let embedded :=
    if searches.any (fun op => db.embedsQuery op.1) then check db .embedQueries prepared
    else prepared
  searches.foldl (fun s op => searchOne db op s) embedded

def batchListNamespacesOps (n : Nat) (s : Session V T M Vec) : Session V T M Vec :=
  (List.replicate n ()).foldl (fun s _ => execute db false .select s) s

structure Insert (V I M : Type) where
  ns : Namespace
  key : String
  value : V
  index : I
  ttl : Option M

structure Put (V I M : Type) where
  value : Option V
  index : I
  ttl : Option M

def inserted (puts : Dict (Namespace × String) (Put V I M)) : List (Insert V I M) :=
  puts.items.filterMap (fun p => p.2.value.map (fun v => ⟨p.1.1, p.1.2, v, p.2.index, p.2.ttl⟩))

def deleted (puts : Dict (Namespace × String) (Put V I M)) : List (Namespace × String) :=
  puts.items.filterMap (fun p => if p.2.value.isNone then some p.1 else none)

def vectorTexts (inserts : List (Insert V I M)) : List (VectorKey × String) :=
  inserts.flatMap (fun i => (db.texts i.value i.index).map (fun t =>
    ((namespaceToText false i.ns, i.key, t.1), t.2)))

def putStatements (puts : Dict (Namespace × String) (Put V I M)) :
    List (Statement V T M Vec) :=
  (groupBy (deleted puts)).map (fun g => .delete (namespaceToText false g.1) g.2) ++
    (if (inserted puts).isEmpty then []
    else [.insert ((inserted puts).map (fun i =>
      ((namespaceToText false i.ns, i.key), i.value, i.ttl.map db.insertedExpiry, i.ttl)))]) ++
    if (vectorTexts db (inserted puts)).isEmpty then []
    else [.insertVectors (((vectorTexts db (inserted puts)).map Prod.fst).zip
      (db.embedDocuments ((vectorTexts db (inserted puts)).map Prod.snd)))]

def batchPutOps (puts : Dict (Namespace × String) (Put V I M)) (s : Session V T M Vec) :
    Session V T M Vec :=
  let prepared := check db .preparePut s
  let embedded :=
    if (vectorTexts db (inserted puts)).isEmpty then prepared
    else check db .embedDocuments prepared
  (putStatements db puts).foldl (fun s st => execute db false st s) embedded

end Execution

section Batch

variable {V I T M Vec Q : Type} (db : Engine V I T M Vec Q)

def getsOf (ops : List (SqlOp V I M Q)) : List (Namespace × String × Bool) :=
  ops.filterMap (fun op =>
    match op with
    | .get ns key refreshTtl => some (ns, key, refreshTtl)
    | _ => none)

def searchesOf (ops : List (SqlOp V I M Q)) : List (Q × Bool) :=
  ops.filterMap (fun op =>
    match op with
    | .search q refreshTtl => some (q, refreshTtl)
    | _ => none)

def listsOf (ops : List (SqlOp V I M Q)) : Nat :=
  ops.countP (fun op =>
    match op with
    | .listNamespaces => true
    | _ => false)

def putsOf (ops : List (SqlOp V I M Q)) : Dict (Namespace × String) (Put V I M) :=
  Dict.ofList (ops.filterMap (fun op =>
    match op with
    | .put ns key value index ttl => some ((ns, key), ⟨value, index, ttl⟩)
    | _ => none))

def begun (content : Content V T M Vec) : Session V T M Vec :=
  ⟨content, content, true, 0, none, none, [], []⟩

def reads (ops : List (SqlOp V I M Q)) (content : Content V T M Vec) : Session V T M Vec :=
  let gets := if (getsOf ops).isEmpty then begun content
    else batchGetOps db (getsOf ops) (begun content)
  let searched := if (searchesOf ops).isEmpty then gets
    else batchSearchOps db (searchesOf ops) gets
  batchListNamespacesOps db (listsOf ops) searched

def body (ops : List (SqlOp V I M Q)) (content : Content V T M Vec) : Session V T M Vec :=
  if (putsOf ops).items.isEmpty then reads db ops content
  else batchPutOps db (putsOf ops) (reads db ops content)

structure BatchOutcome (V T M Vec : Type) where
  content : Content V T M Vec
  raised : Option BatchFailure
  firstFailure : Option BatchFailure

def commit (s : Session V T M Vec) : BatchOutcome V T M Vec :=
  let failed : Option BatchFailure := (s.first.map FirstFailure.error).or (some .commit)
  if s.active then
    match db.commitFails with
    | none => ⟨s.content, s.error, s.first.map FirstFailure.error⟩
    | some .statement => ⟨s.content, some .commit, failed⟩
    | some .transaction => ⟨s.saved, some .commit, failed⟩
  else ⟨s.content, some .commit, failed⟩

def batch (ops : List (SqlOp V I M Q)) (content : Content V T M Vec) : BatchOutcome V T M Vec :=
  if db.raises .begin then ⟨content, some .begin, some .begin⟩
  else commit db (body db ops content)

end Batch

end SqliteStore

end Store

end LangGraph

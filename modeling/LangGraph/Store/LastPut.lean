import LangGraph.Store.Vectors

namespace LangGraph

open Collections Transition

namespace Store

namespace InMemoryStore

variable {F Vec X : Type} [Floats F] (index : Option (IndexConfig F Vec X))

-- What the batches that do not raise ask for, one after the other.
def effective (s : InMemoryStore F Vec) : List (List (StoreOp F)) → List (StoreOp F)
  | [] => []
  | ops :: batches =>
      (match (abatch index ops s).1 with
        | .ok _ => ops
        | .error _ => []) ++ effective (abatch index ops s).2 batches

theorem abatch_get (ns : Namespace) (key : String) (refreshTtl : Bool) (s : InMemoryStore F Vec) :
    (abatch index [.read (.get ns key refreshTtl)] s).1 = .ok [.item (getItem ns key s)] := by
  cases index with
  | none => rfl
  | some config => rfl

theorem cell_data_abatch (ops : List (StoreOp F)) (s : InMemoryStore F Vec) (key : StoreKey) :
    (abatch index ops s).2.data.cell key.1 key.2 =
      ((lastOf key (Op.puts (match (abatch index ops s).1 with
        | .ok _ => ops
        | .error _ => []))).map (Option.map PutValue.value)).getD (s.data.cell key.1 key.2) := by
  by_cases hruns : Runs index ops s
  · obtain ⟨results, hok, -⟩ := abatch_ok index hruns
    have hlast : (lastPuts ops).get? key = lastOf key (Op.puts ops) :=
      (Dict.get?_update _ _ _).trans Option.or_none
    rw [hok, abatch_data hruns, hlast]
    cases lastOf key (Op.puts ops) <;> rfl
  · obtain ⟨⟨e, he⟩, hstore⟩ := abatch_failed hruns
    rw [he, hstore, (prepareOps_content ops s).1]
    rfl

theorem cell_data_run (batches : List (List (StoreOp F))) (s : InMemoryStore F Vec)
    (key : StoreKey) :
    (run (fun s ops => (abatch index ops s).2) s batches).data.cell key.1 key.2 =
      ((lastOf key (Op.puts (effective index s batches))).map (Option.map PutValue.value)).getD
        (s.data.cell key.1 key.2) := by
  induction batches generalizing s with
  | nil => rfl
  | cons ops batches ih =>
    rw [run_cons, ih, cell_data_abatch, effective, Op.puts_append, lastOf, lastOf, lastOf,
      List.reverse_append, Dict.firstOf_append]
    cases firstOf key (Op.puts (effective index (abatch index ops s).2 batches)).reverse <;> rfl

-- After any batches, some of which may raise, a get finds the last put of those that did not.
theorem get_after_batches (batches : List (List (StoreOp F))) (ns : Namespace) (key : String)
    (refreshTtl : Bool) :
    (abatch index [.read (.get ns key refreshTtl)]
        (run (fun s ops => (abatch index ops s).2) (⟨∅, ∅⟩ : InMemoryStore F Vec) batches)).1 =
      .ok [.item ((lastOf (ns, key) (Op.puts (effective index ⟨∅, ∅⟩ batches))).bind
        (Option.map (fun put => ⟨ns, key, put.value⟩)))] := by
  have hitem := cell_data_run index batches (⟨∅, ∅⟩ : InMemoryStore F Vec) (ns, key)
  rw [abatch_get, getItem]
  refine congrArg (fun i => Except.ok [StoreResult.item i]) ?_
  refine (congrArg (Option.map _) hitem).trans ?_
  cases lastOf (ns, key) (Op.puts (effective index ⟨∅, ∅⟩ batches)) with
  | none => rfl
  | some put => cases put <;> rfl

end InMemoryStore

end Store

end LangGraph

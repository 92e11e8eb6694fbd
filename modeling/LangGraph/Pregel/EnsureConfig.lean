import LangGraph.Collections.Dict
import LangGraph.Value

namespace LangGraph

open Collections

namespace Value

-- `_is_not_empty`.
def isNotEmpty : Value → Bool
  | .list xs => !xs.isEmpty
  | .dict items => !items.isEmpty
  | .scalar .none => false
  | _ => true

-- `bool(value)`; `objTruth` is what an object's own `__bool__` answers.
def truthy (objTruth : Nat → Bool) : Value → Bool
  | .scalar .none => false
  | .scalar (.bool b) => b
  | .scalar (.int n) => n ≠ 0
  | .scalar (.str s) => s ≠ ""
  | .scalar (.obj id) => objTruth id
  | .list xs => !xs.isEmpty
  | .dict items => !items.isEmpty
  | .send _ _ => true
  | .overwrite _ => true

end Value

inductive Callbacks (H M : Type) where
  | handlers (hs : List H)
  | manager (m : M)

-- The methods of BaseCallbackManager.
structure ManagerMethods (H M : Type) where
  addHandler : M → H → M
  merge : M → M → M

-- `settings` holds run_name, max_concurrency, recursion_limit and run_id, `others` the keys that
-- are none of CONFIG_KEYS.
structure RunnableConfig (H M : Type) where
  tags : Option (List String)
  metadata : Option (Dict String Value)
  callbacks : Option (Callbacks H M)
  configurable : Option (Dict String Value)
  settings : Dict String Value
  others : Dict String Value

structure EnsuredConfig (H M : Type) where
  tags : List String
  metadata : Dict String Value
  callbacks : Option (Callbacks H M)
  configurable : Dict String Value
  settings : Dict String Value
  others : Dict String Value

def checkpointCoordinateKeys : List String :=
  ["thread_id", "checkpoint_ns", "checkpoint_id", "checkpoint_map"]

def propagateToMetadata : List String :=
  ["thread_id", "checkpoint_id", "checkpoint_ns", "task_id", "run_id", "assistant_id", "graph_id"]

namespace RunnableConfig

variable {H M : Type}

def filled {α : Type} (l : Option (List α)) : Option (List α) := l.filter (fun l => !l.isEmpty)

def filledDict (d : Option (Dict String Value)) : Option (Dict String Value) :=
  d.filter (fun d => !d.items.isEmpty)

def filledEntries (d : Dict String Value) : Dict String Value :=
  d.filter (fun _ v => v.isNotEmpty)

def filledCallbacks : Option (Callbacks H M) → Option (Callbacks H M)
  | some (.handlers []) => none
  | callbacks => callbacks

def mergeCallbacks (methods : ManagerMethods H M) :
    Option (Callbacks H M) → Option (Callbacks H M) → Option (Callbacks H M)
  | base, none => base
  | none, some new => some new
  | some (.handlers base), some (.handlers new) => some (.handlers (base ++ new))
  | some (.manager base), some (.handlers new) =>
      some (.manager (new.foldl methods.addHandler base))
  | some (.handlers base), some (.manager new) =>
      some (.manager (base.foldl methods.addHandler new))
  | some (.manager base), some (.manager new) => some (.manager (methods.merge base new))

def mergeVersions : Option Value → Value → Value
  | some (.dict merged), .dict value => .dict ((Dict.ofList merged).update value).items
  | _, value => value

def mergeMetadata (base new : Dict String Value) : Dict String Value :=
  new.items.foldl (fun merged e =>
    merged.set e.1 (if e.1 = "lc_versions" then mergeVersions (merged.get? e.1) e.2 else e.2)) base

def emptyConfig (defaultRecursionLimit : Int) : EnsuredConfig H M where
  tags := []
  metadata := ∅
  callbacks := none
  configurable := ∅
  settings := (∅ : Dict String Value).set "recursion_limit" (.int defaultRecursionLimit)
  others := ∅

def inheritAmbient (empty : EnsuredConfig H M) : Option (RunnableConfig H M) → EnsuredConfig H M
  | none => empty
  | some var =>
      { tags := (filled var.tags).getD empty.tags
        metadata := (filledDict var.metadata).getD empty.metadata
        callbacks := (filledCallbacks var.callbacks).or empty.callbacks
        configurable := (filledDict var.configurable).getD empty.configurable
        settings := empty.settings.update (filledEntries var.settings).items
        others := empty.others.update (filledEntries var.others).items }

def suppliesCoordinate (config : RunnableConfig H M) : Bool :=
  checkpointCoordinateKeys.any (fun k =>
    ((config.configurable.getD ∅).get? k).any Value.isNotEmpty)

def resetAmbient (configs : List (RunnableConfig H M)) (empty : EnsuredConfig H M) :
    EnsuredConfig H M :=
  if !empty.configurable.items.isEmpty && configs.any suppliesCoordinate then
    { empty with configurable := ∅ }
  else empty

def mergeConfigurable (existing v : Dict String Value) : Dict String Value :=
  if existing.items.isEmpty then v else existing.update v.items

def mergeConfig (methods : ManagerMethods H M) (empty : EnsuredConfig H M)
    (config : RunnableConfig H M) : EnsuredConfig H M where
  tags :=
    match filled config.tags with
    | none => empty.tags
    | some tags => if empty.tags.isEmpty then tags else empty.tags ++ tags
  metadata :=
    match filledDict config.metadata with
    | none => empty.metadata
    | some metadata => mergeMetadata empty.metadata metadata
  callbacks :=
    match filledCallbacks config.callbacks with
    | none => empty.callbacks
    | some callbacks => mergeCallbacks methods empty.callbacks (some callbacks)
  configurable :=
    (match filledDict config.configurable with
      | none => empty.configurable
      | some configurable => mergeConfigurable empty.configurable configurable).update
        (filledEntries config.others).items
  settings := empty.settings.update (filledEntries config.settings).items
  others := empty.others

def propagate (objTruth : Nat → Bool) (empty : EnsuredConfig H M) : EnsuredConfig H M :=
  if empty.configurable.items.isEmpty then empty
  else
    { empty with
      metadata := propagateToMetadata.foldl (fun metadata key =>
        if metadata.contains key then metadata
        else
          match empty.configurable.get? key with
          | none => metadata
          | some value =>
              if value.truthy objTruth then metadata.set key value else metadata) empty.metadata }

end RunnableConfig

open RunnableConfig

section Ensure

variable {H M : Type} (methods : ManagerMethods H M) (defaultRecursionLimit : Int)
  (objTruth : Nat → Bool) (var : Option (RunnableConfig H M))

def mergedConfig (configs : List (RunnableConfig H M)) : EnsuredConfig H M :=
  configs.foldl (mergeConfig methods)
    (resetAmbient configs (inheritAmbient (emptyConfig defaultRecursionLimit) var))

def ensureConfig (configs : List (Option (RunnableConfig H M))) : EnsuredConfig H M :=
  propagate objTruth (mergedConfig methods defaultRecursionLimit var configs.reduceOption)

end Ensure

namespace RunnableConfig

section Entries

variable {H M : Type} {methods : ManagerMethods H M}

def entry (config : RunnableConfig H M) (k : String) : Option Value :=
  ((filledEntries config.others).get? k).or ((config.configurable.getD ∅).get? k)

def metadataEntry (config : RunnableConfig H M) (k : String) : Option Value :=
  (config.metadata.getD ∅).get? k

-- The last config that has an entry for the key decides.
def explicitly (configs : List (RunnableConfig H M)) (k : String) : Option Value :=
  configs.reverse.findSome? (fun c => c.entry k)

def explicitMetadata (configs : List (RunnableConfig H M)) (k : String) : Option Value :=
  configs.reverse.findSome? (fun c => c.metadataEntry k)

theorem items_eq_nil {d : Dict String Value} (h : d.items.isEmpty = true) : d = ∅ :=
  Dict.ext_items (List.isEmpty_iff.mp h)

theorem get?_filledDict (d : Option (Dict String Value)) (k : String) :
    ((filledDict d).getD ∅).get? k = (d.getD ∅).get? k := by
  cases d with
  | none => rfl
  | some d =>
    cases hempty : d.items.isEmpty with
    | true =>
      obtain rfl := items_eq_nil hempty
      rfl
    | false =>
      have hfilled : filledDict (some d) = some d :=
        Option.filter_eq_some_iff.mpr ⟨rfl, by rw [hempty]; rfl⟩
      rw [hfilled]

theorem get?_mergeConfigurable (existing v : Dict String Value) (k : String) :
    (mergeConfigurable existing v).get? k = (v.get? k).or (existing.get? k) := by
  rw [mergeConfigurable]
  split
  · rename_i hempty
    have hnone : (∅ : Dict String Value).get? k = none := rfl
    rw [items_eq_nil hempty, hnone, Option.or_none]
  · exact Dict.get?_update_items existing v k

theorem configurable_mergeConfig (empty : EnsuredConfig H M) (config : RunnableConfig H M)
    (k : String) : (mergeConfig methods empty config).configurable.get? k =
      (config.entry k).or (empty.configurable.get? k) := by
  rw [mergeConfig, Dict.get?_update_items, entry, ← get?_filledDict config.configurable,
    Option.or_assoc]
  congr 1
  cases filledDict config.configurable with
  | none => rfl
  | some v => exact get?_mergeConfigurable empty.configurable v k

theorem get?_mergeMetadata (base new : Dict String Value) {k : String} (hk : k ≠ "lc_versions") :
    (mergeMetadata base new).get? k = (new.get? k).or (base.get? k) := by
  have hfold (l : List (String × Value)) (base : Dict String Value) :
      (l.foldl (fun merged e => merged.set e.1 (if e.1 = "lc_versions" then
        mergeVersions (merged.get? e.1) e.2 else e.2)) base).get? k = (base.update l).get? k := by
    induction l generalizing base with
    | nil => rfl
    | cons e l ih =>
      have hcons : base.update (e :: l) = (base.set e.1 e.2).update l := rfl
      rw [List.foldl_cons, ih, hcons, Dict.get?_update, Dict.get?_update, Dict.get?_set,
        Dict.get?_set]
      by_cases hkey : k = e.1
      · rw [if_neg (fun h => hk (hkey.trans h))]
      · rw [if_neg hkey, if_neg hkey]
  rw [mergeMetadata, hfold, Dict.get?_update_items]

theorem metadata_mergeConfig (empty : EnsuredConfig H M) (config : RunnableConfig H M)
    {k : String} (hk : k ≠ "lc_versions") : (mergeConfig methods empty config).metadata.get? k =
      (config.metadataEntry k).or (empty.metadata.get? k) := by
  rw [mergeConfig, metadataEntry, ← get?_filledDict config.metadata]
  cases filledDict config.metadata with
  | none => rfl
  | some v => exact get?_mergeMetadata empty.metadata v hk

theorem findSome?_reverse_cons {α β : Type} (f : α → Option β) (a : α) (l : List α) :
    (a :: l).reverse.findSome? f = (l.reverse.findSome? f).or (f a) := by
  rw [List.reverse_cons, List.findSome?_append, List.findSome?_singleton]

theorem configurable_merged (configs : List (RunnableConfig H M)) (empty : EnsuredConfig H M)
    (k : String) : (configs.foldl (mergeConfig methods) empty).configurable.get? k =
      (explicitly configs k).or (empty.configurable.get? k) := by
  induction configs generalizing empty with
  | nil => rfl
  | cons config configs ih =>
    rw [List.foldl_cons, ih, configurable_mergeConfig, explicitly, explicitly,
      findSome?_reverse_cons, Option.or_assoc]

theorem metadata_merged (configs : List (RunnableConfig H M)) (empty : EnsuredConfig H M)
    {k : String} (hk : k ≠ "lc_versions") :
    (configs.foldl (mergeConfig methods) empty).metadata.get? k =
      (explicitMetadata configs k).or (empty.metadata.get? k) := by
  induction configs generalizing empty with
  | nil => rfl
  | cons config configs ih =>
    rw [List.foldl_cons, ih, metadata_mergeConfig _ _ hk, explicitMetadata, explicitMetadata,
      findSome?_reverse_cons, Option.or_assoc]

theorem get?_propagated (objTruth : Nat → Bool) (configurable : Dict String Value)
    (keys : List String) (metadata : Dict String Value) (k : String) :
    (keys.foldl (fun metadata key =>
      if metadata.contains key then metadata
      else
        match configurable.get? key with
        | none => metadata
        | some value => if value.truthy objTruth then metadata.set key value else metadata)
      metadata).get? k =
        if k ∈ keys then
          (metadata.get? k).or ((configurable.get? k).filter (Value.truthy objTruth))
        else metadata.get? k := by
  induction keys generalizing metadata with
  | nil => rfl
  | cons key keys ih =>
    rw [List.foldl_cons, ih]
    cases hheld : metadata.get? key with
    | some v =>
      have hcontains : metadata.contains key = true := by rw [Dict.contains, hheld]; rfl
      rw [if_pos hcontains]
      by_cases hk : k = key
      · simp [hk, hheld]
      · simp [hk]
    | none =>
      have hcontains : ¬ metadata.contains key = true := by simp [Dict.contains, hheld]
      rw [if_neg hcontains]
      cases hvalue : configurable.get? key with
      | none =>
        by_cases hk : k = key
        · simp [hk, hheld, hvalue]
        · simp [hk]
      | some value =>
        cases htruthy : value.truthy objTruth with
        | false =>
          by_cases hk : k = key
          · simp [hk, hheld, hvalue, htruthy, Option.filter]
          · simp [hk, htruthy]
        | true =>
          by_cases hk : k = key
          · simp [hk, hheld, hvalue, htruthy, Option.filter]
          · simp [hk, htruthy, Dict.get?_set_ne _ hk]

theorem metadata_propagate (objTruth : Nat → Bool) (empty : EnsuredConfig H M) {k : String}
    (hk : k ∈ propagateToMetadata) : (propagate objTruth empty).metadata.get? k =
      (empty.metadata.get? k).or ((empty.configurable.get? k).filter (Value.truthy objTruth)) := by
  rw [propagate]
  split
  · rename_i hempty
    have hnone : (∅ : Dict String Value).get? k = none := rfl
    rw [items_eq_nil hempty, hnone, Option.filter_none, Option.or_none]
  · generalize propagateToMetadata = keys at hk ⊢
    have hget := get?_propagated objTruth empty.configurable keys empty.metadata k
    rw [if_pos hk] at hget
    exact hget

theorem configurable_propagate (objTruth : Nat → Bool) (empty : EnsuredConfig H M) :
    (propagate objTruth empty).configurable = empty.configurable := by
  rw [propagate]
  split
  · rfl
  · rfl

end Entries

section Lineages

variable {H M : Type} (methods : ManagerMethods H M) (defaultRecursionLimit : Int)
  (objTruth : Nat → Bool) (var : Option (RunnableConfig H M))
  (configs : List (Option (RunnableConfig H M)))

def ambientEntry (k : String) : Option Value := var.bind (fun c => (c.configurable.getD ∅).get? k)

def ambientMetadata (k : String) : Option Value := var.bind (fun c => c.metadataEntry k)

def lineageKeys : List String := ["thread_id", "checkpoint_id", "checkpoint_ns"]

-- An explicit coordinate leaves no ambient entry; else each entry not overridden survives.
structure ConfigurableApart (result : EnsuredConfig H M) : Prop where
  reset : configs.reduceOption.any suppliesCoordinate = true →
    ∀ k, result.configurable.get? k = explicitly configs.reduceOption k
  kept : configs.reduceOption.any suppliesCoordinate = false →
    ∀ k, explicitly configs.reduceOption k = none →
      result.configurable.get? k = ambientEntry var k

def MetadataMirrors (result : EnsuredConfig H M) : Prop :=
  ∀ k ∈ lineageKeys, ∀ v, result.configurable.get? k = some v →
    explicitMetadata configs.reduceOption k = none → result.metadata.get? k = some v

structure LineagesApart (result : EnsuredConfig H M) : Prop where
  configurable : ConfigurableApart var configs result
  metadata : MetadataMirrors configs result

-- The same for the values that are not falsy, where the ambient metadata says nothing else.
def MetadataMirrorsTruthy (result : EnsuredConfig H M) : Prop :=
  ∀ k ∈ lineageKeys, ∀ v, result.configurable.get? k = some v →
    explicitMetadata configs.reduceOption k = none →
      ambientMetadata var k = some v ∨ ambientMetadata var k = none ∧ v.truthy objTruth = true →
        result.metadata.get? k = some v

variable {methods defaultRecursionLimit objTruth var configs}

theorem ambient_configurable (k : String) :
    (inheritAmbient (emptyConfig defaultRecursionLimit) var).configurable.get? k =
      ambientEntry var k := by
  cases var with
  | none => rfl
  | some var => exact get?_filledDict var.configurable k

theorem ambient_metadata (k : String) :
    (inheritAmbient (emptyConfig defaultRecursionLimit) var).metadata.get? k =
      ambientMetadata var k := by
  cases var with
  | none => rfl
  | some var => exact get?_filledDict var.metadata k

theorem configurable_reset (given : List (RunnableConfig H M)) (empty : EnsuredConfig H M)
    (k : String) : (resetAmbient given empty).configurable.get? k =
      if given.any suppliesCoordinate then none else empty.configurable.get? k := by
  rw [resetAmbient]
  cases hsupplied : given.any suppliesCoordinate with
  | false => simp
  | true =>
    cases hempty : empty.configurable.items.isEmpty with
    | false => rfl
    | true =>
      rw [if_neg (by simp), if_pos rfl, items_eq_nil hempty]
      rfl

theorem metadata_reset (given : List (RunnableConfig H M)) (empty : EnsuredConfig H M) :
    (resetAmbient given empty).metadata = empty.metadata := by
  rw [resetAmbient]
  split
  · rfl
  · rfl

theorem configurable_ensured (k : String) :
    (ensureConfig methods defaultRecursionLimit objTruth var configs).configurable.get? k =
      (explicitly configs.reduceOption k).or
        (if configs.reduceOption.any suppliesCoordinate then none else ambientEntry var k) := by
  rw [ensureConfig, configurable_propagate, mergedConfig, configurable_merged,
    configurable_reset, ambient_configurable]

theorem metadata_ensured {k : String} (hk : k ∈ propagateToMetadata) :
    (ensureConfig methods defaultRecursionLimit objTruth var configs).metadata.get? k =
      ((explicitMetadata configs.reduceOption k).or (ambientMetadata var k)).or
        (((ensureConfig methods defaultRecursionLimit objTruth var configs).configurable.get?
          k).filter (Value.truthy objTruth)) := by
  have hversions : k ≠ "lc_versions" := by
    rintro rfl
    exact absurd hk (by decide)
  rw [ensureConfig, metadata_propagate objTruth _ hk, configurable_propagate, mergedConfig,
    metadata_merged _ _ hversions, metadata_reset, ambient_metadata]

theorem ensure_config_lineages :
    ConfigurableApart var configs
        (ensureConfig methods defaultRecursionLimit objTruth var configs) ∧
      MetadataMirrorsTruthy objTruth var configs
        (ensureConfig methods defaultRecursionLimit objTruth var configs) := by
  refine ⟨⟨fun hreset k => ?_, fun hkept k hnone => ?_⟩, fun k hk v hv hexplicit hambient => ?_⟩
  · rw [configurable_ensured, if_pos hreset, Option.or_none]
  · rw [configurable_ensured, hnone, hkept, Option.none_or]
    rfl
  · have hpropagated : k ∈ propagateToMetadata := by
      have hsubset : lineageKeys ⊆ propagateToMetadata := by decide
      exact hsubset hk
    rw [metadata_ensured hpropagated, hexplicit, hv, Option.none_or]
    rcases hambient with hsame | ⟨hnone, htruthy⟩
    · rw [hsame, Option.some_or]
    · rw [hnone, Option.none_or]
      exact Option.filter_eq_some_iff.mpr ⟨rfl, htruthy⟩

def plainMethods : ManagerMethods Unit Unit := ⟨fun m _ => m, fun m _ => m⟩

def holding (configurable metadata : List (String × Value)) : RunnableConfig Unit Unit :=
  ⟨none, some (Dict.ofList metadata), none, some (Dict.ofList configurable), ∅, ∅⟩

def parentTask : RunnableConfig Unit Unit :=
  holding [("thread_id", .str "parent"), ("checkpoint_ns", .str "p:1")]
    [("thread_id", .str "parent"), ("checkpoint_ns", .str "p:1")]

def childCall : RunnableConfig Unit Unit := holding [("thread_id", .str "child")] []

def rootCall : RunnableConfig Unit Unit := holding [("checkpoint_ns", .str "")] []

theorem metadata_not_mirrored :
    ¬ LineagesApart none [some rootCall]
        (ensureConfig plainMethods 25 (fun _ => true) none [some rootCall]) ∧
      ¬ LineagesApart (some parentTask) [some childCall]
        (ensureConfig plainMethods 25 (fun _ => true) (some parentTask) [some childCall]) := by
  constructor
  · intro h
    exact absurd (h.metadata "checkpoint_ns" (by decide) (.str "") (by decide) (by decide))
      (by decide)
  · intro h
    exact absurd (h.metadata "thread_id" (by decide) (.str "child") (by decide) (by decide))
      (by decide)

end Lineages

end RunnableConfig

end LangGraph

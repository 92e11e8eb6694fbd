import LangGraph.Channels.Channel
import LangGraph.Pregel.ApplyWrites
import LangGraph.Pregel.Hydrate
import LangGraph.Pregel.Superstep

namespace LangGraph

open Collections PregelLoop

def HasKind (specs : Dict String Channel) (k : String) (c : Channel) : Prop :=
  ∃ spec, specs.get? k = some spec ∧ c.kind = spec.kind

def KindsAgree (specs channels : Dict String Channel) : Prop :=
  ∀ k, (channels.get? k).map Channel.kind = (specs.get? k).map Channel.kind

variable {specs channels : Dict String Channel} {Ver : Type} [LinearOrder Ver]

theorem preserves_kind (ws : List Write) : Preserves (HasKind specs) ws where
  consume k c := by
    rintro ⟨spec, hs, hk⟩
    exact ⟨spec, hs, (Channel.kind_consume c).trans hk⟩
  finish k c := by
    rintro ⟨spec, hs, hk⟩
    exact ⟨spec, hs, (Channel.kind_finish c).trans hk⟩
  update k c vs _ := by
    rintro ⟨spec, hs, hk⟩
    exact ⟨spec, hs, (Channel.kind_update c vs).trans hk⟩

structure Declared (specs channels : Dict String Channel) : Prop where
  keys : channels.keys = specs.keys
  kinds : Holds (HasKind specs) channels

theorem Declared.agree (h : Declared specs channels) : KindsAgree specs channels := by
  intro k
  cases hc : channels.get? k with
  | none =>
    have hk : k ∉ specs.keys := h.keys ▸ Dict.get?_eq_none.mp hc
    rw [Dict.get?_eq_none.mpr hk]
  | some c =>
    obtain ⟨spec, hs, hkind⟩ := h.kinds k c hc
    rw [hs, Option.map_some, Option.map_some, hkind]

theorem Declared.applyWrites (h : Declared specs channels) (checkpoint : Checkpoint Ver)
    (tasks : List PregelTaskWrites) (next : Option (GetNextVersion Ver))
    (triggerToNodes : Dict String (List String)) :
    Declared specs (applyWrites checkpoint channels tasks next triggerToNodes).2.1 :=
  ⟨(keys_applyWrites _ _ _ _ _).trans h.keys, holds_applyWrites (preserves_kind _) h.kinds⟩

theorem kind_hydrate {spec c : Channel} {saver : Option (InMemorySaver Ver)} {id k : String}
    {stored : Option Blob} (h : hydrate spec saver id k stored = .ok c) : c.kind = spec.kind := by
  have hplain (b : Option Blob) : (BaseChannel.fromCheckpoint spec b).kind = spec.kind :=
    Channel.kind_fromCheckpoint spec b
  unfold hydrate at h
  cases saver with
  | none => rw [← Except.ok.inj h, hplain]
  | some s =>
    simp only at h
    split at h
    · rw [Channel.kind_replayWrites h, hplain]
    · rw [← Except.ok.inj h, hplain]

theorem Declared.load {saver : Option (InMemorySaver Ver)} {checkpoint : Checkpoint Ver}
    (h : channelsFromCheckpoint specs saver checkpoint = .ok channels) :
    Declared specs channels where
  keys := keys_channelsFromCheckpoint h
  kinds k c hc := by
    have hk : k ∈ specs.keys := by
      rw [← keys_channelsFromCheckpoint h]
      exact Dict.mem_keys.mpr ⟨c, hc⟩
    obtain ⟨spec, hs⟩ := Dict.mem_keys.mp hk
    obtain ⟨d, hd, hget⟩ := get?_channelsFromCheckpoint h hs
    rw [hc, Option.some.injEq] at hget
    exact ⟨spec, hs, hget ▸ kind_hydrate hd⟩

def DeltaOnly (specs : Dict String Channel) (snapshot : Finset String) : Prop :=
  ∀ k ∈ snapshot, deltaKey specs k = true

theorem deltaKey_of_kind {k : String} {c : Channel} (h : HasKind specs k c) :
    deltaKey specs k = true ↔ c.kind = .deltaChannel := by
  obtain ⟨spec, hs, hk⟩ := h
  have hdelta : isDelta spec ↔ spec.kind = .deltaChannel := Iff.rfl
  simp [deltaKey, hs, hdelta, hk]

theorem untrackedKey_of_kind {k : String} {c : Channel} (h : HasKind specs k c) :
    untrackedKey specs k = true ↔ c.kind = .untrackedValue := by
  obtain ⟨spec, hs, hk⟩ := h
  have hu : isUntracked spec ↔ spec.kind = .untrackedValue := Iff.rfl
  simp [untrackedKey, hs, hu, hk]

theorem deltaOnly_snapshot (h : Declared specs channels) (counters : Counters) :
    DeltaOnly specs (deltaChannelsToSnapshot channels counters) := by
  intro k hk
  rw [deltaChannelsToSnapshot, List.mem_toFinset, Dict.mem_keys_filter] at hk
  obtain ⟨c, hc, hp⟩ := hk
  simp only [Bool.and_eq_true, decide_eq_true_eq] at hp
  exact (deltaKey_of_kind (h.kinds k c hc)).mpr hp.1.1

theorem deltaOnly_overwritten (specs : Dict String Channel) (ws : List Write) :
    DeltaOnly specs (overwritten specs ws) := by
  intro k hk
  rw [overwritten, List.mem_toFinset, List.mem_map] at hk
  obtain ⟨w, hw, rfl⟩ := hk
  have hp := (List.mem_filter.mp hw).2
  rw [Bool.and_eq_true] at hp
  exact hp.1

theorem deltaOnly_union {as bs : Finset String}
    (ha : DeltaOnly specs as) (hb : DeltaOnly specs bs) : DeltaOnly specs (as ∪ bs) := by
  intro k hk
  rcases Finset.mem_union.mp hk with hk | hk
  · exact ha k hk
  · exact hb k hk

end LangGraph

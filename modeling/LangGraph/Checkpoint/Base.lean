import LangGraph.Channels.Base
import LangGraph.Collections.Dict
import Mathlib.Order.BoundedOrder.Basic

namespace LangGraph

open Collections

abbrev ChannelVersions (Ver : Type) := Dict String Ver

structure Checkpoint (Ver : Type) where
  id : String
  channelValues : Dict String Blob
  channelVersions : ChannelVersions Ver
  versionsSeen : Dict String (ChannelVersions Ver)
  updatedChannels : Option (Finset String)

structure CheckpointMetadata where
  source : String
  step : Int
  countersSinceDeltaSnapshot : Dict String (Nat × Nat)

def emptyCheckpoint {Ver : Type} (id : String) : Checkpoint Ver :=
  ⟨id, ∅, ∅, ∅, none⟩

abbrev GetNextVersion (Ver : Type) := Option Ver → Ver

def successor : GetNextVersion Nat := fun v => v.getD 0 + 1

section Versions

variable {Ver : Type} [LinearOrder Ver]

def maxVersion (versions : ChannelVersions Ver) : Option Ver := versions.values.max?

theorem le_maxVersion {versions : ChannelVersions Ver} {c : String} {v m : Ver}
    (hv : versions.get? c = some v) (hm : maxVersion versions = some m) : v ≤ m := by
  have hmem : v ∈ versions.values := Dict.mem_values.mpr ⟨c, hv⟩
  exact (List.max?_eq_some_iff.mp hm).2 v hmem

variable [OrderBot Ver]

structure StrictlyIncreasing (next : GetNextVersion Ver) : Prop where
  some (v : Ver) : v < next (some v)
  none : ⊥ < next none

theorem lt_next_of_get? {next : GetNextVersion Ver} (hn : StrictlyIncreasing next)
    {versions : ChannelVersions Ver} {c : String} {v : Ver} (hv : versions.get? c = some v) :
    v < next (maxVersion versions) := by
  cases hm : maxVersion versions with
  | none =>
    have hnil : versions.values = [] := List.max?_eq_none_iff.mp hm
    have hmem : v ∈ versions.values := Dict.mem_values.mpr ⟨c, hv⟩
    rw [hnil] at hmem
    cases hmem
  | some m => exact lt_of_le_of_lt (le_maxVersion hv hm) (hn.some m)

theorem bot_lt_next {next : GetNextVersion Ver} (hn : StrictlyIncreasing next) (v : Option Ver) :
    ⊥ < next v := by
  cases v with
  | none => exact hn.none
  | some v => exact lt_of_le_of_lt bot_le (hn.some v)

end Versions

end LangGraph

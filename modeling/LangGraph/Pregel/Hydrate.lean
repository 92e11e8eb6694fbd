import LangGraph.Pregel.Checkpoint

namespace LangGraph

open Collections

section Traverse

variable {C : Type}

theorem keys_traverse {f : String → C → Except UpdateError C} {l l' : List (String × C)}
    (h : traverse f l = .ok l') : l'.map Prod.fst = l.map Prod.fst := by
  induction l generalizing l' with
  | nil =>
    cases h
    rfl
  | cons p l ih =>
    obtain ⟨k, c⟩ := p
    rw [traverse] at h
    cases hf : f k c with
    | error e => simp [hf] at h
    | ok c' =>
      cases ht : traverse f l with
      | error e => simp [hf, ht, Except.map] at h
      | ok rest =>
        simp only [hf, ht, Except.map, Except.ok.injEq] at h
        rw [← h, List.map_cons, List.map_cons, ih ht]

theorem lookup_traverse {f : String → C → Except UpdateError C} {l l' : List (String × C)}
    (h : traverse f l = .ok l') {k : String} {c : C} (hc : Dict.lookup k l = some c) :
    ∃ c', f k c = .ok c' ∧ Dict.lookup k l' = some c' := by
  induction l generalizing l' with
  | nil => cases hc
  | cons p l ih =>
    obtain ⟨k', d⟩ := p
    rw [traverse] at h
    cases hf : f k' d with
    | error e => simp [hf] at h
    | ok c' =>
      cases ht : traverse f l with
      | error e => simp [hf, ht, Except.map] at h
      | ok rest =>
        simp only [hf, ht, Except.map, Except.ok.injEq] at h
        rw [Dict.lookup] at hc
        rw [← h, Dict.lookup]
        by_cases hk : k' = k
        · rw [if_pos hk] at hc ⊢
          rw [← hk, ← Option.some.inj hc]
          exact ⟨c', hf, rfl⟩
        · rw [if_neg hk] at hc ⊢
          exact ih ht hc

end Traverse

variable {C Ver : Type} [BaseChannel C] [DecidableEq Ver] {specs channels : Dict String C}
  {saver : Option (InMemorySaver Ver)} {checkpoint : Checkpoint Ver}

theorem traverse_of_channelsFromCheckpoint
    (h : channelsFromCheckpoint specs saver checkpoint = .ok channels) :
    traverse (fun k spec => hydrate spec saver checkpoint.id k (checkpoint.channelValues.get? k))
      specs.items = .ok channels.items := by
  unfold channelsFromCheckpoint at h
  cases ht : traverse (fun k spec => hydrate spec saver checkpoint.id k
      (checkpoint.channelValues.get? k)) specs.items with
  | error e => simp [ht, Except.map] at h
  | ok l =>
    simp only [ht, Except.map, Except.ok.injEq] at h
    have hnodup : (l.map Prod.fst).Nodup := keys_traverse ht ▸ specs.nodup
    rw [← h, Dict.items_ofList hnodup]

theorem keys_channelsFromCheckpoint
    (h : channelsFromCheckpoint specs saver checkpoint = .ok channels) :
    channels.keys = specs.keys :=
  keys_traverse (traverse_of_channelsFromCheckpoint h)

theorem get?_channelsFromCheckpoint
    (h : channelsFromCheckpoint specs saver checkpoint = .ok channels) {k : String} {spec : C}
    (hs : specs.get? k = some spec) :
    ∃ c, hydrate spec saver checkpoint.id k (checkpoint.channelValues.get? k) = .ok c ∧
      channels.get? k = some c :=
  lookup_traverse (traverse_of_channelsFromCheckpoint h) hs

theorem hydrate_of_not_delta {spec c : C} (hd : ¬ isDelta spec) {id k : String}
    {stored : Option Blob} (h : hydrate spec saver id k stored = .ok c) :
    c = BaseChannel.fromCheckpoint spec stored := by
  unfold hydrate at h
  cases saver with
  | none => exact (Except.ok.inj h).symm
  | some s =>
    have hno : ¬ needsReplay spec stored := fun hr => hd hr.1
    simp only [if_neg hno] at h
    exact (Except.ok.inj h).symm

end LangGraph

import LangGraph.Channels.Aggregates

namespace LangGraph.DeltaChannel

def Batching (c : DeltaChannel) : Prop :=
  ∀ (s : Value) (xs ys : List Value), xs ≠ [] → ys ≠ [] →
    c.reducer s (xs ++ ys) = (c.reducer s xs).bind (fun t => c.reducer t ys)

def reduced (c : DeltaChannel) (r : Value × List Value) : Except UpdateError Value :=
  if r.2 = [] then .ok r.1 else c.reducer r.1 r.2

theorem resetPoint_append (c : DeltaChannel) (base : Value) (remaining xs ys : List Value) :
    c.resetPoint base remaining (xs ++ ys) =
      c.resetPoint (c.resetPoint base remaining xs).1 (c.resetPoint base remaining xs).2 ys := by
  induction xs generalizing base remaining with
  | nil => rfl
  | cons x xs ih =>
    rw [List.cons_append, resetPoint, resetPoint]
    cases x.getOverwrite with
    | none => exact ih _ _
    | some w => exact ih _ _

theorem resetPoint_value (c : DeltaChannel) (v : Option Value) (base : Value)
    (remaining xs : List Value) :
    ({ c with value := v } : DeltaChannel).resetPoint base remaining xs =
      c.resetPoint base remaining xs := by
  induction xs generalizing base remaining with
  | nil => rfl
  | cons x xs ih =>
    rw [resetPoint, resetPoint]
    cases x.getOverwrite with
    | none => exact ih _ _
    | some w => exact ih _ _

theorem reduced_append {c : DeltaChannel} (hb : c.Batching) {base value : Value}
    {remaining : List Value} (h : c.reduced (base, remaining) = .ok value) (extra : List Value) :
    c.reduced (base, remaining ++ extra) = c.reduced (value, extra) := by
  rcases eq_or_ne remaining [] with rfl | hremaining
  · rw [reduced, if_pos rfl, Except.ok.injEq] at h
    rw [← h]
    rfl
  · rcases eq_or_ne extra [] with rfl | hextra
    · rw [List.append_nil, h]
      rfl
    · rw [reduced, if_neg hremaining] at h
      have hne : remaining ++ extra ≠ [] := fun he => hextra (List.append_eq_nil_iff.mp he).2
      rw [reduced, if_neg hne, hb base remaining extra hremaining hextra, h, reduced,
        if_neg hextra]
      rfl

-- A write after the base is settled is folded as if the base had been stored there.
theorem reduced_resetPoint {c : DeltaChannel} (hb : c.Batching) {base value : Value}
    {remaining : List Value} (h : c.reduced (base, remaining) = .ok value)
    (extra xs : List Value) :
    c.reduced (c.resetPoint base (remaining ++ extra) xs) =
      c.reduced (c.resetPoint value extra xs) := by
  induction xs generalizing extra with
  | nil => exact reduced_append hb h extra
  | cons x xs ih =>
    rw [resetPoint, resetPoint]
    cases x.getOverwrite with
    | none =>
      simp only
      rw [List.append_assoc]
      exact ih _
    | some w => rfl

theorem replayWrites_eq {c : DeltaChannel} {v : Value} (hv : c.value = some v) (xs : List Value) :
    c.replayWrites xs =
      (c.reduced (c.resetPoint v [] xs)).map (fun v => { c with value := some v }) := by
  rw [replayWrites, hv, Option.getD_some]
  rcases eq_or_ne xs [] with rfl | hxs
  · cases c
    cases hv
    rfl
  · rw [if_neg hxs, reduced]
    split_ifs
    · rfl
    · rfl

theorem value_replayWrites {c d : DeltaChannel} {v : Value} (hv : c.value = some v)
    {xs : List Value} (h : c.replayWrites xs = .ok d) :
    ∃ w, c.reduced (c.resetPoint v [] xs) = .ok w ∧ d = { c with value := some w } := by
  rw [replayWrites_eq hv] at h
  cases hr : c.reduced (c.resetPoint v [] xs) with
  | error e => simp [hr, Except.map] at h
  | ok w =>
    simp only [hr, Except.map, Except.ok.injEq] at h
    exact ⟨w, rfl, h.symm⟩

theorem replayWrites_append {c d : DeltaChannel} (hb : c.Batching) (hc : c.value.isSome = true)
    {xs : List Value} (h : c.replayWrites xs = .ok d) (ys : List Value) :
    c.replayWrites (xs ++ ys) = d.replayWrites ys := by
  obtain ⟨v, hv⟩ := Option.isSome_iff_exists.mp hc
  obtain ⟨w, hw, rfl⟩ := value_replayWrites hv h
  have hsettled := reduced_resetPoint hb hw [] ys
  rw [List.append_nil] at hsettled
  have hd : ({ c with value := some w } : DeltaChannel).value = some w := rfl
  rw [replayWrites_eq hv, replayWrites_eq hd, resetPoint_append, hsettled,
    c.resetPoint_value (some w)]
  rfl

theorem Batching.fromCheckpoint {c : DeltaChannel} (h : c.Batching) (b : Option Blob) :
    (c.fromCheckpoint b).Batching := by
  rcases b with _ | b
  · exact h
  · cases b <;> exact h

theorem isSome_fromCheckpoint (c : DeltaChannel) (b : Option Blob) :
    (c.fromCheckpoint b).value.isSome = true := by
  rcases b with _ | b
  · rfl
  · cases b <;> rfl

end LangGraph.DeltaChannel

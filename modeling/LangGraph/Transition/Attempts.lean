import LangGraph.Transition.Run
import Mathlib.Data.List.Basic
import Mathlib.Data.List.Nodup

namespace Transition

inductive Mark where
  | retry
  | count
  | skip
  deriving DecidableEq

-- What is counted, by its number within its attempt and its number over all attempts.
def positions : Nat → Nat → List Mark → List (Nat × Nat)
  | _, _, [] => []
  | _, t, .retry :: ms => positions 0 t ms
  | o, t, .count :: ms => (o, t) :: positions (o + 1) (t + 1) ms
  | o, t, .skip :: ms => positions o t ms

-- Once an attempt that counted was given up, no later one counts.
def OneAttempt : Bool → List Mark → Prop
  | _, [] => True
  | true, .retry :: ms => Mark.count ∉ ms
  | false, .retry :: ms => OneAttempt false ms
  | _, .count :: ms => OneAttempt true ms
  | used, .skip :: ms => OneAttempt used ms

section Positions

variable {o t : Nat} {ms : List Mark} {p : Nat × Nat}

theorem positions_le (hle : o ≤ t) (hp : p ∈ positions o t ms) : p.1 ≤ p.2 := by
  induction ms generalizing o t with
  | nil => cases hp
  | cons m ms ih =>
    cases m with
    | retry => exact ih (Nat.zero_le t) hp
    | count =>
      rcases List.mem_cons.mp hp with rfl | hp
      · exact hle
      · exact ih (by omega) hp
    | skip => exact ih hle hp

theorem positions_lt (hlt : o < t) (hp : p ∈ positions o t ms) : p.1 < p.2 := by
  induction ms generalizing o t with
  | nil => cases hp
  | cons m ms ih =>
    cases m with
    | retry => exact ih (by omega) hp
    | count =>
      rcases List.mem_cons.mp hp with rfl | hp
      · exact hlt
      · exact ih (by omega) hp
    | skip => exact ih hlt hp

theorem map_snd_positions :
    (positions o t ms).map Prod.snd = List.range' t (ms.count .count) := by
  induction ms generalizing o t with
  | nil => rfl
  | cons m ms ih =>
    cases m with
    | retry => simpa [positions] using ih
    | count => simpa [positions, List.range'_succ] using ih
    | skip => simpa [positions] using ih

theorem positions_eq_nil : positions o t ms = [] ↔ Mark.count ∉ ms := by
  rw [← List.map_eq_nil_iff, map_snd_positions, List.range'_eq_nil_iff, List.count_eq_zero]

-- The first of an attempt has the number 0 in it.
theorem first_mem_positions (hp : p ∈ positions 0 t ms) : (0, t) ∈ positions 0 t ms := by
  induction ms with
  | nil => cases hp
  | cons m ms ih =>
    cases m with
    | retry => exact ih hp
    | count => exact List.mem_cons_self
    | skip => exact ih hp

theorem start_mem_positions (hle : o ≤ t) (hp : p ∈ positions o t ms) :
    p.2 - p.1 = t - o ∨ (0, p.2 - p.1) ∈ positions o t ms := by
  induction ms generalizing o t with
  | nil => cases hp
  | cons m ms ih =>
    cases m with
    | retry =>
      rcases ih (Nat.zero_le t) hp with heq | hmem
      · rw [heq]
        exact Or.inr (first_mem_positions hp)
      · exact Or.inr hmem
    | count =>
      rcases List.mem_cons.mp hp with rfl | hp
      · exact Or.inl rfl
      · rcases ih (by omega) hp with heq | hmem
        · exact Or.inl (by omega)
        · exact Or.inr (List.mem_cons_of_mem _ hmem)
    | skip => exact ih hle hp

def Aligned (ps : List (Nat × Nat)) : Prop := ∀ p ∈ ps, p.1 = p.2

-- The same number in two attempts is given the same number over all of them.
def Consistent {κ : Type} (ps : List (Nat × κ)) : Prop :=
  ∀ p ∈ ps, ∀ q ∈ ps, p.1 = q.1 → p.2 = q.2

theorem Aligned.consistent {ps : List (Nat × Nat)} (h : Aligned ps) : Consistent ps := by
  intro p hp q hq heq
  rw [← h p hp, ← h q hq, heq]

theorem aligned_of_consistent (h : Consistent (positions 0 0 ms)) :
    Aligned (positions 0 0 ms) := by
  intro p hp
  have hle := positions_le le_rfl hp
  rcases start_mem_positions le_rfl hp with heq | hmem
  · omega
  · have hsame : p.2 - p.1 = 0 := h _ hmem _ (first_mem_positions hp) rfl
    omega

theorem aligned_iff_oneAttempt :
    Aligned (positions t t ms) ↔ OneAttempt (decide (t ≠ 0)) ms := by
  induction ms generalizing t with
  | nil => simp [Aligned, positions, OneAttempt]
  | cons m ms ih =>
    cases m with
    | retry =>
      rcases Nat.eq_zero_or_pos t with rfl | hpos
      · exact ih
      · rw [decide_eq_true (by omega)]
        simp only [OneAttempt, positions, ← positions_eq_nil (o := 0) (t := t)]
        constructor
        · intro h
          refine List.eq_nil_iff_forall_not_mem.mpr (fun p hp => ?_)
          have hlt := positions_lt hpos hp
          have heq := h p hp
          omega
        · intro h p hp
          rw [h] at hp
          cases hp
    | count =>
      have hnext := @ih (t + 1)
      rw [decide_eq_true (by omega)] at hnext
      have hstep : OneAttempt (decide (t ≠ 0)) (.count :: ms) ↔ OneAttempt true ms := by
        cases decide (t ≠ 0) <;> rfl
      rw [hstep, ← hnext]
      simp [Aligned, positions]
    | skip =>
      have hstep : OneAttempt (decide (t ≠ 0)) (.skip :: ms) ↔ OneAttempt (decide (t ≠ 0)) ms := by
        cases decide (t ≠ 0) <;> rfl
      rw [hstep, ← ih]
      rfl

theorem consistent_iff_oneAttempt :
    Consistent (positions 0 0 ms) ↔ OneAttempt false ms := by
  have haligned := @aligned_iff_oneAttempt 0 ms
  constructor
  · exact fun h => haligned.mp (aligned_of_consistent h)
  · exact fun h => (haligned.mpr h).consistent

theorem nodup_ordinals (h : OneAttempt false ms) : ((positions 0 0 ms).map Prod.fst).Nodup := by
  have haligned : Aligned (positions 0 0 ms) := aligned_iff_oneAttempt.mpr h
  have hsame : (positions 0 0 ms).map Prod.fst = (positions 0 0 ms).map Prod.snd :=
    List.map_congr_left haligned
  rw [hsame, map_snd_positions]
  exact List.nodup_range'

theorem consistent_map {κ : Type} {f : Nat → κ} (hf : Function.Injective f)
    {ps : List (Nat × Nat)} :
    Consistent (ps.map (fun p => (p.1, f p.2))) ↔ Consistent ps := by
  simp only [Consistent, List.forall_mem_map]
  exact forall₄_congr (fun p _ q _ => imp_congr_right (fun _ => hf.eq_iff))

end Positions

-- A counter that outlives the attempts, and the log of what its numbers were used for.
structure Tallies {σ ι κ : Type} (step : σ → ι → σ) (mark : ι → Mark) (now total : σ → Nat)
    (f : Nat → κ) (log : σ → List (Nat × κ)) : Prop where
  retry : ∀ s e, mark e = .retry → now (step s e) = 0 ∧ total (step s e) = total s ∧
    log (step s e) = log s
  count : ∀ s e, mark e = .count → now (step s e) = now s + 1 ∧
    total (step s e) = total s + 1 ∧ log (step s e) = log s ++ [(now s, f (total s))]
  skip : ∀ s e, mark e = .skip → now (step s e) = now s ∧ total (step s e) = total s ∧
    log (step s e) = log s

theorem Tallies.log_run {σ ι κ : Type} {step : σ → ι → σ} {mark : ι → Mark}
    {now total : σ → Nat} {f : Nat → κ} {log : σ → List (Nat × κ)}
    (h : Tallies step mark now total f log) (s : σ) (es : List ι) :
    log (run step s es) = log s ++
      (positions (now s) (total s) (es.map mark)).map (fun p => (p.1, f p.2)) := by
  induction es generalizing s with
  | nil => simp [run, positions]
  | cons e es ih =>
    rw [run_cons, ih, List.map_cons]
    cases hm : mark e with
    | retry =>
      obtain ⟨hnow, htotal, hlog⟩ := h.retry s e hm
      rw [hnow, htotal, hlog, positions]
    | count =>
      obtain ⟨hnow, htotal, hlog⟩ := h.count s e hm
      rw [hnow, htotal, hlog, positions, List.map_cons, List.append_assoc]
      rfl
    | skip =>
      obtain ⟨hnow, htotal, hlog⟩ := h.skip s e hm
      rw [hnow, htotal, hlog, positions]

theorem Tallies.eachStep {σ ι κ : Type} {step : σ → ι → σ} {mark : ι → Mark}
    {now total : σ → Nat} {f : Nat → κ} {log : σ → List (Nat × κ)}
    (h : Tallies step mark now total f log) {s : σ} (hs : now s = total s) (es : List ι)
    (hone : OneAttempt (decide (total s ≠ 0)) (es.map mark)) :
    EachStep step (fun s e => mark e = .count → now s = total s) s es := by
  induction es generalizing s with
  | nil => exact eachStep_nil
  | cons e es ih =>
    refine eachStep_cons.mpr ⟨fun _ => hs, ?_⟩
    rw [List.map_cons] at hone
    cases hm : mark e with
    | retry =>
      obtain ⟨hnow, htotal, -⟩ := h.retry s e hm
      rw [hm] at hone
      rcases Nat.eq_zero_or_pos (total s) with hzero | hpos
      · refine ih (by omega) ?_
        rw [htotal]
        rw [hzero] at hone ⊢
        exact hone
      · rw [decide_eq_true (by omega)] at hone
        intro p i hp hi
        exact absurd (hi ▸ List.mem_map_of_mem (hp.subset (by simp))) hone
    | count =>
      obtain ⟨hnow, htotal, -⟩ := h.count s e hm
      refine ih (by omega) ?_
      rw [hm] at hone
      rw [decide_eq_true (by omega)]
      revert hone
      cases decide (total s ≠ 0) <;> exact id
    | skip =>
      obtain ⟨hnow, htotal, -⟩ := h.skip s e hm
      refine ih (by omega) ?_
      rw [hm] at hone
      rw [htotal]
      revert hone
      cases decide (total s ≠ 0) <;> exact id

end Transition

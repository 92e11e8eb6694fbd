import Mathlib.Data.List.Nodup

namespace Collections

variable {κ σ α ε : Type}

def andThen (r : σ × Option ε) (f : σ → σ × Option ε) : σ × Option ε :=
  match r.2 with
  | some e => (r.1, some e)
  | none => f r.1

def sweep (step : κ → σ → σ × Option ε) : List κ → σ → σ × Option ε
  | [], s => (s, none)
  | k :: ks, s => andThen (step k s) (sweep step ks)

theorem andThen_ok {r : σ × Option ε} {f : σ → σ × Option ε} (h : (andThen r f).2 = none) :
    r.2 = none ∧ andThen r f = f r.1 := by
  obtain ⟨s, _ | e⟩ := r
  · exact ⟨rfl, rfl⟩
  · cases h

theorem andThen_invariant {P : σ → Prop} {r : σ × Option ε} {f : σ → σ × Option ε}
    (hr : P r.1) (hf : ∀ s, P s → P (f s).1) : P (andThen r f).1 := by
  obtain ⟨s, _ | e⟩ := r
  · exact hf s hr
  · exact hr

namespace Sweep

structure Local (view : σ → κ → α) (step : κ → σ → σ × Option ε) (f : κ → α → α) : Prop where
  self (k : κ) (s : σ) : view (step k s).1 k = f k (view s k)
  frame {k k' : κ} (s : σ) : k' ≠ k → view (step k s).1 k' = view s k'

theorem invariant {P : σ → Prop} {step : κ → σ → σ × Option ε}
    (hstep : ∀ k s, P s → P (step k s).1) (ks : List κ) {s : σ} (hs : P s) :
    P (sweep step ks s).1 := by
  induction ks generalizing s with
  | nil => exact hs
  | cons k ks ih =>
    have hk : P (step k s).1 := hstep k s hs
    exact andThen_invariant hk (fun t ht => ih ht)

theorem invariant_ok {P : σ → Prop} {step : κ → σ → σ × Option ε}
    (hstep : ∀ k s, P s → (step k s).2 = none → P (step k s).1) {ks : List κ} {s : σ}
    (hok : (sweep step ks s).2 = none) (hs : P s) : P (sweep step ks s).1 := by
  induction ks generalizing s with
  | nil => exact hs
  | cons k ks ih =>
    obtain ⟨hk, heq⟩ := andThen_ok hok
    have hcons : sweep step (k :: ks) s = sweep step ks (step k s).1 := heq
    rw [hcons] at hok ⊢
    exact ih hok (hstep k s hs hk)

theorem frame {view : σ → κ → α} {step : κ → σ → σ × Option ε} {f : κ → α → α}
    (hl : Local view step f) {ks : List κ} {k : κ} (hk : k ∉ ks) (s : σ) :
    view (sweep step ks s).1 k = view s k := by
  induction ks generalizing s with
  | nil => rfl
  | cons k' ks ih =>
    rw [List.mem_cons, not_or] at hk
    have hf : view (step k' s).1 k = view s k := hl.frame s hk.1
    have hP : ∀ t, view t k = view s k → view (sweep step ks t).1 k = view s k := by
      intro t ht
      rw [ih hk.2 t, ht]
    exact andThen_invariant (P := fun t => view t k = view s k) hf hP

theorem view_of_ok {view : σ → κ → α} {step : κ → σ → σ × Option ε} {f : κ → α → α}
    (hl : Local view step f) {ks : List κ} (hn : ks.Nodup) {s : σ}
    (hok : (sweep step ks s).2 = none) {k : κ} (hk : k ∈ ks) :
    view (sweep step ks s).1 k = f k (view s k) := by
  induction ks generalizing s with
  | nil => cases hk
  | cons k' ks ih =>
    obtain ⟨hk', hn⟩ := List.nodup_cons.mp hn
    obtain ⟨-, heq⟩ := andThen_ok hok
    have hstep : sweep step (k' :: ks) s = sweep step ks (step k' s).1 := heq
    rw [hstep] at hok ⊢
    rcases List.mem_cons.mp hk with rfl | hk
    · rw [frame hl hk', hl.self]
    · have hne : k ≠ k' := fun e => hk' (e ▸ hk)
      rw [ih hn hok hk, hl.frame s hne]

theorem never_fails {step : κ → σ → σ × Option ε} (hstep : ∀ k s, (step k s).2 = none)
    (ks : List κ) (s : σ) : (sweep step ks s).2 = none := by
  induction ks generalizing s with
  | nil => rfl
  | cons k ks ih =>
    have hk : (step k s).2 = none := hstep k s
    have heq : sweep step (k :: ks) s = sweep step ks (step k s).1 := by
      simp only [sweep, andThen, hk]
    rw [heq]
    exact ih (step k s).1

-- A sweep that fails has swept a prefix and fails at the key after it.
theorem split_of_error {step : κ → σ → σ × Option ε} {ks : List κ} {s : σ} {e : ε}
    (h : (sweep step ks s).2 = some e) :
    ∃ pre k post, ks = pre ++ k :: post ∧ (sweep step pre s).2 = none ∧
      (step k (sweep step pre s).1).2 = some e ∧
      (sweep step ks s).1 = (step k (sweep step pre s).1).1 := by
  induction ks generalizing s with
  | nil => cases h
  | cons k ks ih =>
    rw [sweep, andThen] at h ⊢
    cases hk : (step k s).2 with
    | some e' =>
      simp only [hk] at h ⊢
      exact ⟨[], k, ks, rfl, rfl, hk.trans h, rfl⟩
    | none =>
      simp only [hk] at h ⊢
      obtain ⟨pre, k', post, rfl, hpre, hfail, hstate⟩ := ih h
      have hcons : sweep step (k :: pre) s = sweep step pre (step k s).1 := by
        simp only [sweep, andThen, hk]
      refine ⟨k :: pre, k', post, rfl, ?_, ?_, ?_⟩
      · rw [hcons]
        exact hpre
      · rw [hcons]
        exact hfail
      · rw [hcons]
        exact hstate

theorem ok_of_mem {view : σ → κ → α} {step : κ → σ → σ × Option ε} {f : κ → α → α}
    {err : κ → α → Option ε} (hl : Local view step f)
    (herr : ∀ k s, (step k s).2 = err k (view s k)) {ks : List κ} (hn : ks.Nodup) {s : σ}
    (hok : (sweep step ks s).2 = none) {k : κ} (hk : k ∈ ks) : err k (view s k) = none := by
  induction ks generalizing s with
  | nil => cases hk
  | cons k' ks ih =>
    obtain ⟨hk', hn⟩ := List.nodup_cons.mp hn
    obtain ⟨hstep, heq⟩ := andThen_ok hok
    have hcons : sweep step (k' :: ks) s = sweep step ks (step k' s).1 := heq
    rw [hcons] at hok
    rcases List.mem_cons.mp hk with rfl | hk
    · rw [← herr, hstep]
    · have hne : k ≠ k' := fun e => hk' (e ▸ hk)
      have hview := ih hn hok hk
      rwa [hl.frame s hne] at hview

end Sweep

end Collections

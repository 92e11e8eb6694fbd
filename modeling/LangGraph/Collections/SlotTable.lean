import LangGraph.Collections.Dict
import Mathlib.Data.List.Induction

namespace Collections

-- A list stored row by row: a pinned element has a key of its own, any other the key of its
-- position. Saving a list again replaces the pinned rows and keeps the positional ones.
structure Slots (α κ : Type) where
  key : Nat → α → κ
  pinned : α → Prop
  sticky : κ → Prop
  key_pinned {a : α} (i j : Nat) : pinned a → key i a = key j a
  key_free {a b : α} {i j : Nat} : ¬ pinned a → ¬ pinned b → (key i a = key j b ↔ i = j)
  sticky_key (i : Nat) (a : α) : sticky (key i a) ↔ ¬ pinned a

namespace Slots

variable {α κ : Type} (T : Slots α κ)

def indexFrom (i : Nat) : List α → List (κ × α)
  | [] => []
  | a :: as => (T.key i a, a) :: indexFrom (i + 1) as

def Rewrites (a b : α) : Prop :=
  (T.pinned a ∧ T.pinned b ∧ T.key 0 b = T.key 0 a) ∨ (¬ T.pinned a ∧ b = a)

def Lines : List α → List α → Prop
  | [], _ => True
  | _ :: _, [] => False
  | a :: as, b :: bs => T.Rewrites a b ∧ Lines as bs

def Distinct (as : List α) : Prop :=
  as.Pairwise (fun a b => T.pinned a → T.pinned b → T.key 0 a ≠ T.key 0 b)

structure Continues (as bs : List α) : Prop where
  lines : T.Lines as bs
  distinct : T.Distinct bs

def Keeps : List (κ × α) → List (κ × α) → Prop
  | [], _ => True
  | _ :: _, [] => False
  | r :: rs, t :: ts => (r.1 = t.1 ∧ (T.sticky r.1 → r.2 = t.2)) ∧ Keeps rs ts

structure Keyed (rs : List (κ × α)) : Prop where
  nodup : (rs.map Prod.fst).Nodup
  key (r : κ × α) : r ∈ rs → ∃ i, r.1 = T.key i r.2

section Decidable

variable [DecidableEq α] [DecidableEq κ] [DecidablePred T.pinned]

instance (a b : α) : Decidable (T.Rewrites a b) := inferInstanceAs (Decidable (_ ∨ _))

instance decidableLines : (as bs : List α) → Decidable (T.Lines as bs)
  | [], _ => isTrue trivial
  | _ :: _, [] => isFalse id
  | a :: as, b :: bs =>
      have := decidableLines as bs
      inferInstanceAs (Decidable (T.Rewrites a b ∧ T.Lines as bs))

instance (as : List α) : Decidable (T.Distinct as) :=
  inferInstanceAs (Decidable (List.Pairwise _ as))

instance (as bs : List α) : Decidable (T.Continues as bs) :=
  decidable_of_iff (T.Lines as bs ∧ T.Distinct bs) ⟨fun h => ⟨h.1, h.2⟩, fun h => ⟨h.1, h.2⟩⟩

end Decidable

theorem lines_refl (as : List α) : T.Lines as as := by
  induction as with
  | nil => trivial
  | cons a as ih =>
    by_cases h : T.pinned a
    · exact ⟨Or.inl ⟨h, h, rfl⟩, ih⟩
    · exact ⟨Or.inr ⟨h, rfl⟩, ih⟩

theorem continues_refl {as : List α} (h : T.Distinct as) : T.Continues as as :=
  ⟨T.lines_refl as, h⟩

theorem indexFrom_append (i : Nat) (as bs : List α) :
    T.indexFrom i (as ++ bs) = T.indexFrom i as ++ T.indexFrom (i + as.length) bs := by
  induction as generalizing i with
  | nil => rfl
  | cons a as ih =>
    have h : i + (a :: as).length = i + 1 + as.length := by
      simp only [List.length_cons]
      omega
    rw [List.cons_append, indexFrom, indexFrom, ih, h, List.cons_append]

theorem values_indexFrom (i : Nat) (as : List α) : (T.indexFrom i as).map Prod.snd = as := by
  induction as generalizing i with
  | nil => rfl
  | cons a as ih => rw [indexFrom, List.map_cons, ih]

theorem key_eq_of_pinned {a b : α} {i j : Nat} (h : T.key i a = T.key j b) (ha : T.pinned a) :
    T.pinned b := by
  by_contra hb
  have hs : T.sticky (T.key i a) := h ▸ (T.sticky_key j b).mpr hb
  exact (T.sticky_key i a).mp hs ha

theorem key_mem_indexFrom {i : Nat} {as : List α} {k : κ}
    (h : k ∈ (T.indexFrom i as).map Prod.fst) :
    ∃ j a, i ≤ j ∧ j < i + as.length ∧ a ∈ as ∧ k = T.key j a := by
  induction as generalizing i with
  | nil => cases h
  | cons a as ih =>
    rw [indexFrom, List.map_cons, List.mem_cons] at h
    rcases h with rfl | h
    · exact ⟨i, a, Nat.le_refl i, by simp, by simp, rfl⟩
    · obtain ⟨j, b, hij, hj, hb, hk⟩ := ih h
      refine ⟨j, b, by omega, ?_, by simp [hb], hk⟩
      rw [List.length_cons]
      omega

theorem key_of_mem_indexFrom {i : Nat} {as : List α} {r : κ × α} (h : r ∈ T.indexFrom i as) :
    ∃ j, r.1 = T.key j r.2 := by
  induction as generalizing i with
  | nil => cases h
  | cons a as ih =>
    rcases List.mem_cons.mp h with rfl | h
    · exact ⟨i, rfl⟩
    · exact ih h

theorem fresh_key {pre : List α} {b : α} (hd : T.Distinct (pre ++ [b])) :
    T.key pre.length b ∉ (T.indexFrom 0 pre).map Prod.fst := by
  intro h
  obtain ⟨j, a, -, hj, ha, hk⟩ := T.key_mem_indexFrom h
  by_cases hb : T.pinned b
  · have hpa : T.pinned a := T.key_eq_of_pinned hk hb
    have hne := (List.pairwise_append.mp hd).2.2 a ha b (by simp)
    apply hne hpa hb
    rw [T.key_pinned 0 j hpa, ← hk, T.key_pinned pre.length 0 hb]
  · have hna : ¬ T.pinned a := fun hpa => hb (T.key_eq_of_pinned hk.symm hpa)
    have heq : pre.length = j := (T.key_free hb hna).mp hk
    omega

theorem keyed_indexFrom {as : List α} (hd : T.Distinct as) : T.Keyed (T.indexFrom 0 as) where
  nodup := by
    induction as using List.reverseRecOn with
    | nil => exact List.nodup_nil
    | append_singleton as a ih =>
      have hfresh := T.fresh_key hd
      rw [indexFrom_append, List.map_append, Nat.zero_add]
      refine (ih (List.pairwise_append.mp hd).1).append (List.nodup_singleton _) ?_
      intro k hk hk'
      rw [List.mem_singleton.mp hk'] at hk
      exact hfresh hk
  key _ hr := T.key_of_mem_indexFrom hr

theorem keeps_refl (rs : List (κ × α)) : T.Keeps rs rs := by
  induction rs with
  | nil => trivial
  | cons r rs ih => exact ⟨⟨rfl, fun _ => rfl⟩, ih⟩

theorem keeps_trans {rs ts us : List (κ × α)} (h : T.Keeps rs ts) (h' : T.Keeps ts us) :
    T.Keeps rs us := by
  induction rs generalizing ts us with
  | nil => trivial
  | cons r rs ih =>
    cases ts with
    | nil => exact absurd h id
    | cons t ts =>
      cases us with
      | nil => exact absurd h' id
      | cons u us =>
        obtain ⟨⟨hk, hv⟩, h⟩ := h
        obtain ⟨⟨hk', hv'⟩, h'⟩ := h'
        exact ⟨⟨hk.trans hk', fun hs => (hv hs).trans (hv' (hk ▸ hs))⟩, ih h h'⟩

theorem lines_of_keeps {i : Nat} {as : List α} {rs : List (κ × α)}
    (h : T.Keeps (T.indexFrom i as) rs) (hk : ∀ r ∈ rs, ∃ j, r.1 = T.key j r.2) :
    T.Lines as (rs.map Prod.snd) := by
  induction as generalizing i rs with
  | nil => trivial
  | cons a as ih =>
    cases rs with
    | nil => exact absurd h id
    | cons r rs =>
      obtain ⟨⟨hkey, hv⟩, h⟩ := h
      refine ⟨?_, ih h (fun t ht => hk t (List.mem_cons_of_mem r ht))⟩
      obtain ⟨j, hj⟩ := hk r List.mem_cons_self
      have hab : T.key i a = T.key j r.2 := hkey.trans hj
      by_cases ha : T.pinned a
      · have hb : T.pinned r.2 := T.key_eq_of_pinned hab ha
        refine Or.inl ⟨ha, hb, ?_⟩
        rw [T.key_pinned 0 j hb, ← hab, T.key_pinned i 0 ha]
      · exact Or.inr ⟨ha, (hv ((T.sticky_key i a).mpr ha)).symm⟩

theorem distinct_of_keyed {rs : List (κ × α)} (h : T.Keyed rs) :
    T.Distinct (rs.map Prod.snd) := by
  obtain ⟨hn, hk⟩ := h
  rw [Distinct, List.pairwise_map]
  rw [List.Nodup, List.pairwise_map] at hn
  refine hn.imp_of_mem ?_
  intro r t hr ht hne hpr hpt he
  obtain ⟨i, hi⟩ := hk r hr
  obtain ⟨j, hj⟩ := hk t ht
  apply hne
  rw [hi, hj, T.key_pinned i 0 hpr, T.key_pinned j 0 hpt, he]

variable [DecidableEq κ]

theorem insert_fresh {k : κ} {v : α} {l : List (κ × α)} (h : k ∉ l.map Prod.fst) :
    Dict.insert k v l = l ++ [(k, v)] := by
  induction l with
  | nil => rfl
  | cons p l ih =>
    rw [List.map_cons, List.mem_cons, not_or] at h
    rw [Dict.insert, if_neg (Ne.symm h.1), ih h.2, List.cons_append]

theorem insert_middle {k : κ} {v w : α} {l r : List (κ × α)} (h : k ∉ l.map Prod.fst) :
    Dict.insert k v (l ++ (k, w) :: r) = l ++ (k, v) :: r := by
  induction l with
  | nil => simp [Dict.insert]
  | cons p l ih =>
    rw [List.map_cons, List.mem_cons, not_or] at h
    rw [List.cons_append, Dict.insert, if_neg (Ne.symm h.1), ih h.2, List.cons_append]

theorem keeps_insert {k : κ} {v : α} {rs : List (κ × α)}
    (h : ¬ (T.sticky k ∧ k ∈ rs.map Prod.fst)) : T.Keeps rs (Dict.insert k v rs) := by
  induction rs with
  | nil => trivial
  | cons r rs ih =>
    rw [Dict.insert]
    split
    · rename_i hk
      refine ⟨⟨hk, fun hs => ?_⟩, T.keeps_refl rs⟩
      exact absurd ⟨hk ▸ hs, by simp [hk]⟩ h
    · refine ⟨⟨rfl, fun _ => rfl⟩, ih ?_⟩
      rintro ⟨hs, hm⟩
      exact h ⟨hs, by simp [hm]⟩

theorem keyed_insert {i : Nat} {a : α} {rs : List (κ × α)} (h : T.Keyed rs) :
    T.Keyed (Dict.insert (T.key i a) a rs) where
  nodup := Dict.nodup_insert _ _ h.nodup
  key r hr := by
    rcases Dict.mem_insert hr with rfl | hr
    · exact ⟨i, rfl⟩
    · exact h.key r hr

variable [DecidablePred T.sticky]

def save (i : Nat) : List α → List (κ × α) → List (κ × α)
  | [], rows => rows
  | a :: as, rows =>
      if T.sticky (T.key i a) ∧ T.key i a ∈ rows.map Prod.fst then save (i + 1) as rows
      else save (i + 1) as (Dict.insert (T.key i a) a rows)

theorem save_lines (pre as bs : List α) (hl : T.Lines as bs) (hd : T.Distinct (pre ++ bs)) :
    T.save pre.length bs (T.indexFrom 0 (pre ++ as)) = T.indexFrom 0 (pre ++ bs) := by
  induction bs generalizing pre as with
  | nil =>
    cases as with
    | nil => rfl
    | cons a as => exact absurd hl id
  | cons b bs ih =>
    have hpre : pre ++ b :: bs = (pre ++ [b]) ++ bs := by simp
    have hlen : pre.length + 1 = (pre ++ [b]).length := by simp
    have hd' : T.Distinct (pre ++ [b]) := by
      rw [hpre] at hd
      exact (List.pairwise_append.mp hd).1
    have hfresh := T.fresh_key hd'
    cases as with
    | nil =>
      have hins : Dict.insert (T.key pre.length b) b (T.indexFrom 0 pre) =
          T.indexFrom 0 (pre ++ [b]) := by
        rw [insert_fresh hfresh, indexFrom_append, Nat.zero_add]
        rfl
      have hstep : T.save pre.length (b :: bs) (T.indexFrom 0 (pre ++ [])) =
          T.save (pre ++ [b]).length bs (T.indexFrom 0 ((pre ++ [b]) ++ [])) := by
        rw [save, List.append_nil, if_neg (fun h => hfresh h.2), hins, hlen, List.append_nil]
      rw [hstep, ih (pre ++ [b]) [] trivial (hpre ▸ hd), hpre]
    | cons a as =>
      obtain ⟨hr, hl⟩ := hl
      have hsplit (c : α) : T.indexFrom 0 (pre ++ c :: as) =
          T.indexFrom 0 pre ++ (T.key pre.length c, c) :: T.indexFrom (pre.length + 1) as := by
        rw [indexFrom_append, Nat.zero_add, indexFrom]
      have hstep : T.save pre.length (b :: bs) (T.indexFrom 0 (pre ++ a :: as)) =
          T.save (pre ++ [b]).length bs (T.indexFrom 0 (pre ++ b :: as)) := by
        rcases hr with ⟨ha, hb, hk⟩ | ⟨ha, rfl⟩
        · have hkey : T.key pre.length a = T.key pre.length b := by
            rw [T.key_pinned pre.length 0 ha, T.key_pinned pre.length 0 hb, hk]
          have hns : ¬ T.sticky (T.key pre.length b) := fun h => (T.sticky_key _ b).mp h hb
          rw [save, if_neg (fun h => hns h.1), hsplit a, hkey, insert_middle hfresh, ← hsplit b,
            hlen]
        · have hs : T.sticky (T.key pre.length b) := (T.sticky_key _ b).mpr ha
          have hmem : T.key pre.length b ∈ (T.indexFrom 0 (pre ++ b :: as)).map Prod.fst := by
            rw [hsplit b]
            simp
          rw [save, if_pos ⟨hs, hmem⟩, hlen]
      rw [hstep]
      have hassoc : pre ++ b :: as = (pre ++ [b]) ++ as := by simp
      rw [hassoc, ih (pre ++ [b]) as hl (hpre ▸ hd), hpre]

theorem save_of_continues {as bs : List α} (h : T.Continues as bs) :
    T.save 0 bs (T.indexFrom 0 as) = T.indexFrom 0 bs :=
  T.save_lines [] as bs h.lines h.distinct

theorem save_invariant {P : List (κ × α) → Prop} {as : List α}
    (hstep : ∀ i a rs, a ∈ as → ¬ (T.sticky (T.key i a) ∧ T.key i a ∈ rs.map Prod.fst) → P rs →
      P (Dict.insert (T.key i a) a rs)) (i : Nat) {rs : List (κ × α)} (h : P rs) :
    P (T.save i as rs) := by
  induction as generalizing i rs with
  | nil => exact h
  | cons a as ih =>
    have hrest (j : Nat) (b : α) (ts : List (κ × α)) (hb : b ∈ as) :=
      hstep j b ts (List.mem_cons_of_mem a hb)
    rw [save]
    split
    · exact ih hrest (i + 1) h
    · rename_i hn
      exact ih hrest (i + 1) (hstep i a rs List.mem_cons_self hn h)

theorem keeps_save (i : Nat) (as : List α) (rs : List (κ × α)) : T.Keeps rs (T.save i as rs) :=
  T.save_invariant (P := T.Keeps rs)
    (fun _ _ _ _ hn h => T.keeps_trans h (T.keeps_insert hn)) i (T.keeps_refl rs)

theorem keyed_save (i : Nat) (as : List α) {rs : List (κ × α)} (h : T.Keyed rs) :
    T.Keyed (T.save i as rs) :=
  T.save_invariant (P := T.Keyed) (fun _ _ _ _ _ h => T.keyed_insert h) i h

theorem mem_save {i : Nat} {as : List α} {rs : List (κ × α)} {a : α}
    (h : a ∈ (T.save i as rs).map Prod.snd) : a ∈ as ∨ a ∈ rs.map Prod.snd := by
  have hP : ∀ r ∈ T.save i as rs, r.2 ∈ as ∨ r.2 ∈ rs.map Prod.snd := by
    refine T.save_invariant (P := fun ts => ∀ r ∈ ts, r.2 ∈ as ∨ r.2 ∈ rs.map Prod.snd) ?_ i ?_
    · intro j b ts hb _ hts r hr
      rcases Dict.mem_insert hr with rfl | hr
      · exact Or.inl hb
      · exact hts r hr
    · intro r hr
      exact Or.inr (List.mem_map_of_mem hr)
  obtain ⟨r, hr, rfl⟩ := List.mem_map.mp h
  exact hP r hr

def Settled (P : α → Prop) (i : Nat) (rs : List (κ × α)) : Prop :=
  ∀ r ∈ rs, T.sticky r.1 → P r.2 ∨ ∀ j b, i ≤ j → ¬ T.pinned b → r.1 ≠ T.key j b

omit [DecidablePred T.sticky] in
theorem settled_insert {P : α → Prop} {i : Nat} {a : α} {rs : List (κ × α)}
    (h : T.Settled P i rs) : T.Settled P (i + 1) (Dict.insert (T.key i a) a rs) := by
  intro r hr hs
  rcases Dict.mem_insert hr with rfl | hr
  · refine Or.inr (fun j b hj hb heq => ?_)
    have ha : ¬ T.pinned a := (T.sticky_key i a).mp hs
    have hij : i = j := (T.key_free ha hb).mp heq
    omega
  · exact (h r hr hs).imp id (fun hne j b hj hb => hne j b (by omega) hb)

omit [DecidablePred T.sticky] in
theorem any_insert {P : α → Prop}
    (hpin : ∀ a b, T.pinned a → T.pinned b → T.key 0 a = T.key 0 b → P a → P b) {i : Nat} {a : α}
    {rs : List (κ × α)} (hkey : ∀ r ∈ rs, ∃ j, r.1 = T.key j r.2)
    (hn : ¬ (T.sticky (T.key i a) ∧ T.key i a ∈ rs.map Prod.fst)) :
    (∃ r ∈ Dict.insert (T.key i a) a rs, P r.2) ↔ (∃ r ∈ rs, P r.2) ∨ P a := by
  constructor
  · rintro ⟨r, hr, hp⟩
    rcases Dict.mem_insert hr with rfl | hr
    · exact Or.inr hp
    · exact Or.inl ⟨r, hr, hp⟩
  · rintro (⟨r, hr, hp⟩ | hp)
    · by_cases hk : r.1 = T.key i a
      · have ha : T.pinned a := by
          by_contra ha
          have hsticky : T.sticky (T.key i a) := (T.sticky_key i a).mpr ha
          exact hn ⟨hsticky, hk ▸ List.mem_map_of_mem hr⟩
        obtain ⟨j, hj⟩ := hkey r hr
        have hpr : T.pinned r.2 := T.key_eq_of_pinned (hk.symm.trans hj) ha
        have hzero : T.key 0 r.2 = T.key 0 a := by
          rw [T.key_pinned 0 j hpr, ← hj, hk, T.key_pinned i 0 ha]
        exact ⟨_, Dict.mem_insert_self (T.key i a) a rs, hpin r.2 a hpr ha hzero hp⟩
      · exact ⟨r, Dict.mem_insert_of_ne hk a hr, hp⟩
    · exact ⟨_, Dict.mem_insert_self (T.key i a) a rs, hp⟩

theorem any_save {P : α → Prop}
    (hpin : ∀ a b, T.pinned a → T.pinned b → T.key 0 a = T.key 0 b → P a → P b) {i : Nat}
    {as : List α} {rs : List (κ × α)} (hkey : ∀ r ∈ rs, ∃ j, r.1 = T.key j r.2)
    (hset : T.Settled P i rs) :
    (∃ r ∈ T.save i as rs, P r.2) ↔ (∃ r ∈ rs, P r.2) ∨ ∃ a ∈ as, P a := by
  induction as generalizing i rs with
  | nil => simp [save]
  | cons a as ih =>
    rw [save]
    split
    · rename_i h
      have hnext : T.Settled P (i + 1) rs := fun r hr hs =>
        (hset r hr hs).imp id (fun hne j b hj hb => hne j b (by omega) hb)
      rw [ih hkey hnext, List.exists_mem_cons_iff]
      constructor
      · rintro (hr | ha)
        · exact Or.inl hr
        · exact Or.inr (Or.inr ha)
      · rintro (hr | hp | ha)
        · exact Or.inl hr
        · obtain ⟨hs, hmem⟩ := h
          obtain ⟨r, hr, hk⟩ := List.mem_map.mp hmem
          have ha : ¬ T.pinned a := (T.sticky_key i a).mp hs
          rcases hset r hr (hk ▸ hs) with hpr | hne
          · exact Or.inl ⟨r, hr, hpr⟩
          · exact absurd hk (hne i a (Nat.le_refl i) ha)
        · exact Or.inr ha
    · rename_i hn
      have hkey' : ∀ r ∈ Dict.insert (T.key i a) a rs, ∃ j, r.1 = T.key j r.2 := by
        intro r hr
        rcases Dict.mem_insert hr with rfl | hr
        · exact ⟨i, rfl⟩
        · exact hkey r hr
      rw [ih hkey' (T.settled_insert hset), T.any_insert hpin hkey hn,
        List.exists_mem_cons_iff, or_assoc]

theorem exists_save {P : α → Prop}
    (hpin : ∀ a b, T.pinned a → T.pinned b → T.key 0 a = T.key 0 b → P a → P b) (i : Nat)
    (as : List α) {rs : List (κ × α)} (h : T.Keyed rs) (hp : ∃ r ∈ rs, P r.2) :
    ∃ r ∈ T.save i as rs, P r.2 := by
  have hstep (j : Nat) (a : α) (ts : List (κ × α)) (_ : a ∈ as)
      (hn : ¬ (T.sticky (T.key j a) ∧ T.key j a ∈ ts.map Prod.fst))
      (hts : T.Keyed ts ∧ ∃ r ∈ ts, P r.2) :
      T.Keyed (Dict.insert (T.key j a) a ts) ∧ ∃ r ∈ Dict.insert (T.key j a) a ts, P r.2 :=
    ⟨T.keyed_insert hts.1, (T.any_insert hpin hts.1.key hn).mpr (Or.inl hts.2)⟩
  exact (T.save_invariant (P := fun ts => T.Keyed ts ∧ ∃ r ∈ ts, P r.2) hstep i ⟨h, hp⟩).2

theorem save_eq_iff {as bs : List α} (hd : T.Distinct as) :
    (T.save 0 bs (T.indexFrom 0 as)).map Prod.snd = bs ↔ T.Continues as bs := by
  constructor
  · intro h
    have hkeyed := T.keyed_save 0 bs (T.keyed_indexFrom hd)
    have hl := T.lines_of_keeps (T.keeps_save 0 bs (T.indexFrom 0 as)) hkeyed.key
    have hdist := T.distinct_of_keyed hkeyed
    rw [h] at hl hdist
    exact ⟨hl, hdist⟩
  · intro h
    rw [T.save_of_continues h, values_indexFrom]

end Slots

end Collections

import LangGraph.Channels.Aggregates

namespace LangGraph

namespace Value

def overwrites (vs : List Value) : List Value := vs.filterMap getOverwrite

-- The values that stand before the first `Overwrite` of a batch.
def plainHead (vs : List Value) : List Value := vs.takeWhile (fun v => v.getOverwrite = Option.none)

variable {v w : Value} {vs : List Value}

theorem overwrites_cons_some (h : v.getOverwrite = some w) :
    overwrites (v :: vs) = w :: overwrites vs := by
  rw [overwrites, List.filterMap_cons_some h, overwrites]

theorem overwrites_cons_none (h : v.getOverwrite = Option.none) :
    overwrites (v :: vs) = overwrites vs := by
  rw [overwrites, List.filterMap_cons_none h, overwrites]

theorem plainHead_cons_some (h : v.getOverwrite = some w) : plainHead (v :: vs) = [] := by
  rw [plainHead, List.takeWhile_cons_of_neg (by simp [h])]

theorem plainHead_cons_none (h : v.getOverwrite = Option.none) :
    plainHead (v :: vs) = v :: plainHead vs := by
  rw [plainHead, List.takeWhile_cons_of_pos (by simp [h]), plainHead]

theorem plainHead_of_none (h : overwrites vs = []) : plainHead vs = vs := by
  induction vs with
  | nil => rfl
  | cons v vs ih =>
    cases hv : v.getOverwrite with
    | some w =>
      rw [overwrites_cons_some hv] at h
      cases h
    | none =>
      rw [overwrites_cons_none hv] at h
      rw [plainHead_cons_none hv, ih h]

end Value

namespace BinaryOperatorAggregate

open Value (overwrites plainHead overwrites_cons_some overwrites_cons_none plainHead_cons_some
  plainHead_cons_none plainHead_of_none)

variable {c : BinaryOperatorAggregate} {cur u w : Value} {vs : List Value}

section Fold

theorem fold_seen (c : BinaryOperatorAggregate) (cur : Value) (vs : List Value) :
    c.fold cur true vs =
      (c.withValue cur, if overwrites vs = [] then .ok true else .error .onlyOneOverwrite) := by
  induction vs with
  | nil => rfl
  | cons v vs ih =>
    cases hv : v.getOverwrite with
    | some w =>
      rw [overwrites_cons_some hv, fold, hv]
      rfl
    | none =>
      rw [overwrites_cons_none hv, fold, hv]
      exact ih

-- What the loop makes of a batch once the values before the first `Overwrite` are folded in.
def settled (c : BinaryOperatorAggregate) (u : Value) :
    List Value → BinaryOperatorAggregate × Except UpdateError Bool
  | [] => (c.withValue u, .ok true)
  | [w] => (c.withValue w, .ok true)
  | w :: _ :: _ => (c.withValue w, .error .onlyOneOverwrite)

theorem fold_ok (h : (plainHead vs).foldlM c.operator cur = .ok u) :
    c.fold cur false vs = c.settled u (overwrites vs) := by
  induction vs generalizing cur with
  | nil =>
    obtain rfl := Except.ok.inj h
    rfl
  | cons v vs ih =>
    cases hv : v.getOverwrite with
    | some w =>
      rw [overwrites_cons_some hv, fold, hv]
      simp only [Bool.false_eq_true, if_false]
      rw [fold_seen]
      cases overwrites vs with
      | nil => rfl
      | cons w' ws => rfl
    | none =>
      rw [plainHead_cons_none hv, List.foldlM_cons] at h
      cases hop : c.operator cur v with
      | error e =>
        rw [hop] at h
        cases h
      | ok next =>
        rw [hop] at h
        rw [overwrites_cons_none hv, fold, hv]
        simp only [Bool.false_eq_true, if_false, hop]
        exact ih h

theorem fold_error {e : UpdateError} (h : (plainHead vs).foldlM c.operator cur = .error e) :
    (c.fold cur false vs).2 = .error e := by
  induction vs generalizing cur with
  | nil => cases h
  | cons v vs ih =>
    cases hv : v.getOverwrite with
    | some w =>
      rw [plainHead_cons_some hv] at h
      cases h
    | none =>
      rw [plainHead_cons_none hv, List.foldlM_cons] at h
      rw [fold, hv]
      simp only [Bool.false_eq_true, if_false]
      cases hop : c.operator cur v with
      | error e' =>
        rw [hop] at h
        exact congrArg Except.error (Except.error.inj h)
      | ok next =>
        rw [hop] at h
        exact ih h

theorem fold_unwrapped (hop : ∀ a b w, c.operator a b = .ok w → w.getOverwrite = none)
    (hws : ∀ w ∈ overwrites vs, w.getOverwrite = none) (hcur : cur.getOverwrite = none)
    (h : (c.fold cur false vs).1.value = some u) : u.getOverwrite = none := by
  induction vs generalizing cur with
  | nil =>
    obtain rfl := Option.some.inj h
    exact hcur
  | cons v vs ih =>
    cases hv : v.getOverwrite with
    | some w =>
      rw [overwrites_cons_some hv] at hws
      rw [fold, hv] at h
      simp only [Bool.false_eq_true, if_false] at h
      rw [fold_seen] at h
      obtain rfl := Option.some.inj h
      exact hws w List.mem_cons_self
    | none =>
      rw [overwrites_cons_none hv] at hws
      rw [fold, hv] at h
      simp only [Bool.false_eq_true, if_false] at h
      cases hnext : c.operator cur v with
      | error e =>
        rw [hnext] at h
        obtain rfl := Option.some.inj h
        exact hcur
      | ok next =>
        rw [hnext] at h
        exact ih hws (hop cur v next hnext) h

end Fold

section Law

def leftFold (c : BinaryOperatorAggregate) (vs : List Value) : Except UpdateError (Option Value) :=
  match c.value, vs with
  | none, [] => .ok none
  | none, v :: vs => (vs.foldlM c.operator v).map some
  | some cur, vs => (vs.foldlM c.operator cur).map some

structure OverwriteLaw (c : BinaryOperatorAggregate) (vs : List Value) : Prop where
  several : 2 ≤ (overwrites vs).length → (c.update vs).2 = .error .onlyOneOverwrite
  single : ∀ w, overwrites vs = [w] → (c.update vs).2 = .ok true ∧ (c.update vs).1.value = some w
  folded : overwrites vs = [] → ∀ s, c.leftFold vs = .ok s →
    (c.update vs).2 = .ok (decide (vs ≠ [])) ∧ (c.update vs).1.value = s
  raised : overwrites vs = [] → ∀ e, c.leftFold vs = .error e → (c.update vs).2 = .error e
  -- Where neither the operator nor a payload is a wrapper, no wrapper is stored.
  unwrapped : (∀ a b w, c.operator a b = .ok w → w.getOverwrite = none) →
    (∀ w, c.value = some w → w.getOverwrite = none) →
    (∀ w ∈ overwrites vs, w.getOverwrite = none) →
    ∀ w, (c.update vs).1.value = some w → w.getOverwrite = none

-- The operator accepts what stands before the first `Overwrite`.
def Folds (c : BinaryOperatorAggregate) (cur : Value) (vs : List Value) : Prop :=
  overwrites vs ≠ [] → ∃ u, (plainHead vs).foldlM c.operator cur = .ok u

def KeepsLaw (c : BinaryOperatorAggregate) (vs : List Value) : Prop :=
  match c.value, vs with
  | some cur, vs => c.Folds cur vs
  | none, [] => True
  | none, v :: vs =>
      match v.getOverwrite with
      | none => c.Folds v vs
      | some w => (overwrites vs = [] ∧ vs.foldlM c.operator v = .ok w) ∨
          (2 ≤ (overwrites vs).length ∧ c.Folds v vs)

theorem foldlM_error {f : Value → Value → Except UpdateError Value} {e : UpdateError}
    (h : vs.foldlM f cur = .error e) : ∃ a b, f a b = .error e := by
  induction vs generalizing cur with
  | nil => cases h
  | cons v vs ih =>
    rw [List.foldlM_cons] at h
    cases hv : f cur v with
    | error e' =>
      rw [hv] at h
      exact ⟨cur, v, hv.trans (congrArg Except.error (Except.error.inj h))⟩
    | ok next =>
      rw [hv] at h
      exact ih h

theorem settled_several {ws : List Value} (h : 2 ≤ ws.length) :
    (c.settled u ws).2 = .error .onlyOneOverwrite := by
  match ws, h with
  | _ :: _ :: _, _ => rfl

theorem law_nil (c : BinaryOperatorAggregate) : c.OverwriteLaw [] where
  several h := absurd h (by decide)
  single w h := by cases h
  folded _ s hs := by
    refine ⟨rfl, ?_⟩
    unfold leftFold at hs
    split at hs
    · rename_i hvalue _
      exact hvalue.trans (Except.ok.inj hs)
    · rename_i heq
      cases heq
    · rename_i cur vs hvalue
      exact hvalue.trans (Except.ok.inj hs)
  raised _ e he := by
    unfold leftFold at he
    split at he
    · cases he
    · rename_i heq
      cases heq
    · cases he
  unwrapped _ hvalue _ := hvalue

-- A batch whose update is the loop over `rest` from `cur`.
theorem law_of_fold {rest : List Value} (hne : vs ≠ [])
    (hupdate : c.update vs = c.fold cur false rest) (hsame : overwrites vs = overwrites rest)
    (hleft : c.leftFold vs = (rest.foldlM c.operator cur).map some)
    (hcur : (∀ w, c.value = some w → w.getOverwrite = none) → cur.getOverwrite = none)
    (hfolds : c.Folds cur rest) : c.OverwriteLaw vs where
  several hlength := by
    rw [hsame] at hlength
    obtain ⟨u, hu⟩ := hfolds (List.ne_nil_of_length_pos (Nat.lt_of_lt_of_le Nat.two_pos hlength))
    rw [hupdate, fold_ok hu, settled_several hlength]
  single w hw := by
    rw [hsame] at hw
    obtain ⟨u, hu⟩ := hfolds (by simp [hw])
    rw [hupdate, fold_ok hu, hw]
    exact ⟨rfl, rfl⟩
  folded hnone s hs := by
    rw [hsame] at hnone
    rw [hleft] at hs
    cases hfold : rest.foldlM c.operator cur with
    | error e =>
      rw [hfold] at hs
      cases hs
    | ok u =>
      rw [hfold] at hs
      obtain rfl := Except.ok.inj hs
      rw [← plainHead_of_none hnone] at hfold
      rw [hupdate, fold_ok hfold, hnone, decide_eq_true hne]
      exact ⟨rfl, rfl⟩
  raised hnone e he := by
    rw [hsame] at hnone
    rw [hleft] at he
    cases hfold : rest.foldlM c.operator cur with
    | error e' =>
      rw [hfold] at he
      obtain rfl := Except.error.inj he
      rw [← plainHead_of_none hnone] at hfold
      rw [hupdate, fold_error hfold]
    | ok u =>
      rw [hfold] at he
      cases he
  unwrapped hop hvalue hws w hw := by
    rw [hsame] at hws
    rw [hupdate] at hw
    exact fold_unwrapped hop hws (hcur hvalue) hw

-- And where the law does hold, the operator took the values before an `Overwrite`.
theorem folds_of_law {rest : List Value} (herror : ∀ a b, c.operator a b ≠ .error .onlyOneOverwrite)
    (hupdate : c.update vs = c.fold cur false rest) (hsame : overwrites rest <:+ overwrites vs)
    (h : c.OverwriteLaw vs) : c.Folds cur rest := by
  intro hne
  cases hfold : (plainHead rest).foldlM c.operator cur with
  | ok u => exact ⟨u, rfl⟩
  | error e =>
    have hraises : (c.update vs).2 = .error e := hupdate ▸ fold_error hfold
    obtain ⟨a, b, hab⟩ := foldlM_error hfold
    have hnotone : e ≠ .onlyOneOverwrite := fun heq => herror a b (heq ▸ hab)
    have hpos : 0 < (overwrites rest).length := List.length_pos_iff.mpr hne
    have hle := hsame.length_le
    match hws : overwrites vs with
    | [] =>
      rw [hws] at hle
      simp only [List.length_nil] at hle
      omega
    | [w] =>
      rw [(h.single w hws).1] at hraises
      cases hraises
    | _ :: _ :: _ =>
      rw [h.several (by simp [hws])] at hraises
      exact absurd (Except.error.inj hraises).symm hnotone

section Wrapped

variable {rest : List Value}

theorem keeps_of_wrapped (herror : ∀ a b, c.operator a b ≠ .error .onlyOneOverwrite)
    (hupdate : c.update vs = c.fold cur false rest) (hsame : overwrites vs = w :: overwrites rest)
    (h : c.OverwriteLaw vs) :
    (overwrites rest = [] ∧ rest.foldlM c.operator cur = .ok w) ∨
      (2 ≤ (overwrites rest).length ∧ c.Folds cur rest) := by
  match hws : overwrites rest with
  | [] =>
    rw [hws] at hsame
    obtain ⟨hok, hvalue⟩ := h.single w hsame
    rw [hupdate] at hok hvalue
    rw [← plainHead_of_none hws]
    cases hfold : (plainHead rest).foldlM c.operator cur with
    | error e =>
      rw [fold_error hfold] at hok
      cases hok
    | ok u =>
      rw [fold_ok hfold, hws] at hvalue
      obtain rfl := Option.some.inj hvalue
      exact Or.inl ⟨rfl, rfl⟩
  | [w'] =>
    rw [hws] at hsame
    have hraises := h.several (by simp [hsame])
    rw [hupdate] at hraises
    cases hfold : (plainHead rest).foldlM c.operator cur with
    | error e =>
      rw [fold_error hfold] at hraises
      obtain ⟨a, b, hab⟩ := foldlM_error hfold
      rw [Except.error.inj hraises] at hab
      exact absurd hab (herror a b)
    | ok u =>
      rw [fold_ok hfold, hws] at hraises
      cases hraises
  | w₁ :: w₂ :: ws =>
    refine Or.inr ⟨Nat.le_add_left 2 ws.length, folds_of_law herror hupdate ?_ h⟩
    rw [hsame]
    exact List.suffix_cons w _

theorem law_of_lucky (hupdate : c.update vs = c.fold cur false rest)
    (hsame : overwrites vs = w :: overwrites rest) (hnone : overwrites rest = [])
    (hfold : rest.foldlM c.operator cur = .ok w) : c.OverwriteLaw vs := by
  rw [← plainHead_of_none hnone] at hfold
  rw [hnone] at hsame
  have hsettled : c.update vs = (c.withValue w, .ok true) := by
    rw [hupdate, fold_ok hfold, hnone]
    rfl
  refine ⟨fun hlength => ?_, fun w' hw' => ?_, fun hnil => ?_, fun hnil => ?_,
    fun _ _ hws u hu => ?_⟩
  · rw [hsame] at hlength
    exact absurd hlength (by simp)
  · rw [hsame] at hw'
    obtain rfl := (List.cons.inj hw').1
    rw [hsettled]
    exact ⟨rfl, rfl⟩
  · rw [hsame] at hnil
    cases hnil
  · rw [hsame] at hnil
    cases hnil
  · rw [hsettled] at hu
    obtain rfl := Option.some.inj hu
    exact hws w (hsame ▸ List.mem_singleton_self w)

theorem law_of_several (hupdate : c.update vs = c.fold cur false rest)
    (hsame : overwrites vs = w :: overwrites rest) (hlength : 2 ≤ (overwrites rest).length)
    (hfolds : c.Folds cur rest) : c.OverwriteLaw vs := by
  obtain ⟨u, hfold⟩ := hfolds
    (List.ne_nil_of_length_pos (Nat.lt_of_lt_of_le Nat.two_pos hlength))
  obtain ⟨w₁, w₂, ws, hws⟩ : ∃ w₁ w₂ ws, overwrites rest = w₁ :: w₂ :: ws := by
    match hws : overwrites rest with
    | [] =>
      rw [hws] at hlength
      exact absurd hlength (by simp)
    | [_] =>
      rw [hws] at hlength
      exact absurd hlength (by simp)
    | w₁ :: w₂ :: ws => exact ⟨w₁, w₂, ws, rfl⟩
  have hsettled : c.update vs = (c.withValue w₁, .error .onlyOneOverwrite) := by
    rw [hupdate, fold_ok hfold, hws]
    rfl
  rw [hws] at hsame
  refine ⟨fun _ => ?_, fun w' hw' => ?_, fun hnil => ?_, fun hnil => ?_,
    fun _ _ hall u hu => ?_⟩
  · rw [hsettled]
  · rw [hsame] at hw'
    cases hw'
  · rw [hsame] at hnil
    cases hnil
  · rw [hsame] at hnil
    cases hnil
  · rw [hsettled] at hu
    obtain rfl := Option.some.inj hu
    exact hall w₁ (hsame ▸ List.mem_cons_of_mem w List.mem_cons_self)

end Wrapped

theorem overwrite_law_iff (c : BinaryOperatorAggregate) (vs : List Value)
    (herror : ∀ a b, c.operator a b ≠ .error .onlyOneOverwrite) :
    c.OverwriteLaw vs ↔ c.KeepsLaw vs := by
  cases hvalue : c.value with
  | some cur =>
    have hupdate (v : Value) (rest : List Value) :
        c.update (v :: rest) = c.fold cur false (v :: rest) := by
      simp only [update, hvalue]
    have hkeeps : c.KeepsLaw vs ↔ c.Folds cur vs := by
      simp only [KeepsLaw, hvalue]
    rw [hkeeps]
    cases vs with
    | nil => exact ⟨fun _ h => absurd rfl h, fun _ => law_nil c⟩
    | cons v rest =>
      constructor
      · exact folds_of_law herror (hupdate v rest) List.suffix_rfl
      · refine law_of_fold (List.cons_ne_nil v rest) (hupdate v rest) rfl ?_ (fun h => h cur hvalue)
        simp only [leftFold, hvalue]
  | none =>
    cases vs with
    | nil =>
      have hkeeps : c.KeepsLaw [] := by
        simp only [KeepsLaw, hvalue]
      exact ⟨fun _ => hkeeps, fun _ => law_nil c⟩
    | cons v rest =>
      have hupdate : c.update (v :: rest) = c.fold v false rest := by
        simp only [update, hvalue]
      cases hv : v.getOverwrite with
      | none =>
        have hkeeps : c.KeepsLaw (v :: rest) ↔ c.Folds v rest := by
          simp only [KeepsLaw, hvalue, hv]
        have hsame : overwrites (v :: rest) = overwrites rest := overwrites_cons_none hv
        rw [hkeeps]
        constructor
        · exact folds_of_law herror hupdate (hsame ▸ List.suffix_rfl)
        · refine law_of_fold (List.cons_ne_nil v rest) hupdate hsame ?_ (fun _ => hv)
          simp only [leftFold, hvalue]
      | some w =>
        have hkeeps : c.KeepsLaw (v :: rest) ↔
            (overwrites rest = [] ∧ rest.foldlM c.operator v = .ok w) ∨
              (2 ≤ (overwrites rest).length ∧ c.Folds v rest) := by
          simp only [KeepsLaw, hvalue, hv]
        rw [hkeeps]
        constructor
        · exact keeps_of_wrapped herror hupdate (overwrites_cons_some hv)
        · rintro (⟨hnone, hfold⟩ | ⟨hlength, hfolds⟩)
          · exact law_of_lucky hupdate (overwrites_cons_some hv) hnone hfold
          · exact law_of_several hupdate (overwrites_cons_some hv) hlength hfolds

def addInts : Value → Value → Except UpdateError Value
  | .scalar (.int a), .scalar (.int b) => .ok (.int (a + b))
  | _, _ => .error (.raised 0)

theorem addInts_error (a b : Value) : addInts a b ≠ .error .onlyOneOverwrite := by
  unfold addInts
  split
  · nofun
  · nofun

def neverWritten : BinaryOperatorAggregate := ⟨addInts, none, none, nofun⟩

theorem overwrite_law_never_written :
    neverWritten.OverwriteLaw [.int 1, .int 2, .overwrite (.int 5), .int 3] ↔
      neverWritten.KeepsLaw [.int 1, .int 2, .overwrite (.int 5), .int 3] :=
  overwrite_law_iff neverWritten _ addInts_error

-- The first value of an empty channel is stored as it is.
theorem wrapper_is_stored : ¬ neverWritten.OverwriteLaw [.overwrite (.int 3)] ∧
    (neverWritten.update [.overwrite (.int 3)]).1.value = some (.overwrite (.int 3)) := by
  refine ⟨fun h => ?_, rfl⟩
  have hpayload := (h.single (.int 3) (by decide)).2
  exact absurd hpayload (by decide)

end Law

end BinaryOperatorAggregate

end LangGraph

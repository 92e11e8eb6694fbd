import LangGraph.Collections.Picked
import LangGraph.Hotmart.AccountStatus
import LangGraph.Hotmart.Campaigns
import LangGraph.Hotmart.ModelSends

namespace LangGraph

open Collections Store

namespace Hotmart

section Greedy

variable {F : Type} [Amounts F]

def total (plans : List (CampaignPlan F)) : F :=
  (plans.map CampaignPlan.dailyBudget).foldl (· + ·) 0.0

def runway (plans : List (CampaignPlan F)) : F := total plans * 3.0

def promising (p : CampaignPlan F) : Bool := !Floats.le p.score 0.0

def affords (available cost : F) : Bool :=
  !(!Floats.eq available Amounts.inf && Amounts.gt cost available)

def admits (g : Guardrails F) (available : F) (approved : List (CampaignPlan F))
    (p : CampaignPlan F) : Bool :=
  decide (approved.length < g.maxNewCampaignsPerRun.toNat) &&
    (affords available (runway (approved ++ [capped g p])) && promising p)

namespace AdAccountStatus

def capRoom (status : AdAccountStatus F) : F :=
  status.capLeft.getD Amounts.inf

def creditRoom (status : AdAccountStatus F) : F :=
  if Amounts.gt status.prepaidBalance 0.0 then status.prepaidBalance
  else if status.hasValidFunding then Amounts.inf else 0.0

theorem available_eq (status : AdAccountStatus F) :
    status.available = Amounts.max 0.0 (Amounts.min status.capRoom status.creditRoom) := by
  rw [available, capRoom, capLeft]
  split <;> rfl

end AdAccountStatus

variable {g : Guardrails F} {available : F} {s : Selection F} {p : CampaignPlan F}
  {plans : List (CampaignPlan F)}

theorem total_append (plans : List (CampaignPlan F)) (p : CampaignPlan F) :
    total (plans ++ [p]) = total plans + p.dailyBudget := by
  rw [total, List.map_append, List.foldl_append]
  rfl

theorem capped_score (g : Guardrails F) (p : CampaignPlan F) : (capped g p).score = p.score := by
  rw [capped]
  split <;> rfl

theorem Selection.budgetUsed_noted (g : Guardrails F) (s : Selection F) (p : CampaignPlan F) :
    (s.noted g p).budgetUsed = s.budgetUsed := by
  rw [noted]
  split <;> rfl

theorem Selection.weigh_eq (available : F) (p : CampaignPlan F)
    (hs : s.budgetUsed = total s.approved) :
    (s.weigh available p).approved =
        (if affords available (runway (s.approved ++ [p])) && promising p then s.approved ++ [p]
          else s.approved) ∧
      (s.weigh available p).budgetUsed = total (s.weigh available p).approved := by
  have hcost : (s.budgetUsed + p.dailyBudget) * 3.0 = runway (s.approved ++ [p]) := by
    rw [hs, runway, total_append]
  rw [weigh, hcost]
  cases hdear : !Floats.eq available Amounts.inf &&
      Amounts.gt (runway (s.approved ++ [p])) available with
  | true =>
    rw [affords, hdear]
    exact ⟨rfl, hs⟩
  | false =>
    rw [affords, hdear, promising]
    cases Floats.le p.score 0.0 with
    | true => exact ⟨rfl, hs⟩
    | false =>
      refine ⟨rfl, ?_⟩
      exact (congrArg (· + p.dailyBudget) hs).trans (total_append _ _).symm

theorem Selection.consider_eq (g : Guardrails F) (available : F) (p : CampaignPlan F)
    (hs : s.budgetUsed = total s.approved) :
    (s.consider g available p).approved =
        (if admits g available s.approved p then s.approved ++ [capped g p] else s.approved) ∧
      (s.consider g available p).budgetUsed = total (s.consider g available p).approved := by
  rw [consider]
  split
  · rename_i hfull
    have hlength : ¬ s.approved.length < g.maxNewCampaignsPerRun.toNat := by omega
    rw [admits, decide_eq_false hlength]
    exact ⟨rfl, hs⟩
  · rename_i hroom
    have hlength : s.approved.length < g.maxNewCampaignsPerRun.toNat := by omega
    have hnoted : (s.noted g p).budgetUsed = total (s.noted g p).approved := by
      rw [budgetUsed_noted, approved_noted, hs]
    have hpromising : promising (capped g p) = promising p := by
      rw [promising, promising, capped_score]
    have hweigh := weigh_eq available (capped g p) hnoted
    rw [approved_noted, hpromising] at hweigh
    rw [admits, decide_eq_true hlength, Bool.true_and]
    exact hweigh

-- The loop picks greedily.
theorem selectCampaigns_eq_picked (catalog : List (CampaignPlan F)) (status : AdAccountStatus F)
    (settings : Settings F) :
    (selectCampaigns catalog status settings).1 =
      if status.isActive then
        picked (admits settings.guardrails status.available) (capped settings.guardrails) []
          catalog
      else [] := by
  have hfold (s : Selection F) (hs : s.budgetUsed = total s.approved) :
      (catalog.foldl (Selection.consider settings.guardrails status.available) s).approved =
        picked (admits settings.guardrails status.available) (capped settings.guardrails)
          s.approved catalog := by
    induction catalog generalizing s with
    | nil => rfl
    | cons p catalog ih =>
      obtain ⟨happroved, hused⟩ :=
        Selection.consider_eq settings.guardrails status.available p hs
      rw [List.foldl_cons, ih _ hused, happroved]
      rfl
  rw [selectCampaigns]
  cases status.isActive with
  | true => exact hfold ⟨[], [], 0.0⟩ rfl
  | false => rfl

-- The plans fit the money that the account has.
structure Fits (credit cap : Option F) (settings : Settings F) (plans : List (CampaignPlan F)) :
    Prop where
  few : (plans.length : Int) ≤ settings.guardrails.maxNewCampaignsPerRun
  small : ∀ p ∈ plans, Floats.le p.dailyBudget settings.guardrails.maxDailyBudget = true
  credit : ∀ b, credit = some b → Floats.le (runway plans) b = true
  cap : ∀ l, cap = some l → Floats.le (runway plans) l = true

-- Some promising plan fits into what the cap leaves.
structure Selectable (cap : Option F) (status : AdAccountStatus F) (settings : Settings F)
    (catalog : List (CampaignPlan F)) : Prop where
  active : status.isActive = true
  funded : status.hasValidFunding = true
  room : 0 < settings.guardrails.maxNewCampaignsPerRun
  affordable : ∃ p ∈ catalog, promising p = true ∧ ∀ l, cap = some l →
    Floats.le ((capped settings.guardrails p).dailyBudget * 3.0) l = true

-- Three days of as many promising plans as may be new, each at the maximum.
def forcedRunway (status : AdAccountStatus F) (settings : Settings F)
    (catalog : List (CampaignPlan F)) : F :=
  let taken := if status.isActive then
      min settings.guardrails.maxNewCampaignsPerRun.toNat (catalog.filter promising).length
    else 0
  Amounts.count taken * settings.guardrails.maxDailyBudget * 3.0

structure Covered (credit cap : Option F) (status : AdAccountStatus F) (settings : Settings F)
    (catalog : List (CampaignPlan F)) : Prop where
  few : 0 ≤ settings.guardrails.maxNewCampaignsPerRun
  credit : ∀ b, credit = some b →
    if Floats.lt 0.0 settings.guardrails.maxDailyBudget then
      Floats.lt 0.0 b = true ∨ Floats.eq b 0.0 = true ∧ ¬ Selectable cap status settings catalog
    else Floats.le (forcedRunway status settings catalog) b = true
  cap : ∀ l, cap = some l →
    if Floats.lt 0.0 settings.guardrails.maxDailyBudget then Floats.le 0.0 l = true
    else Floats.le (forcedRunway status settings catalog) l = true

end Greedy

section Exact

variable [ExactTexts]

def Priced (m : Rat) (p : CampaignPlan ExtRat) : Prop :=
  ∃ b, p.dailyBudget = .fin b ∧ (0 < m → 0 < b) ∧ (m ≤ 0 → m ≤ b)

variable {m k c q : Rat} {x y : ExtRat} {p : CampaignPlan ExtRat}
  {settings : Settings ExtRat}

theorem priced_share (hm : settings.guardrails.maxDailyBudget = .fin m)
    (hp : p.dailyBudget = Amounts.min (settings.guardrails.maxDailyBudget * .fin k) y)
    (hk : 0 < k) (hle : k ≤ 1) (hy : ExtRat.lt (.fin 0) y = true) : Priced m p := by
  have hpos (hm : 0 < m) : 0 < m * k := mul_pos hm hk
  have hneg (hm : m ≤ 0) : m ≤ m * k := le_mul_of_le_one_right hm hle
  rw [Priced, hp, hm, ExtRat.fin_mul, Amounts.min]
  split
  · rename_i hlt
    cases y with
    | fin b =>
      have hb : 0 < b := of_decide_eq_true hy
      exact ⟨b, rfl, fun _ => hb, fun hm => hm.trans hb.le⟩
    | inf => cases hlt
    | ninf => cases hy
    | nan => cases hy
  · exact ⟨m * k, rfl, hpos, hneg⟩

theorem max_pos (hc : 0 < c) (x : ExtRat) :
    ExtRat.lt (.fin 0) (Amounts.max (.fin c) x) = true := by
  rw [Amounts.max]
  split
  · rename_i hlt
    cases x with
    | fin a =>
      have hca : c < a := of_decide_eq_true hlt
      exact decide_eq_true (hc.trans hca)
    | inf => rfl
    | ninf => cases hlt
    | nan => cases hlt
  · exact decide_eq_true hc

theorem Priced.capped {g : Guardrails ExtRat} (hg : g.maxDailyBudget = .fin m) (h : Priced m p) :
    ∃ b, (capped g p).dailyBudget = .fin b ∧ b ≤ m ∧ (0 < m → 0 < b) ∧ (m ≤ 0 → b = m) := by
  obtain ⟨b, hb, hpos, hle⟩ := h
  rw [Hotmart.capped, hb, hg]
  split
  · exact ⟨m, rfl, le_refl m, id, fun _ => rfl⟩
  · rename_i hlt
    have hbm : b ≤ m := not_lt.mp (fun hmb => hlt (decide_eq_true hmb))
    exact ⟨b, hb, hbm, hpos, fun hm => le_antisymm hbm (hle hm)⟩

theorem priced_penalised {lower : String → String} {names : List String} (h : Priced m p) :
    Priced m (penalised lower names p) := by
  rw [penalised]
  split
  · exact h
  · exact h

theorem priced_catalog (hm : settings.guardrails.maxDailyBudget = .fin m)
    (lower : String → String) (current : Option (SalesWindow ExtRat))
    (campaigns : List (CampaignPerformance ExtRat)) :
    ∀ p ∈ buildCampaignCatalog lower current campaigns settings, Priced m p := by
  intro p hp
  rw [buildCampaignCatalog, List.mem_mergeSort] at hp
  obtain ⟨plan, hplan, rfl⟩ := List.mem_map.mp hp
  refine priced_penalised ?_
  simp only [List.mem_cons, List.not_mem_nil, or_false] at hplan
  rcases hplan with rfl | rfl | rfl | rfl | rfl
  · exact priced_share hm rfl (by norm_num) (by norm_num) (max_pos (by norm_num) _)
  · exact priced_share hm rfl (by norm_num) (by norm_num) (max_pos (by norm_num) _)
  · exact priced_share hm rfl (by norm_num) (by norm_num) (max_pos (by norm_num) _)
  · exact priced_share hm rfl (by norm_num) (by norm_num) (decide_eq_true (by norm_num))
  · exact priced_share hm rfl (by norm_num) (by norm_num) (decide_eq_true (by norm_num))

theorem affords_fin (a q : Rat) : affords (ExtRat.fin a) (.fin q) = decide (q ≤ a) := by
  have hlt : affords (ExtRat.fin a) (.fin q) = !decide (a < q) := rfl
  rw [hlt, ← decide_not]
  exact decide_eq_decide.mpr not_lt

theorem affords_max (hq : 0 < q) (x : ExtRat) :
    affords (Amounts.max 0.0 x) (.fin q) = ExtRat.le (.fin q) x := by
  rw [ExtRat.zero_literal, Amounts.max]
  have hzero : affords (ExtRat.fin 0) (.fin q) = false := by
    rw [affords_fin]
    exact decide_eq_false (not_le.mpr hq)
  cases x with
  | fin a =>
    split
    · exact affords_fin a q
    · rename_i hlt
      have ha : a ≤ 0 := not_lt.mp (fun ha => hlt (decide_eq_true ha))
      rw [hzero, ExtRat.le_fin]
      exact (decide_eq_false (not_le.mpr (ha.trans_lt hq))).symm
  | inf => rfl
  | ninf => exact hzero
  | nan => exact hzero

theorem affords_free (hq : q ≤ 0) (x : ExtRat) : affords (Amounts.max 0.0 x) (.fin q) = true := by
  rw [ExtRat.zero_literal, Amounts.max]
  have hzero : affords (ExtRat.fin 0) (.fin q) = true := by
    rw [affords_fin]
    exact decide_eq_true hq
  cases x with
  | fin a =>
    split
    · rename_i hlt
      have ha : 0 < a := of_decide_eq_true hlt
      rw [affords_fin]
      exact decide_eq_true (hq.trans ha.le)
    · exact hzero
  | inf => rfl
  | ninf => exact hzero
  | nan => exact hzero

theorem le_min (hy : ExtRat.eq y y = true) (x : ExtRat) :
    ExtRat.le (.fin q) (Amounts.min x y) = (ExtRat.le (.fin q) x && ExtRat.le (.fin q) y) := by
  rw [Amounts.min]
  split
  · rename_i hlt
    cases hle : ExtRat.le (.fin q) y with
    | true => rw [ExtRat.le_trans hle (ExtRat.le_of_lt hlt), Bool.and_self]
    | false => rw [Bool.and_false]
  · rename_i hlt
    cases hle : ExtRat.le (.fin q) x with
    | true =>
      rw [ExtRat.le_of_le_of_not_lt hy hle (Bool.eq_false_iff.mpr hlt), Bool.and_self]
    | false => rw [Bool.false_and]

theorem eq_creditRoom (status : AdAccountStatus ExtRat) :
    ExtRat.eq status.creditRoom status.creditRoom = true := by
  rw [AdAccountStatus.creditRoom]
  split
  · rename_i hpos
    cases hcredit : status.prepaidBalance with
    | fin b => exact decide_eq_true (rfl : b = b)
    | inf => rfl
    | ninf => rfl
    | nan =>
      rw [hcredit] at hpos
      cases hpos
  · split
    · rfl
    · rw [ExtRat.zero_literal]
      rfl

theorem affords_available (hq : 0 < q) (status : AdAccountStatus ExtRat) :
    affords status.available (.fin q) =
      (ExtRat.le (.fin q) status.capRoom && ExtRat.le (.fin q) status.creditRoom) := by
  rw [status.available_eq, affords_max hq, le_min (eq_creditRoom status)]

variable {u : Rat} {plans catalog : List (CampaignPlan ExtRat)} {status : AdAccountStatus ExtRat}
  {g : Guardrails ExtRat}

theorem runway_fin (h : total plans = .fin u) : runway plans = .fin (u * 3) := by
  rw [runway, h, ExtRat.three_literal]
  rfl

theorem total_nil : total ([] : List (CampaignPlan ExtRat)) = .fin 0 := ExtRat.zero_literal

theorem picked_le {available : ExtRat} (hg : g.maxDailyBudget = .fin m)
    (hpriced : ∀ p ∈ catalog, Priced m p) :
    ∀ p ∈ picked (admits g available) (capped g) [] catalog,
      ExtRat.le p.dailyBudget (.fin m) = true := by
  refine picked_induction (P := fun plans : List (CampaignPlan ExtRat) =>
    ∀ p ∈ plans, ExtRat.le p.dailyBudget (.fin m) = true) (List.forall_mem_nil _) ?_
  intro chosen p hp hchosen _ plan hplan
  rcases List.mem_append.mp hplan with hold | hnew
  · exact hchosen plan hold
  · obtain ⟨b, hb, hle, -, -⟩ := (hpriced p hp).capped hg
    rw [List.mem_singleton.mp hnew, hb]
    exact decide_eq_true hle

-- What has been picked can be paid for three days out of either room.
def Within (status : AdAccountStatus ExtRat) (plans : List (CampaignPlan ExtRat)) : Prop :=
  ∃ u, 0 ≤ u ∧ total plans = .fin u ∧
    (plans ≠ [] → 0 < u ∧ ExtRat.le (.fin (u * 3)) status.capRoom = true ∧
      ExtRat.le (.fin (u * 3)) status.creditRoom = true)

theorem picked_within (hg : g.maxDailyBudget = .fin m) (hm : 0 < m)
    (hpriced : ∀ p ∈ catalog, Priced m p) :
    Within status (picked (admits g status.available) (capped g) [] catalog) := by
  refine picked_induction (P := Within status) ⟨0, le_refl 0, total_nil, fun h => absurd rfl h⟩ ?_
  intro chosen p hp ⟨u, hu, htotal, _⟩ hadmits
  obtain ⟨b, hb, -, hpos, -⟩ := (hpriced p hp).capped hg
  have hmore : total (chosen ++ [capped g p]) = .fin (u + b) := by
    rw [total_append, htotal, hb]
    rfl
  have hsum : 0 < u + b := add_pos_of_nonneg_of_pos hu (hpos hm)
  have haffords : affords status.available (ExtRat.fin ((u + b) * 3)) = true := by
    rw [← runway_fin hmore]
    exact (Bool.and_eq_true_iff.mp (Bool.and_eq_true_iff.mp hadmits).2).1
  rw [affords_available (by positivity), Bool.and_eq_true_iff] at haffords
  exact ⟨u + b, hsum.le, hmore, fun _ => ⟨hsum, haffords⟩⟩

theorem admits_first (hg : g.maxDailyBudget = .fin m) (hm : 0 < m) (hp : Priced m p) :
    admits g status.available [] p = true ↔ 0 < g.maxNewCampaignsPerRun ∧
      (ExtRat.le ((capped g p).dailyBudget * 3.0) status.capRoom = true ∧
        ExtRat.le ((capped g p).dailyBudget * 3.0) status.creditRoom = true) ∧
      promising p = true := by
  obtain ⟨b, hb, -, hpos, -⟩ := hp.capped hg
  have htotal : total ([] ++ [capped g p]) = .fin (0 + b) := by
    rw [total_append, total_nil, hb]
    rfl
  have hcost : (capped g p).dailyBudget * 3.0 = .fin (b * 3) := by
    rw [hb, ExtRat.three_literal]
    rfl
  have hb0 : 0 < b := hpos hm
  rw [admits, runway_fin htotal, zero_add, affords_available (by positivity), hcost,
    Bool.and_eq_true_iff, Bool.and_eq_true_iff, Bool.and_eq_true_iff, decide_eq_true_iff,
    List.length_nil, Int.lt_toNat]
  rfl

theorem picked_nonpos (hg : g.maxDailyBudget = .fin m) (hm : m ≤ 0)
    (hpriced : ∀ p ∈ catalog, Priced m p) :
    total (picked (admits g status.available) (capped g) [] catalog) =
      .fin ((min g.maxNewCampaignsPerRun.toNat (catalog.filter promising).length : Nat) * m) := by
  have hstep (chosen : List (CampaignPlan ExtRat)) (p) (hp : p ∈ catalog)
      (hchosen : total chosen = .fin (chosen.length * m)) :
      total (chosen ++ [capped g p]) = .fin ((chosen ++ [capped g p]).length * m) := by
    obtain ⟨b, hb, -, -, hsame⟩ := (hpriced p hp).capped hg
    rw [total_append, hchosen, hb, hsame hm, List.length_append, List.length_singleton,
      Nat.cast_add, Nat.cast_one, add_mul, one_mul]
    rfl
  have hadmits (chosen : List (CampaignPlan ExtRat)) (p) (hp : p ∈ catalog)
      (hchosen : total chosen = .fin (chosen.length * m)) :
      admits g status.available chosen p =
        (decide (chosen.length < g.maxNewCampaignsPerRun.toNat) && promising p) := by
    have hcost : ((chosen ++ [capped g p]).length * m : Rat) * 3 ≤ 0 := by
      have hlength : (0 : Rat) ≤ (chosen ++ [capped g p]).length := Nat.cast_nonneg _
      have hproduct := mul_nonpos_of_nonneg_of_nonpos hlength hm
      linarith
    rw [admits, runway_fin (hstep chosen p hp hchosen), status.available_eq, affords_free hcost,
      Bool.true_and]
  have htotal : total (picked (admits g status.available) (capped g) [] catalog) = .fin
      ((picked (admits g status.available) (capped g) [] catalog).length * m) :=
    picked_induction (P := fun plans => total plans = .fin (plans.length * m))
      (total_nil.trans (by simp)) (fun chosen p hp hchosen _ => hstep chosen p hp hchosen)
  rw [htotal, length_picked hadmits hstep (total_nil.trans (by simp)) (Nat.zero_le _),
    List.length_nil, Nat.zero_add]

section Plans

variable {l : ExtRat}

theorem few_iff (catalog : List (CampaignPlan ExtRat)) (status : AdAccountStatus ExtRat)
    (settings : Settings ExtRat) :
    ((selectCampaigns catalog status settings).1.length : Int) ≤
      settings.guardrails.maxNewCampaignsPerRun ↔
        0 ≤ settings.guardrails.maxNewCampaignsPerRun := by
  have hlength := selectCampaigns_length catalog status settings
  omega

theorem select_le (hg : settings.guardrails.maxDailyBudget = .fin m)
    (hpriced : ∀ p ∈ catalog, Priced m p) :
    ∀ p ∈ (selectCampaigns catalog status settings).1,
      ExtRat.le p.dailyBudget (.fin m) = true := by
  rw [selectCampaigns_eq_picked]
  split
  · exact picked_le hg hpriced
  · exact List.forall_mem_nil _

theorem select_within (hg : settings.guardrails.maxDailyBudget = .fin m) (hm : 0 < m)
    (hpriced : ∀ p ∈ catalog, Priced m p) :
    Within status (selectCampaigns catalog status settings).1 := by
  rw [selectCampaigns_eq_picked]
  split
  · exact picked_within hg hm hpriced
  · exact ⟨0, le_refl 0, total_nil, fun h => absurd rfl h⟩

theorem select_runway (hg : settings.guardrails.maxDailyBudget = .fin m) (hm : m ≤ 0)
    (hpriced : ∀ p ∈ catalog, Priced m p) :
    runway (selectCampaigns catalog status settings).1 = forcedRunway status settings catalog := by
  rw [selectCampaigns_eq_picked, forcedRunway, hg, ExtRat.three_literal]
  split
  · rw [runway_fin (picked_nonpos hg hm hpriced)]
    rfl
  · rw [runway_fin total_nil]
    exact congrArg ExtRat.fin (by simp : (0 : Rat) * 3 = ((0 : Nat) : Int) * m * 3)

theorem le_capRoom : ExtRat.le (.fin q) status.capRoom = true ↔
    ∀ l, status.capLeft = some l → ExtRat.le (.fin q) l = true := by
  rw [AdAccountStatus.capRoom]
  cases status.capLeft with
  | none => exact ⟨fun _ l hl => (by cases hl), fun _ => rfl⟩
  | some room => exact ⟨fun h l hl => Option.some_inj.mp hl ▸ h, fun h => h room rfl⟩

theorem le_creditRoom_zero (hq : 0 < q) (hbalance : status.prepaidBalance = .fin 0) :
    ExtRat.le (.fin q) status.creditRoom = true ↔ status.hasValidFunding = true := by
  have hnot : ¬ Amounts.gt (ExtRat.fin 0) 0.0 = true := by
    rw [ExtRat.zero_literal]
    exact Bool.false_ne_true
  rw [AdAccountStatus.creditRoom, hbalance, if_neg hnot, ExtRat.zero_literal]
  cases status.hasValidFunding with
  | true => exact ⟨fun _ => rfl, fun _ => rfl⟩
  | false => exact ⟨fun h => absurd (of_decide_eq_true h) (not_le.mpr hq), fun h => by cases h⟩

-- Without credit, something is selected when it fits under the cap.
theorem select_eq_nil (hg : settings.guardrails.maxDailyBudget = .fin m) (hm : 0 < m)
    (hpriced : ∀ p ∈ catalog, Priced m p)
    (hbalance : status.prepaidBalance = .fin 0) :
    (selectCampaigns catalog status settings).1 = [] ↔
      ¬ Selectable status.capLeft status settings catalog := by
  have hadmits (p) (hp : p ∈ catalog) :
      admits settings.guardrails status.available [] p = true ↔
        0 < settings.guardrails.maxNewCampaignsPerRun ∧
          ((∀ l, status.capLeft = some l → Floats.le ((capped settings.guardrails p).dailyBudget * 3.0) l =
            true) ∧ status.hasValidFunding = true) ∧ promising p = true := by
    obtain ⟨b, hb, -, hpos, -⟩ := (hpriced p hp).capped hg
    have hcost : (capped settings.guardrails p).dailyBudget * 3.0 = .fin (b * 3) := by
      rw [hb, ExtRat.three_literal]
      rfl
    have hb0 : 0 < b * 3 := by
      have := hpos hm
      positivity
    rw [admits_first hg hm (hpriced p hp), hcost, le_capRoom,
      le_creditRoom_zero hb0 hbalance]
    rfl
  rw [selectCampaigns_eq_picked]
  cases hactive : status.isActive with
  | false =>
    refine ⟨fun _ h => ?_, fun _ => rfl⟩
    rw [h.active] at hactive
    cases hactive
  | true =>
    rw [if_pos rfl, picked_eq_nil]
    constructor
    · intro hall h
      obtain ⟨p, hp, hpromising, hfits⟩ := h.affordable
      have hpicked := (hadmits p hp).mpr ⟨h.room, ⟨hfits, h.funded⟩, hpromising⟩
      rw [hall p hp] at hpicked
      cases hpicked
    · intro hnone p hp
      refine Bool.eq_false_iff.mpr (fun hpicked => hnone ?_)
      obtain ⟨hroom, ⟨hfits, hfunded⟩, hpromising⟩ := (hadmits p hp).mp hpicked
      exact ⟨hactive, hfunded, hroom, p, hp, hpromising, hfits⟩

theorem credit_iff (hg : settings.guardrails.maxDailyBudget = .fin m) (hm : 0 < m)
    (hpriced : ∀ p ∈ catalog, Priced m p) :
    ExtRat.le (runway (selectCampaigns catalog status settings).1) status.prepaidBalance = true ↔
      ExtRat.lt (.fin 0) status.prepaidBalance = true ∨
        ExtRat.eq status.prepaidBalance (.fin 0) = true ∧
          ¬ Selectable status.capLeft status settings catalog := by
  obtain ⟨u, hu, htotal, hrooms⟩ : Within status (selectCampaigns catalog status settings).1 :=
    select_within hg hm hpriced
  have hempty (h : (selectCampaigns catalog status settings).1 = []) : u = 0 := by
    rw [h, total_nil] at htotal
    exact (ExtRat.fin.inj htotal).symm
  rw [runway_fin htotal]
  cases hbalance : status.prepaidBalance with
  | fin b =>
    rw [ExtRat.le_fin, ExtRat.lt_fin, ExtRat.eq_fin, decide_eq_true_iff, decide_eq_true_iff,
      decide_eq_true_iff]
    constructor
    · intro hle
      by_cases hb : 0 < b
      · exact .inl hb
      · have hb0 : b = 0 := by linarith
        refine .inr ⟨hb0, (select_eq_nil hg hm hpriced (hb0 ▸ hbalance)).mp ?_⟩
        by_contra hne
        have hpos := (hrooms hne).1
        linarith
    · rintro (hb | ⟨hb, hnone⟩)
      · by_cases hne : (selectCampaigns catalog status settings).1 = []
        · rw [hempty hne, zero_mul]
          exact hb.le
        · have hcredit : status.creditRoom = .fin b := by
            rw [AdAccountStatus.creditRoom, hbalance, ExtRat.zero_literal]
            exact if_pos (decide_eq_true hb)
          have hle := (hrooms hne).2.2
          rw [hcredit] at hle
          exact of_decide_eq_true hle
      · have hnil := (select_eq_nil hg hm hpriced (hb ▸ hbalance)).mpr hnone
        rw [hempty hnil, hb, zero_mul]
  | inf => exact ⟨fun _ => .inl rfl, fun _ => rfl⟩
  | ninf => exact ⟨fun h => (by cases h), fun h => (by rcases h with h | ⟨h, -⟩ <;> cases h)⟩
  | nan => exact ⟨fun h => (by cases h), fun h => (by rcases h with h | ⟨h, -⟩ <;> cases h)⟩

theorem cap_iff (hg : settings.guardrails.maxDailyBudget = .fin m) (hm : 0 < m)
    (hpriced : ∀ p ∈ catalog, Priced m p) (hcap : status.capLeft = some l) :
    ExtRat.le (runway (selectCampaigns catalog status settings).1) l = true ↔
      ExtRat.le (.fin 0) l = true := by
  obtain ⟨u, hu, htotal, hrooms⟩ : Within status (selectCampaigns catalog status settings).1 :=
    select_within hg hm hpriced
  rw [runway_fin htotal]
  constructor
  · intro hle
    have hnonneg : ExtRat.le (.fin 0) (.fin (u * 3)) = true := decide_eq_true (by positivity)
    exact ExtRat.le_trans hnonneg hle
  · intro hle
    by_cases hne : (selectCampaigns catalog status settings).1 = []
    · rw [hne, total_nil] at htotal
      rw [← ExtRat.fin.inj htotal, zero_mul]
      exact hle
    · have hroom := (hrooms hne).2.1
      rw [AdAccountStatus.capRoom, hcap] at hroom
      exact hroom

end Plans

open MetaAds

theorem covered_credit (hg : settings.guardrails.maxDailyBudget = .fin m)
    (hpriced : ∀ p ∈ catalog, Priced m p) :
    ExtRat.le (runway (selectCampaigns catalog status settings).1) status.prepaidBalance = true ↔
      if Floats.lt 0.0 settings.guardrails.maxDailyBudget then
        Floats.lt 0.0 status.prepaidBalance = true ∨
          Floats.eq status.prepaidBalance 0.0 = true ∧
            ¬ Selectable status.capLeft status settings catalog
      else Floats.le (forcedRunway status settings catalog) status.prepaidBalance = true := by
  rw [hg, ExtRat.zero_literal]
  split
  · rename_i hm
    exact credit_iff hg (of_decide_eq_true hm) hpriced
  · rename_i hm
    have hnonpos : m ≤ 0 := not_lt.mp (fun hpos => hm (decide_eq_true hpos))
    rw [select_runway hg hnonpos hpriced]
    rfl

theorem covered_cap (hg : settings.guardrails.maxDailyBudget = .fin m)
    (hpriced : ∀ p ∈ catalog, Priced m p) (hcap : status.capLeft = some l) :
    ExtRat.le (runway (selectCampaigns catalog status settings).1) l = true ↔
      if Floats.lt 0.0 settings.guardrails.maxDailyBudget then Floats.le 0.0 l = true
      else Floats.le (forcedRunway status settings catalog) l = true := by
  rw [hg, ExtRat.zero_literal]
  split
  · rename_i hm
    exact cap_iff hg (of_decide_eq_true hm) hpriced hcap
  · rename_i hm
    have hnonpos : m ≤ 0 := not_lt.mp (fun hpos => hm (decide_eq_true hpos))
    rw [select_runway hg hnonpos hpriced]
    rfl

theorem plans_fit_iff {t : AnswerTexts} {account : String} {data : List (String × Json ExtRat)}
    (hstatus : getAccountStatus t account data = .ok status)
    (hg : settings.guardrails.maxDailyBudget = .fin m)
    (current : Option (SalesWindow ExtRat)) (campaigns : List (CampaignPerformance ExtRat)) :
    let catalog := buildCampaignCatalog t.lower current campaigns settings
    Fits (prepaidCredit t data) (MetaAds.capLeft data) settings
        (selectCampaigns catalog status settings).1 ↔
      Covered (prepaidCredit t data) (MetaAds.capLeft data) status settings catalog := by
  intro catalog
  have hread := getAccountStatus_readFrom hstatus
  have hpriced : ∀ p ∈ catalog, Priced m p := priced_catalog hg t.lower current campaigns
  constructor
  · intro h
    refine ⟨(few_iff catalog status settings).mp h.few, fun b hb => ?_, fun l hl => ?_⟩
    · have hpaid := h.credit b hb
      rw [← hread.credit b hb] at hpaid ⊢
      rw [hread.cap]
      exact (covered_credit hg hpriced).mp hpaid
    · exact (covered_cap hg hpriced (hread.cap ▸ hl)).mp (h.cap l hl)
  · intro h
    refine ⟨(few_iff catalog status settings).mpr h.few, ?_, fun b hb => ?_, fun l hl => ?_⟩
    · rw [hg]
      exact select_le hg hpriced
    · have hpaid := h.credit b hb
      rw [← hread.credit b hb, hread.cap] at hpaid
      rw [← hread.credit b hb]
      exact (covered_credit hg hpriced).mpr hpaid
    · exact (covered_cap hg hpriced (hread.cap ▸ hl)).mpr (h.cap l hl)

end Exact

section Accounts

open MetaAds Support

def plainAnswerTexts : AnswerTexts where
  lower := id
  intText _ := none

def prepaidAnswer (balance : String) : List (String × Json ExtRat) :=
  [("account_status", .int 1), ("balance", .str balance),
    ("funding_source_details", .dict [("type", .str "20")])]

def freshCatalog : List (CampaignPlan ExtRat) :=
  buildCampaignCatalog plainAnswerTexts.lower none [] exactSettings.toSettings

theorem funded_plans_fit :
    ∃ status, getAccountStatus plainAnswerTexts "act_1" (prepaidAnswer "60000") = .ok status ∧
      Fits (some (ExtRat.fin 600)) none exactSettings.toSettings
        (selectCampaigns freshCatalog status exactSettings.toSettings).1 := by
  have hcredit : prepaidCredit plainAnswerTexts (prepaidAnswer "60000") = some (.fin 600) := by
    decide +kernel
  have hcap : MetaAds.capLeft (prepaidAnswer "60000") = none := by decide +kernel
  have hmax : exactSettings.toSettings.guardrails.maxDailyBudget = .fin 150 := rfl
  have hpos : Floats.lt 0.0 exactSettings.guardrails.maxDailyBudget = true := by decide +kernel
  cases hstatus : getAccountStatus plainAnswerTexts "act_1" (prepaidAnswer "60000") with
  | error e =>
    have hok : (getAccountStatus plainAnswerTexts "act_1"
        (prepaidAnswer "60000")).toOption.isSome = true := by decide +kernel
    rw [hstatus] at hok
    cases hok
  | ok status =>
    have hfits := (plans_fit_iff hstatus hmax none []).mpr
    rw [hcredit, hcap] at hfits
    refine ⟨status, rfl, hfits ⟨by decide, fun b hb => ?_, fun l hl => (by cases hl)⟩⟩
    rw [if_pos hpos, ← Option.some_inj.mp hb]
    exact .inl (by decide +kernel)

theorem empty_account_spends :
    ∃ status, getAccountStatus plainAnswerTexts "act_1" (prepaidAnswer "0") = .ok status ∧
      prepaidCredit plainAnswerTexts (prepaidAnswer "0") = some (.fin 0) ∧
      ¬ Fits (prepaidCredit plainAnswerTexts (prepaidAnswer "0"))
        (MetaAds.capLeft (prepaidAnswer "0")) exactSettings.toSettings
        (selectCampaigns freshCatalog status exactSettings.toSettings).1 := by
  have hcredit : prepaidCredit plainAnswerTexts (prepaidAnswer "0") = some (.fin 0) := by
    decide +kernel
  have hcap : MetaAds.capLeft (prepaidAnswer "0") = none := by decide +kernel
  have hlive : (getAccountStatus plainAnswerTexts "act_1" (prepaidAnswer "0")).toOption.map
      (fun status => (status.isActive, status.hasValidFunding)) = some (true, true) := by
    decide +kernel
  have hmax : exactSettings.toSettings.guardrails.maxDailyBudget = .fin 150 := rfl
  have hpromising : promising (retargetCheckout none exactSettings.toSettings) = true := by
    decide +kernel
  have hmem : retargetCheckout none exactSettings.toSettings ∈ freshCatalog := by
    rw [freshCatalog, buildCampaignCatalog, List.mem_mergeSort]
    exact List.mem_map.mpr ⟨_, List.mem_cons_self, rfl⟩
  cases hstatus : getAccountStatus plainAnswerTexts "act_1" (prepaidAnswer "0") with
  | error e =>
    rw [hstatus] at hlive
    cases hlive
  | ok status =>
    rw [hstatus] at hlive
    obtain ⟨hactive, hfunded⟩ := Prod.mk.inj (Option.some_inj.mp hlive)
    have hread := getAccountStatus_readFrom hstatus
    refine ⟨status, rfl, hcredit, fun hfits => ?_⟩
    have hpaid := hfits.credit _ hcredit
    rw [← hread.credit _ hcredit] at hpaid
    have hpriced := priced_catalog hmax plainAnswerTexts.lower none []
    rcases (credit_iff hmax (by norm_num) hpriced).mp hpaid with hcovered | ⟨-, hnone⟩
    · rw [hread.credit _ hcredit] at hcovered
      cases hcovered
    · refine hnone ⟨hactive, hfunded, by decide, _, hmem, hpromising, fun l hl => ?_⟩
      rw [← hread.cap, hcap] at hl
      cases hl

end Accounts

end Hotmart

end LangGraph

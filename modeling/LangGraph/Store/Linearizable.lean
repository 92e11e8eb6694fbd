import LangGraph.Store.Batched

namespace LangGraph

open Collections Transition

namespace Store

variable {Read Key V R : Type} [DecidableEq Key]

abbrev Contents (Key V : Type) := Key → Option V

section Sequential

variable (answer : Read → Contents Key V → R) (acknowledged : R)

def respond (store : Contents Key V) : Op Read Key V → R
  | .read op => answer op store
  | .put _ _ => acknowledged

def apply (store : Contents Key V) : Op Read Key V → Contents Key V
  | .read _ => store
  | .put k v => Function.update store k v

def execute (store : Contents Key V) : List (Nat × Op Read Key V) → List (Nat × R)
  | [] => []
  | item :: rest =>
      (item.1, respond answer acknowledged store item.2) :: execute (apply store item.2) rest

def applyAll (store : Contents Key V) (items : List (Nat × Op Read Key V)) : Contents Key V :=
  items.foldl (fun store item => apply store item.2) store

def putsOver (ops : List (Op Read Key V)) (store : Contents Key V) : Contents Key V :=
  fun k => (lastOf k (Op.puts ops)).getD (store k)

-- Every read on the state before the batch, then the puts, the last one of a key winning.
def abatch (ops : List (Op Read Key V)) (store : Contents Key V) :
    Except Empty (List R) × Contents Key V :=
  (.ok (ops.map (respond answer acknowledged store)), putsOver ops store)

theorem applyAll_append (store : Contents Key V) (items items' : List (Nat × Op Read Key V)) :
    applyAll store (items ++ items') = applyAll (applyAll store items) items' :=
  List.foldl_append

theorem execute_append (store : Contents Key V) (items items' : List (Nat × Op Read Key V)) :
    execute answer acknowledged store (items ++ items') =
      execute answer acknowledged store items ++
        execute answer acknowledged (applyAll store items) items' := by
  induction items generalizing store with
  | nil => rfl
  | cons item items ih =>
    rw [List.cons_append, execute, execute, ih]
    rfl

theorem applyAll_apply (store : Contents Key V) (items : List (Nat × Op Read Key V)) :
    applyAll store items = putsOver (items.map Prod.snd) store := by
  induction items generalizing store with
  | nil => rfl
  | cons item items ih =>
    obtain ⟨i, op⟩ := item
    refine (ih _).trans ?_
    funext k
    cases op with
    | read r => rfl
    | put k' v =>
      have hputs : Op.puts (.put k' v :: items.map Prod.snd) =
          (k', v) :: Op.puts (items.map Prod.snd) := rfl
      rw [List.map_cons, putsOver, putsOver, hputs, Dict.lastOf_cons]
      cases lastOf k (Op.puts (items.map Prod.snd)) with
      | some w => rfl
      | none =>
        by_cases hk : k' = k
        · subst hk
          simp [apply]
        · simp [apply, hk, Ne.symm hk]

end Sequential

section Linear

variable (answer : Read → Contents Key V → R) (acknowledged : R)

-- The order inside one batch: its reads, then its puts.
def linear (items : List (Nat × Op Read Key V)) : List (Nat × Op Read Key V) :=
  items.filter (fun item => item.2.isRead) ++ items.filter (fun item => !item.2.isRead)

omit [DecidableEq Key] in
theorem linear_perm (items : List (Nat × Op Read Key V)) : (linear items).Perm items :=
  List.filter_append_perm _ items

omit [DecidableEq Key] in
theorem puts_linear (items : List (Nat × Op Read Key V)) :
    Op.puts ((linear items).map Prod.snd) = Op.puts (items.map Prod.snd) := by
  have hreads : Op.puts ((items.filter (fun item => item.2.isRead)).map Prod.snd) = [] := by
    induction items with
    | nil => rfl
    | cons item items ih =>
      obtain ⟨i, op⟩ := item
      cases op with
      | read r => exact ih
      | put k v => exact ih
  have hputs : Op.puts ((items.filter (fun item => !item.2.isRead)).map Prod.snd) =
      Op.puts (items.map Prod.snd) := by
    induction items with
    | nil => rfl
    | cons item items ih =>
      obtain ⟨i, op⟩ := item
      cases op with
      | read r => exact ih hreads
      | put k v => exact congrArg (List.cons (k, v)) (ih hreads)
  rw [linear, List.map_append, Op.puts_append, hreads, hputs, List.nil_append]

theorem applyAll_linear (store : Contents Key V) (items : List (Nat × Op Read Key V)) :
    applyAll store (linear items) = putsOver (items.map Prod.snd) store := by
  rw [applyAll_apply]
  funext k
  rw [putsOver, putsOver, puts_linear]

theorem execute_reads (store : Contents Key V) {items : List (Nat × Op Read Key V)}
    (h : ∀ item ∈ items, item.2.isRead = true) :
    execute answer acknowledged store items =
      items.map (fun item => (item.1, respond answer acknowledged store item.2)) ∧
    applyAll store items = store := by
  induction items with
  | nil => exact ⟨rfl, rfl⟩
  | cons item items ih =>
    obtain ⟨hexec, happly⟩ := ih (fun x hx => h x (List.mem_cons_of_mem _ hx))
    have hread := h item List.mem_cons_self
    obtain ⟨i, op⟩ := item
    cases op with
    | put k v => cases hread
    | read r =>
      rw [execute, List.map_cons, ← hexec]
      exact ⟨rfl, happly⟩

theorem mem_execute_put {i : Nat} {op : Op Read Key V} (hput : op.isRead = false)
    (store store' : Contents Key V) {items : List (Nat × Op Read Key V)} (h : (i, op) ∈ items) :
    (i, respond answer acknowledged store' op) ∈ execute answer acknowledged store items := by
  induction items generalizing store with
  | nil => cases h
  | cons item items ih =>
    rw [execute]
    rcases List.mem_cons.mp h with rfl | h
    · cases op with
      | read r => cases hput
      | put k v => exact List.mem_cons_self
    · exact List.mem_cons_of_mem _ (ih _ h)

theorem mem_execute_linear (store : Contents Key V) {i : Nat} {op : Op Read Key V}
    {items : List (Nat × Op Read Key V)} (h : (i, op) ∈ items) :
    (i, respond answer acknowledged store op) ∈
      execute answer acknowledged store (linear items) := by
  rw [linear, execute_append, List.mem_append]
  cases hop : op.isRead with
  | true =>
    have hreads := execute_reads answer acknowledged store (fun item hitem =>
      (List.mem_filter.mp hitem).2 :
        ∀ item ∈ items.filter (fun item => item.2.isRead), item.2.isRead = true)
    rw [hreads.1]
    exact Or.inl (List.mem_map.mpr ⟨(i, op), List.mem_filter.mpr ⟨h, hop⟩, rfl⟩)
  | false =>
    refine Or.inr (mem_execute_put answer acknowledged hop _ store ?_)
    exact List.mem_filter.mpr ⟨h, by simp [hop]⟩

end Linear

section Finish

variable [BEq Read] {answer : Read → Contents Key V → R}

omit [DecidableEq Key] in
theorem respond_like (acknowledged : R) (alike : ∀ a b s, (a == b) = true → answer a s = answer b s)
    {held op : Op Read Key V} (h : Op.Like held op) (store : Contents Key V) :
    respond answer acknowledged store held = respond answer acknowledged store op := by
  cases held with
  | read a =>
    cases op with
    | read b =>
      rcases h with rfl | h
      · rfl
      · exact alike a b store h
    | put k v => exact h.elim
  | put k v =>
    cases op with
    | read b => exact h.elim
    | put k' v' => rfl

omit [DecidableEq Key] in
theorem redistribute_listened {f : Op Read Key V → R}
    (hf : ∀ held op, Op.Like held op → f held = f op) {dedupped values : List (Op Read Key V)}
    {listen : List Nat}
    (h : List.Forall₂ (fun op ix => ∃ held, dedupped[ix]? = some held ∧ Op.Like held op)
      values listen) :
    Background.redistribute (some listen) (dedupped.map f) = some (values.map f) := by
  rw [Background.redistribute]
  induction h with
  | nil => rfl
  | cons hop hrest ih =>
    obtain ⟨held, hget, hlike⟩ := hop
    rw [List.mapM_cons, ih, List.getElem?_map, hget]
    simp [hf _ _ hlike]

theorem finish_abatch (acknowledged : R) (alike : ∀ a b s, (a == b) = true → answer a s = answer b s)
    (s : Background Read Key V (Contents Key V) R Empty) (items : List (Nat × Op Read Key V)) :
    s.finish (abatch answer acknowledged) items =
      { s with
        store := putsOver (items.map Prod.snd) s.store
        running := none
        futs := Background.settleAll s.futs (items.map (fun item =>
          (item.1, .result (respond answer acknowledged s.store item.2)))) } := by
  have hzip (f : Op Read Key V → R) :
      (items.map Prod.fst).zip (((items.map Prod.snd).map f).map (Fut.result (E := Empty))) =
        items.map (fun item => (item.1, .result (f item.2))) := by
    induction items with
    | nil => rfl
    | cons item items ih => exact congrArg (List.cons _) ih
  rcases dedupeOps_cases (items.map Prod.snd) with h | ⟨d, hd, h⟩
  · simp only [Background.finish, h, abatch, Background.outcomes, Background.redistribute]
    rw [hzip]
  · have hputs : putsOver d.dedupped s.store = putsOver (items.map Prod.snd) s.store := by
      funext k
      rw [putsOver, putsOver, hd.lastOf_dedupped]
    have hlisten := redistribute_listened
      (fun held op hlike => respond_like acknowledged alike hlike s.store)
      hd.listened
    simp only [Background.finish, h, abatch, Background.outcomes, hlisten, hputs]
    rw [hzip]

end Finish

section Histories

variable [BEq Read]
variable (answer : Read → Contents Key V → R) (acknowledged : R) (store : Contents Key V)

def ran (es : List (BackgroundEvent Read Key V)) :
    Background Read Key V (Contents Key V) R Empty :=
  Background.after (abatch answer acknowledged) store es

def submitted (es : List (BackgroundEvent Read Key V)) : List (Op Read Key V) :=
  es.filterMap (fun e =>
    match e with
    | .submit op => some op
    | _ => none)

-- The future of the first was done when the second was submitted.
def CompletedBefore (es : List (BackgroundEvent Read Key V)) (i j : Nat) : Prop :=
  ∃ before op later, es = before ++ .submit op :: later ∧
    (submitted before).length = j ∧ (ran answer acknowledged store before).isDone i = true

def CancelledWaiting (es : List (BackgroundEvent Read Key V)) (i : Nat) : Prop :=
  ∃ before later, es = before ++ .cancel i :: later ∧
    i ∈ (ran answer acknowledged store before).waiting

structure Linearization (es : List (BackgroundEvent Read Key V))
    (order : List (Nat × Op Read Key V)) : Prop where
  once : (order.map Prod.fst).Nodup
  asked : ∀ item ∈ order, (submitted es)[item.1]? = some item.2
  ordered : (order.map Prod.fst).Pairwise
    (fun i j => ¬ CompletedBefore answer acknowledged store es j i)
  none_lost : ∀ i < (submitted es).length, i ∈ order.map Prod.fst ∨
    CancelledWaiting answer acknowledged store es i ∨
    i ∈ (ran answer acknowledged store es).waiting ∨
    i ∈ (ran answer acknowledged store es).items.map Prod.fst
  cancelled : ∀ i, CancelledWaiting answer acknowledged store es i → i ∉ order.map Prod.fst
  results : ∀ (i : Nat) (r : R),
    (ran answer acknowledged store es).futs[i]? = some (.result r) →
      (i, r) ∈ execute answer acknowledged store order
  no_exception : ∀ (i : Nat) (e : BatchError Empty),
    (ran answer acknowledged store es).futs[i]? ≠ some (.exception e)
  contents : (ran answer acknowledged store es).store = applyAll store order

variable {answer acknowledged store}
variable {es : List (BackgroundEvent Read Key V)} {e : BackgroundEvent Read Key V}

omit [DecidableEq Key] [BEq Read] in
theorem concat_split {before later : List (BackgroundEvent Read Key V)}
    {x : BackgroundEvent Read Key V} (h : es ++ [e] = before ++ x :: later) :
    (before = es ∧ x = e) ∨ ∃ later', es = before ++ x :: later' := by
  rcases List.eq_nil_or_concat later with rfl | ⟨later', y, rfl⟩
  · obtain ⟨hbefore, hx⟩ := List.append_inj' h rfl
    cases hx
    exact Or.inl ⟨hbefore.symm, rfl⟩
  · rw [List.concat_eq_append, ← List.cons_append, ← List.append_assoc] at h
    exact Or.inr ⟨later', (List.append_inj' h rfl).1⟩

theorem ran_concat : ran answer acknowledged store (es ++ [e]) =
    Background.step (abatch answer acknowledged) (ran answer acknowledged store es) e := by
  rw [ran, Background.after, run_append]
  rfl

theorem completed_concat {i j : Nat}
    (h : CompletedBefore answer acknowledged store (es ++ [e]) i j) :
    CompletedBefore answer acknowledged store es i j ∨ j = (submitted es).length := by
  obtain ⟨before, op, later, hes, hj, hdone⟩ := h
  rcases concat_split hes with ⟨rfl, -⟩ | ⟨later', rfl⟩
  · exact Or.inr hj.symm
  · exact Or.inl ⟨before, op, later', rfl, hj, hdone⟩

theorem CompletedBefore.isDone {i j : Nat} (h : CompletedBefore answer acknowledged store es i j) :
    (ran answer acknowledged store es).isDone i = true := by
  obtain ⟨before, op, later, rfl, -, hdone⟩ := h
  rw [ran, Background.after, run_append]
  exact Background.isDone_run hdone _

theorem cancelled_concat {i : Nat}
    (h : CancelledWaiting answer acknowledged store (es ++ [e]) i) :
    CancelledWaiting answer acknowledged store es i ∨
      (e = .cancel i ∧ i ∈ (ran answer acknowledged store es).waiting) := by
  obtain ⟨before, later, hes, hi⟩ := h
  rcases concat_split hes with ⟨rfl, hx⟩ | ⟨later', rfl⟩
  · exact Or.inr ⟨hx.symm, hi⟩
  · exact Or.inl ⟨before, later', rfl, hi⟩

theorem CancelledWaiting.concat {i : Nat} (h : CancelledWaiting answer acknowledged store es i) :
    CancelledWaiting answer acknowledged store (es ++ [e]) i := by
  obtain ⟨before, later, rfl, hi⟩ := h
  exact ⟨before, later ++ [e], by simp, hi⟩

end Histories

section Steps

variable [BEq Read]
variable (answer : Read → Contents Key V → R) (acknowledged : R) (store : Contents Key V)

structure Underway (es : List (BackgroundEvent Read Key V))
    (s : Background Read Key V (Contents Key V) R Empty) (order : List (Nat × Op Read Key V)) :
    Prop where
  reached : s = ran answer acknowledged store es
  nodup : ((order ++ s.items ++ s.aqueue).map Prod.fst).Nodup
  asked : ∀ item ∈ order ++ s.items ++ s.aqueue, (submitted es)[item.1]? = some item.2
  size : s.futs.length = (submitted es).length
  ordered : ((order ++ linear s.items).map Prod.fst).Pairwise
    (fun i j => ¬ CompletedBefore answer acknowledged store es j i)
  none_lost : ∀ i < (submitted es).length, i ∈ (order ++ s.items ++ s.aqueue).map Prod.fst ∨
    CancelledWaiting answer acknowledged store es i
  cancelled : ∀ i, CancelledWaiting answer acknowledged store es i →
    s.isDone i = true ∧ i ∉ (order ++ s.items).map Prod.fst
  stale : ∀ item ∈ s.aqueue, s.isDone item.1 = true →
    CancelledWaiting answer acknowledged store es item.1
  results : ∀ (i : Nat) (r : R), s.futs[i]? = some (.result r) →
    (i, r) ∈ execute answer acknowledged store order
  no_exception : ∀ (i : Nat) (e : BatchError Empty), s.futs[i]? ≠ some (.exception e)
  contents : s.store = applyAll store order

namespace Underway

variable {answer acknowledged store}
variable {es : List (BackgroundEvent Read Key V)}
variable {s : Background Read Key V (Contents Key V) R Empty}
variable {order : List (Nat × Op Read Key V)}

theorem lt_size (h : Underway answer acknowledged store es s order) {i : Nat}
    (hi : i ∈ (order ++ s.items ++ s.aqueue).map Prod.fst) : i < s.futs.length := by
  obtain ⟨item, hitem, rfl⟩ := List.mem_map.mp hi
  obtain ⟨hlt, -⟩ := List.getElem?_eq_some_iff.mp (h.asked item hitem)
  rw [h.size]
  exact hlt

theorem next (h : Underway answer acknowledged store es s order)
    (e : BackgroundEvent Read Key V) :
    Background.step (abatch answer acknowledged) s e = ran answer acknowledged store (es ++ [e]) := by
  rw [ran_concat, h.reached]

theorem linear_ids (h : Underway answer acknowledged store es s order) {i : Nat}
    (hi : i ∈ (order ++ linear s.items).map Prod.fst) : i < (submitted es).length := by
  rw [← h.size]
  apply h.lt_size
  rw [List.map_append, List.mem_append] at hi ⊢
  rw [List.map_append, List.mem_append]
  rcases hi with hi | hi
  · exact Or.inl (Or.inl hi)
  · exact Or.inl (Or.inr (((linear_perm s.items).map Prod.fst).mem_iff.mp hi))

theorem ordered_concat (h : Underway answer acknowledged store es s order)
    (e : BackgroundEvent Read Key V) : ((order ++ linear s.items).map Prod.fst).Pairwise
      (fun i j => ¬ CompletedBefore answer acknowledged store (es ++ [e]) j i) := by
  refine h.ordered.imp_of_mem ?_
  intro i j hi _ hnot hcompleted
  rcases completed_concat hcompleted with hold | hnew
  · exact hnot hold
  · have := h.linear_ids hi
    omega

theorem submit (h : Underway answer acknowledged store es s order) (op : Op Read Key V) :
    Underway answer acknowledged store (es ++ [.submit op])
      (Background.step (abatch answer acknowledged) s (.submit op)) order := by
  have hsubmitted : submitted (es ++ [.submit op]) = submitted es ++ [op] :=
    List.filterMap_append
  have hitems : (Background.step (abatch answer acknowledged) s (.submit op)).items = s.items := rfl
  have hqueue : (Background.step (abatch answer acknowledged) s (.submit op)).aqueue =
      s.aqueue ++ [(s.futs.length, op)] := rfl
  have hfuts : (Background.step (abatch answer acknowledged) s (.submit op)).futs =
      s.futs ++ [.pending] := rfl
  have hold {i : Nat} (hcw : CancelledWaiting answer acknowledged store
      (es ++ [.submit op]) i) : CancelledWaiting answer acknowledged store es i := by
    rcases cancelled_concat hcw with hcw | ⟨he, -⟩
    · exact hcw
    · cases he
  have hresult {i : Nat} {f : Fut R Empty} (hf : (s.futs ++ [.pending])[i]? = some f)
      (hdone : f.done = true) : s.futs[i]? = some f := by
    rw [List.getElem?_append] at hf
    split at hf
    · exact hf
    · rw [List.getElem?_singleton] at hf
      split at hf
      · cases hf
        cases hdone
      · cases hf
  refine ⟨h.next _, ?_, ?_, ?_, ?_, ?_, ?_, ?_, ?_, ?_, h.contents⟩
  · rw [hitems, hqueue, ← List.append_assoc, List.map_append]
    refine h.nodup.append (List.nodup_singleton _) ?_
    intro i hi hn
    cases List.mem_singleton.mp hn
    exact absurd (h.lt_size hi) (Nat.lt_irrefl _)
  · intro item hitem
    rw [hitems, hqueue, ← List.append_assoc, List.mem_append, List.mem_singleton] at hitem
    rw [hsubmitted]
    rcases hitem with hitem | rfl
    · have hget := h.asked item hitem
      obtain ⟨hlt, -⟩ := List.getElem?_eq_some_iff.mp hget
      rw [List.getElem?_append_left hlt, hget]
    · rw [h.size]
      exact List.getElem?_concat_length
  · rw [hfuts, hsubmitted, List.length_append, List.length_append, h.size]
    rfl
  · exact h.ordered_concat _
  · intro i hi
    rw [hitems, hqueue, ← List.append_assoc, List.map_append, List.mem_append]
    rw [hsubmitted, List.length_append, List.length_singleton] at hi
    by_cases hlt : i < (submitted es).length
    · exact (h.none_lost i hlt).imp Or.inl CancelledWaiting.concat
    · have hi' : i = s.futs.length := by
        rw [h.size]
        omega
      exact Or.inl (Or.inr (by simp [hi']))
  · intro i hcw
    obtain ⟨hdone, hmem⟩ := h.cancelled i (hold hcw)
    exact ⟨Background.isDone_step hdone _, hmem⟩
  · intro item hitem hdone
    obtain ⟨f, hf, hfdone⟩ := Background.isDone_iff.mp hdone
    rw [hfuts] at hf
    have hf' := hresult hf hfdone
    rw [hqueue, List.mem_append, List.mem_singleton] at hitem
    rcases hitem with hitem | rfl
    · exact (h.stale item hitem (Background.isDone_iff.mpr ⟨f, hf', hfdone⟩)).concat
    · rw [List.getElem?_eq_none (Nat.le_refl _)] at hf'
      cases hf'
  · intro i r hr
    rw [hfuts] at hr
    exact h.results i r (hresult hr rfl)
  · intro i e he
    rw [hfuts] at he
    exact h.no_exception i e (hresult he rfl)

theorem cancel (h : Underway answer acknowledged store es s order) (fut : Nat) :
    Underway answer acknowledged store (es ++ [.cancel fut])
      (Background.step (abatch answer acknowledged) s (.cancel fut)) order := by
  have hsubmitted : submitted (es ++ [.cancel fut]) = submitted es := by
    simp [submitted]
  have hitems : (Background.step (abatch answer acknowledged) s (.cancel fut)).items = s.items := rfl
  have hqueue : (Background.step (abatch answer acknowledged) s (.cancel fut)).aqueue =
      s.aqueue := rfl
  have hfuts (i : Nat) : (Background.step (abatch answer acknowledged) s (.cancel fut)).futs[i]? =
      (s.futs[i]?).map (fun f => if fut = i then Fut.settle .cancelled f else f) :=
    List.getElem?_modify _ _ _ _
  have hkept {i : Nat} {f : Fut R Empty} (hcancelled : f ≠ .cancelled)
      (hf : (Background.step (abatch answer acknowledged) s (.cancel fut)).futs[i]? = some f) :
      s.futs[i]? = some f := by
    rw [hfuts] at hf
    obtain ⟨held, hheld, rfl⟩ := Option.map_eq_some_iff.mp hf
    rw [hheld]
    split at hcancelled
    · rename_i hi
      rw [if_pos hi]
      cases held with
      | pending => exact absurd rfl hcancelled
      | _ => rfl
    · rename_i hi
      rw [if_neg hi]
  refine ⟨h.next _, ?_, ?_, ?_, ?_, ?_, ?_, ?_, ?_, ?_, h.contents⟩
  · exact h.nodup
  · intro item hitem
    rw [hsubmitted]
    exact h.asked item hitem
  · rw [hsubmitted, ← h.size]
    exact List.length_modify _ _ _
  · exact h.ordered_concat _
  · intro i hi
    rw [hsubmitted] at hi
    exact (h.none_lost i hi).imp id CancelledWaiting.concat
  · intro i hcw
    rcases cancelled_concat hcw with hcw | ⟨he, hwaiting⟩
    · obtain ⟨hdone, hmem⟩ := h.cancelled i hcw
      exact ⟨Background.isDone_step hdone _, hmem⟩
    · cases he
      rw [← h.reached] at hwaiting
      have hnodup := h.nodup
      rw [List.map_append] at hnodup
      have hmem : fut ∈ (order ++ s.items ++ s.aqueue).map Prod.fst := by
        rw [List.map_append, List.mem_append]
        exact Or.inr hwaiting
      refine ⟨Background.isDone_iff.mpr ?_, fun hin =>
        (List.nodup_append.mp hnodup).2.2 fut hin fut hwaiting rfl⟩
      have hf : ∃ f, s.futs[fut]? = some f := ⟨_, List.getElem?_eq_getElem (h.lt_size hmem)⟩
      obtain ⟨f, hf⟩ := hf
      refine ⟨Fut.settle .cancelled f, ?_, ?_⟩
      · rw [hfuts, hf]
        simp
      · cases f <;> rfl
  · intro item hitem hdone
    by_cases hi : item.1 = fut
    · refine ⟨es, [], by rw [hi], ?_⟩
      rw [← h.reached]
      exact List.mem_map_of_mem hitem
    · obtain ⟨f, hf, hfdone⟩ := Background.isDone_iff.mp hdone
      rw [hfuts] at hf
      have hf' : s.futs[item.1]? = some f := by simpa [Ne.symm hi] using hf
      exact (h.stale item hitem (Background.isDone_iff.mpr ⟨f, hf', hfdone⟩)).concat
  · intro i r hr
    exact h.results i r (hkept (by simp) hr)
  · intro i e he
    exact h.no_exception i e (hkept (by simp) he)

section Worker

variable {e : BackgroundEvent Read Key V}

theorem cancelled_worker (hcancel : ∀ i, e ≠ .cancel i) {i : Nat}
    (hcw : CancelledWaiting answer acknowledged store (es ++ [e]) i) :
    CancelledWaiting answer acknowledged store es i := by
  rcases cancelled_concat hcw with hcw | ⟨he, -⟩
  · exact hcw
  · exact absurd he (hcancel i)

theorem unchanged (h : Underway answer acknowledged store es s order)
    (hsubmit : submitted (es ++ [e]) = submitted es) (hcancel : ∀ i, e ≠ .cancel i)
    (hs : Background.step (abatch answer acknowledged) s e = s) :
    Underway answer acknowledged store (es ++ [e]) s order := by
  refine ⟨hs.symm.trans (h.next e), h.nodup, ?_, ?_, h.ordered_concat e, ?_, ?_, ?_, h.results,
    h.no_exception, h.contents⟩
  · rw [hsubmit]
    exact h.asked
  · rw [hsubmit]
    exact h.size
  · intro i hi
    rw [hsubmit] at hi
    exact (h.none_lost i hi).imp id CancelledWaiting.concat
  · exact fun i hcw => h.cancelled i (cancelled_worker hcancel hcw)
  · exact fun item hitem hdone => (h.stale item hitem hdone).concat

end Worker

theorem gather (h : Underway answer acknowledged store es s order) (hidle : s.running = none) :
    Underway answer acknowledged store (es ++ [.gather]) s.gather order := by
  have hstep : Background.step (abatch answer acknowledged) s .gather = s.gather := by
    rw [Background.step, hidle]
  have hsubmitted : submitted (es ++ [.gather]) = submitted es := by
    simp [submitted]
  have hnone : s.items = [] := by
    rw [Background.items, hidle]
    rfl
  have hqueue : s.gather.aqueue = [] := rfl
  have hsub : s.gather.items.Sublist s.aqueue := by
    rw [Background.items_gather]
    exact List.filter_sublist
  have hpending {i : Nat} (hi : i ∈ s.gather.items.map Prod.fst) : s.isDone i = false := by
    obtain ⟨item, hitem, rfl⟩ := List.mem_map.mp hi
    rw [Background.items_gather] at hitem
    simpa using (List.mem_filter.mp hitem).2
  have hfresh {i j : Nat} (hi : i ∈ s.gather.items.map Prod.fst) :
      ¬ CompletedBefore answer acknowledged store (es ++ [.gather]) i j := by
    rintro ⟨before, op, later, hes, -, hdone⟩
    rcases concat_split hes with ⟨-, hx⟩ | ⟨later', rfl⟩
    · cases hx
    · have hlast : s.isDone i = true := by
        rw [h.reached]
        exact CompletedBefore.isDone ⟨before, op, later', rfl, rfl, hdone⟩
      rw [hpending hi] at hlast
      cases hlast
  have hlinear {i : Nat} (hi : i ∈ (linear s.gather.items).map Prod.fst) :
      i ∈ s.gather.items.map Prod.fst :=
    ((linear_perm s.gather.items).map Prod.fst).mem_iff.mp hi
  have hparts := h.nodup
  have hordered := h.ordered_concat .gather
  have hcancelled := h.cancelled
  rw [hnone, List.append_nil] at hparts hcancelled
  rw [hnone] at hordered
  refine ⟨hstep.symm.trans (h.next _), ?_, ?_, ?_, ?_, ?_, ?_, ?_, h.results, h.no_exception,
    h.contents⟩
  · rw [hqueue, List.append_nil]
    exact hparts.sublist (((List.Sublist.refl order).append hsub).map Prod.fst)
  · intro item hitem
    rw [hqueue, List.append_nil] at hitem
    rw [hsubmitted]
    refine h.asked item ?_
    rw [hnone, List.append_nil]
    exact ((List.Sublist.refl order).append hsub).subset hitem
  · rw [hsubmitted]
    exact h.size
  · rw [List.map_append, List.pairwise_append]
    refine ⟨by simpa [linear] using hordered, ?_, ?_⟩
    · exact List.pairwise_iff_forall_sublist.mpr (fun {i j} hij =>
        hfresh (hlinear (hij.subset (by simp))))
    · exact fun i _ j hj => hfresh (hlinear hj)
  · intro i hi
    rw [hsubmitted] at hi
    rw [hqueue, List.append_nil, List.map_append, List.mem_append]
    rcases h.none_lost i hi with hmem | hcw
    · rw [hnone, List.append_nil, List.map_append, List.mem_append] at hmem
      rcases hmem with hmem | hmem
      · exact Or.inl (Or.inl hmem)
      · obtain ⟨item, hitem, rfl⟩ := List.mem_map.mp hmem
        cases hdone : s.isDone item.1 with
        | true => exact Or.inr (h.stale item hitem hdone).concat
        | false =>
          refine Or.inl (Or.inr (List.mem_map_of_mem ?_))
          rw [Background.items_gather]
          exact List.mem_filter.mpr ⟨hitem, by simp [hdone]⟩
    · exact Or.inr hcw.concat
  · intro i hcw
    obtain ⟨hdone, hmem⟩ := hcancelled i (cancelled_worker (by simp) hcw)
    refine ⟨hdone, ?_⟩
    rw [List.map_append, List.mem_append]
    rintro (hin | hin)
    · exact hmem hin
    · have hlast : s.isDone i = true := hdone
      rw [hpending hin] at hlast
      cases hlast
  · intro item hitem
    cases hitem

theorem finish (alike : ∀ a b s, (a == b) = true → answer a s = answer b s)
    (h : Underway answer acknowledged store es s order) {items : List (Nat × Op Read Key V)}
    (hrunning : s.running = some items) :
    Underway answer acknowledged store (es ++ [.finish])
      (Background.step (abatch answer acknowledged) s .finish) (order ++ linear items) := by
  have hstep : Background.step (abatch answer acknowledged) s .finish =
      s.finish (abatch answer acknowledged) items := by
    rw [Background.step, hrunning]
  have hsubmitted : submitted (es ++ [.finish]) = submitted es := by
    simp [submitted]
  have hitems : s.items = items := by
    rw [Background.items, hrunning]
    rfl
  have hnone : (s.finish (abatch answer acknowledged) items).items = [] := rfl
  have hqueue : (s.finish (abatch answer acknowledged) items).aqueue = s.aqueue := rfl
  have hfinish := finish_abatch acknowledged alike s items
  have hperm : (order ++ linear items ++ s.aqueue).Perm (order ++ s.items ++ s.aqueue) := by
    rw [hitems]
    exact ((linear_perm items).append_left order).append_right s.aqueue
  have hdone {i : Nat} (hi : s.isDone i = true) :
      (s.finish (abatch answer acknowledged) items).isDone i = true := by
    rw [← hstep]
    exact Background.isDone_step hi _
  have hordered := h.ordered_concat .finish
  have hcancelled := h.cancelled
  rw [hitems] at hordered hcancelled
  have hids : (items.map (fun item =>
      (item.1, Fut.result (E := Empty) (respond answer acknowledged s.store item.2)))).map
        Prod.fst = items.map Prod.fst := by
    simp
  have hnodup : (items.map Prod.fst).Nodup := by
    refine h.nodup.sublist (List.Sublist.map Prod.fst ?_)
    rw [hitems]
    exact (List.sublist_append_right order items).trans (List.sublist_append_left _ _)
  have hlookup {i : Nat} {f : Fut R Empty}
      (hf : (s.finish (abatch answer acknowledged) items).futs[i]? = some f) :
      s.futs[i]? = some f ∨
        ∃ op, (i, op) ∈ items ∧ f = .result (respond answer acknowledged s.store op) := by
    rw [hfinish] at hf
    by_cases hi : i ∈ items.map Prod.fst
    · have hasked : ∃ op, (i, op) ∈ items := by
        obtain ⟨⟨j, op⟩, hitem, rfl⟩ := List.mem_map.mp hi
        exact ⟨op, hitem⟩
      obtain ⟨op, hmem⟩ := hasked
      have hlt : i < s.futs.length := by
        apply h.lt_size
        rw [hitems]
        simp only [List.map_append, List.mem_append]
        exact Or.inl (Or.inr hi)
      have hset := Background.settleAll_mem (hids ▸ hnodup)
        (List.mem_map.mpr ⟨(i, op), hmem, rfl⟩) (List.getElem?_eq_getElem hlt)
      rw [hset] at hf
      cases hheld : s.futs[i] with
      | pending =>
        rw [hheld] at hf
        exact Or.inr ⟨op, hmem, (Option.some.inj hf).symm⟩
      | _ =>
        rw [hheld] at hf
        refine Or.inl ?_
        rw [List.getElem?_eq_getElem hlt, hheld]
        exact hf
    · rw [Background.settleAll_not_mem (by rw [hids]; exact hi)] at hf
      exact Or.inl hf
  rw [hstep]
  refine ⟨hstep.symm.trans (h.next _), ?_, ?_, ?_, ?_, ?_, ?_, ?_, ?_, ?_, ?_⟩
  · rw [hnone, hqueue, List.append_nil]
    exact (hperm.map Prod.fst).nodup_iff.mpr h.nodup
  · intro item hitem
    rw [hnone, hqueue, List.append_nil] at hitem
    rw [hsubmitted]
    exact h.asked item (hperm.mem_iff.mp hitem)
  · rw [hfinish, hsubmitted, ← h.size]
    exact Background.length_settleAll _ _
  · rw [hnone]
    simpa [linear] using hordered
  · intro i hi
    rw [hsubmitted] at hi
    rw [hnone, hqueue, List.append_nil]
    exact (h.none_lost i hi).imp (hperm.map Prod.fst).mem_iff.mpr CancelledWaiting.concat
  · intro i hcw
    obtain ⟨hi, hmem⟩ := hcancelled i (cancelled_worker (by simp) hcw)
    refine ⟨hdone hi, ?_⟩
    rw [hnone, List.append_nil]
    exact fun hin => hmem ((((linear_perm items).append_left order).map Prod.fst).mem_iff.mp hin)
  · intro item hitem hi
    obtain ⟨f, hf, hfdone⟩ := Background.isDone_iff.mp hi
    rcases hlookup hf with hf | ⟨op, hmem, -⟩
    · exact (h.stale item hitem (Background.isDone_iff.mpr ⟨f, hf, hfdone⟩)).concat
    · have hparts := h.nodup
      rw [hitems, List.map_append] at hparts
      have hin : item.1 ∈ (order ++ items).map Prod.fst := by
        rw [List.map_append, List.mem_append]
        exact Or.inr (List.mem_map.mpr ⟨_, hmem, rfl⟩)
      exact absurd rfl
        ((List.nodup_append.mp hparts).2.2 _ hin _ (List.mem_map_of_mem hitem))
  · intro i r hr
    rw [execute_append, List.mem_append]
    rcases hlookup hr with hr | ⟨op, hmem, hr⟩
    · exact Or.inl (h.results i r hr)
    · cases hr
      rw [← h.contents]
      exact Or.inr (mem_execute_linear answer acknowledged s.store hmem)
  · intro i e he
    rcases hlookup he with he | ⟨op, -, he⟩
    · exact h.no_exception i e he
    · cases he
  · rw [hfinish, applyAll_append, ← h.contents, applyAll_linear]

theorem start : Underway answer acknowledged store [] (Background.init store) [] where
  reached := rfl
  nodup := List.nodup_nil
  asked := by
    intro item hitem
    cases hitem
  size := rfl
  ordered := List.Pairwise.nil
  none_lost := by
    intro i hi
    cases hi
  cancelled := by
    rintro i ⟨before, later, hes, -⟩
    simp at hes
  stale := by
    intro item hitem
    cases hitem
  results := by
    intro i r hr
    cases hr
  no_exception := by
    intro i e he
    cases he
  contents := rfl

theorem step (alike : ∀ a b s, (a == b) = true → answer a s = answer b s)
    (h : Underway answer acknowledged store es s order) (e : BackgroundEvent Read Key V) :
    ∃ order', Underway answer acknowledged store (es ++ [e])
      (Background.step (abatch answer acknowledged) s e) order' := by
  cases e with
  | submit op => exact ⟨order, h.submit op⟩
  | cancel i => exact ⟨order, h.cancel i⟩
  | gather =>
    cases hrunning : s.running with
    | none =>
      have hstep : Background.step (abatch answer acknowledged) s .gather = s.gather := by
        rw [Background.step, hrunning]
      rw [hstep]
      exact ⟨order, h.gather hrunning⟩
    | some items =>
      have hstep : Background.step (abatch answer acknowledged) s .gather = s := by
        rw [Background.step, hrunning]
      rw [hstep]
      exact ⟨order, h.unchanged (by simp [submitted]) (by simp) hstep⟩
  | finish =>
    cases hrunning : s.running with
    | none =>
      have hstep : Background.step (abatch answer acknowledged) s .finish = s := by
        rw [Background.step, hrunning]
      rw [hstep]
      exact ⟨order, h.unchanged (by simp [submitted]) (by simp) hstep⟩
    | some items => exact ⟨_, h.finish alike hrunning⟩

theorem run (alike : ∀ a b s, (a == b) = true → answer a s = answer b s)
    (es : List (BackgroundEvent Read Key V)) :
    ∃ order, Underway answer acknowledged store es (ran answer acknowledged store es) order := by
  induction es using List.reverseRecOn with
  | nil => exact ⟨[], start⟩
  | append_singleton es e ih =>
    obtain ⟨order, h⟩ := ih
    rw [ran_concat]
    exact h.step alike e

end Underway

end Steps

section Runs

section Kept

variable [BEq Read]
variable (answer : Read → Contents Key V → R) (acknowledged : R) (store : Contents Key V)

def KeptLinearization (es : List (BackgroundEvent Read Key V))
    (order : List (Nat × Op Read Key V)) : Prop :=
  (∀ item ∈ order, (submitted es)[item.1]? = some item.2) ∧
  (∀ i, i ∈ order.map Prod.fst ↔ i < (submitted es).length ∧
    (ran answer acknowledged store es).isDone i = true ∧
    ∀ f ∈ (ran answer acknowledged store es).futs[i]?, f ≠ .cancelled) ∧
  (∀ (i : Nat) (r : R), (ran answer acknowledged store es).futs[i]? = some (.result r) →
    (i, r) ∈ execute answer acknowledged store order) ∧
  (ran answer acknowledged store es).store = applyAll store order

end Kept

-- Two filter values that Python finds equal when a boolean stands beside a number.
structure FilterValue where
  isBool : Bool
  number : Int

instance : BEq FilterValue := ⟨fun a b => decide (a.number = b.number)⟩

def holdsJson (filter : FilterValue) (store : Contents Unit (Bool × Int)) : Option Bool :=
  some (decide (store () = some (filter.isBool, filter.number)))

def cancelledInFlight : List (BackgroundEvent Nat Nat Nat) :=
  [.submit (.put 3 (some 5)), .gather, .cancel 0, .finish]

def mergedFilters : List (BackgroundEvent FilterValue Unit (Bool × Int)) :=
  [.submit (.read ⟨true, 1⟩), .submit (.read ⟨false, 1⟩), .gather, .finish]

end Runs

end Store

end LangGraph

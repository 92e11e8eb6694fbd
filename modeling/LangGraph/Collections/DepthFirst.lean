import Mathlib.Data.Finset.Card
import Mathlib.Data.Finset.Lattice.Lemmas
import Mathlib.Logic.Relation

namespace Collections

namespace DepthFirst

variable {κ ε : Type} [DecidableEq κ]

structure Walk (κ : Type) where
  visited : Finset κ
  order : List κ

-- One call after the other; none where one of them runs out of fuel.
def each (f : κ → Walk κ → Option (Except ε (Walk κ))) :
    List κ → Walk κ → Option (Except ε (Walk κ))
  | [], w => some (.ok w)
  | b :: bs, w =>
      match f b w with
      | some (.ok w) => each f bs w
      | r => r

def visit (next : κ → Except ε (List κ)) : Nat → κ → Walk κ → Option (Except ε (Walk κ))
  | 0, _, _ => none
  | fuel + 1, a, w =>
      if a ∈ w.visited then some (.ok w)
      else
        match next a with
        | .error e => some (.error e)
        | .ok bs =>
            match each (visit next fuel) bs ⟨insert a w.visited, w.order⟩ with
            | some (.ok w) => some (.ok ⟨w.visited, w.order ++ [a]⟩)
            | r => r

section Spec

variable {next : κ → Except ε (List κ)}

def Edge (next : κ → Except ε (List κ)) (a b : κ) : Prop := ∃ bs, next a = .ok bs ∧ b ∈ bs

def Reaches (next : κ → Except ε (List κ)) : κ → κ → Prop := Relation.ReflTransGen (Edge next)

def Before (order : List κ) (a b : κ) : Prop := [a, b].Sublist order

omit [DecidableEq κ] in
theorem before_append {order : List κ} {a b : κ} (ha : a ∈ order) : Before (order ++ [b]) a b := by
  have hsplit : [a, b] = [a] ++ [b] := rfl
  rw [Before, hsplit]
  exact (List.singleton_sublist.mpr ha).append (.refl _)

-- A node that was finished, with every node it leads to seen, and finished before it unless that
-- one leads back to it.
def Done (next : κ → Except ε (List κ)) (w : Walk κ) (p : κ) : Prop :=
  ∃ bs, next p = .ok bs ∧ ∀ q ∈ bs, q ∈ w.visited ∧ (Before w.order q p ∨ Reaches next q p)

structure Extends (next : κ → Except ε (List κ)) (w w' : Walk κ) (new : List κ) : Prop where
  order : w'.order = w.order ++ new
  visited : w'.visited = w.visited ∪ new.toFinset
  nodup : new.Nodup
  fresh : ∀ p ∈ new, p ∉ w.visited
  done : ∀ p ∈ new, Done next w' p

omit [DecidableEq κ] in
theorem Done.mono {w w' : Walk κ} {p : κ} {new : List κ} (h : Done next w p)
    (horder : w'.order = w.order ++ new) (hvisited : w.visited ⊆ w'.visited) :
    Done next w' p := by
  obtain ⟨bs, hbs, hall⟩ := h
  refine ⟨bs, hbs, fun q hq => ?_⟩
  obtain ⟨hseen, hbefore⟩ := hall q hq
  refine ⟨hvisited hseen, hbefore.imp_left fun hb => ?_⟩
  rw [Before, horder]
  exact hb.trans (List.sublist_append_left _ _)

theorem extends_refl (w : Walk κ) : Extends next w w [] :=
  ⟨(List.append_nil _).symm, by simp, .nil, fun _ h => absurd h List.not_mem_nil,
    fun _ h => absurd h List.not_mem_nil⟩

theorem Extends.trans {w w' w'' : Walk κ} {new new' : List κ} (h : Extends next w w' new)
    (h' : Extends next w' w'' new') : Extends next w w'' (new ++ new') where
  order := by rw [h'.order, h.order, List.append_assoc]
  visited := by rw [h'.visited, h.visited, List.toFinset_append, Finset.union_assoc]
  nodup := by
    refine List.nodup_append.mpr ⟨h.nodup, h'.nodup, fun p hp q hq heq => ?_⟩
    refine h'.fresh q hq ?_
    rw [h.visited, Finset.mem_union, List.mem_toFinset, ← heq]
    exact .inr hp
  fresh := by
    intro p hp
    rcases List.mem_append.mp hp with hp | hp
    · exact h.fresh p hp
    · intro hold
      refine h'.fresh p hp ?_
      rw [h.visited]
      exact Finset.mem_union_left _ hold
  done := by
    intro p hp
    rcases List.mem_append.mp hp with hp | hp
    · refine (h.done p hp).mono h'.order ?_
      rw [h'.visited]
      exact Finset.subset_union_left
    · exact h'.done p hp

-- How a call may end: an error of a node it reaches, or a walk that goes on from the one given.
def Ends (next : κ → Except ε (List κ)) (a : κ) (w : Walk κ) : Except ε (Walk κ) → Prop
  | .error e => ∃ b, Reaches next a b ∧ next b = .error e
  | .ok w' => a ∈ w'.visited ∧
      ∃ new, Extends next w w' new ∧ (∀ p ∈ new, Reaches next a p) ∧
        (a ∉ w.visited → new.getLast? = some a)

structure Visiting (next : κ → Except ε (List κ)) (nodes : Finset κ) (a : κ) (w : Walk κ) :
    Prop where
  node : a ∈ nodes
  finished : w.order.toFinset ⊆ w.visited
  within : w.visited ⊆ nodes
  still : ∀ s ∈ w.visited, s ∉ w.order → Reaches next s a

variable {nodes : Finset κ}

theorem Extends.still {w w' : Walk κ} {new : List κ} (h : Extends next w w' new) {s : κ}
    (hs : s ∈ w'.visited) (hno : s ∉ w'.order) : s ∈ w.visited ∧ s ∉ w.order := by
  rw [h.order, List.mem_append, not_or] at hno
  rw [h.visited, Finset.mem_union, List.mem_toFinset] at hs
  exact ⟨hs.resolve_right hno.2, hno.1⟩

theorem Extends.finished {w w' : Walk κ} {new : List κ} (h : Extends next w w' new)
    (hw : w.order.toFinset ⊆ w.visited) : w'.order.toFinset ⊆ w'.visited := by
  rw [h.order, h.visited, List.toFinset_append]
  exact Finset.union_subset_union_left hw

theorem Extends.within {w w' : Walk κ} {new : List κ} (h : Extends next w w' new)
    (hw : w.visited ⊆ nodes) (hnew : ∀ p ∈ new, p ∈ nodes) : w'.visited ⊆ nodes := by
  rw [h.visited]
  exact Finset.union_subset hw (fun p hp => hnew p (List.mem_toFinset.mp hp))

def Closed (next : κ → Except ε (List κ)) (nodes : Finset κ) : Prop :=
  ∀ a ∈ nodes, ∀ b, Edge next a b → b ∈ nodes

omit [DecidableEq κ] in
theorem Closed.reaches (hclosed : Closed next nodes) {a b : κ} (ha : a ∈ nodes)
    (h : Reaches next a b) : b ∈ nodes := by
  induction h with
  | refl => exact ha
  | tail _ hedge ih => exact hclosed _ ih _ hedge

def EndsAll (next : κ → Except ε (List κ)) (bs : List κ) (w : Walk κ) : Except ε (Walk κ) → Prop
  | .error e => ∃ b ∈ bs, ∃ c, Reaches next b c ∧ next c = .error e
  | .ok w' => (∀ b ∈ bs, b ∈ w'.visited) ∧
      ∃ new, Extends next w w' new ∧ ∀ p ∈ new, ∃ b ∈ bs, Reaches next b p

theorem each_ends (hclosed : Closed next nodes) {f : κ → Walk κ → Option (Except ε (Walk κ))}
    {fuel : Nat} (hf : ∀ b w, Visiting next nodes b w → (nodes \ w.visited).card < fuel →
      ∃ r, f b w = some r ∧ Ends next b w r) {bs : List κ} {w : Walk κ}
    (hbs : ∀ b ∈ bs, Visiting next nodes b w) (hfuel : (nodes \ w.visited).card < fuel) :
    ∃ r, each f bs w = some r ∧ EndsAll next bs w r := by
  induction bs generalizing w with
  | nil =>
    exact ⟨.ok w, rfl, fun _ h => absurd h List.not_mem_nil, [], extends_refl w,
      fun _ h => absurd h List.not_mem_nil⟩
  | cons b bs ih =>
    have hb := hbs b List.mem_cons_self
    obtain ⟨r, hr, hends⟩ := hf b w hb hfuel
    rw [each, hr]
    cases r with
    | error e =>
      obtain ⟨c, hc, he⟩ := hends
      exact ⟨.error e, rfl, b, List.mem_cons_self, c, hc, he⟩
    | ok w₁ =>
      obtain ⟨hseen, new, hext, hreach, -⟩ := hends
      have hsub : w.visited ⊆ w₁.visited := by
        rw [hext.visited]
        exact Finset.subset_union_left
      have hrest : ∀ b' ∈ bs, Visiting next nodes b' w₁ := by
        intro b' hb'
        have hold := hbs b' (List.mem_cons_of_mem b hb')
        refine ⟨hold.node, hext.finished hold.finished, hext.within hold.within ?_, ?_⟩
        · exact fun p hp => hclosed.reaches hb.node (hreach p hp)
        · intro s hs hno
          obtain ⟨hs', hno'⟩ := hext.still hs hno
          exact hold.still s hs' hno'
      have hless : (nodes \ w₁.visited).card < fuel :=
        lt_of_le_of_lt (Finset.card_le_card (Finset.sdiff_subset_sdiff (Finset.Subset.refl _) hsub))
          hfuel
      obtain ⟨r, hr', hends'⟩ := ih hrest hless
      refine ⟨r, hr', ?_⟩
      cases r with
      | error e =>
        obtain ⟨b', hb', c, hc, he⟩ := hends'
        exact ⟨b', List.mem_cons_of_mem b hb', c, hc, he⟩
      | ok w₂ =>
        obtain ⟨hseen', new', hext', hreach'⟩ := hends'
        refine ⟨fun b' hb' => ?_, new ++ new', hext.trans hext', fun p hp => ?_⟩
        · rcases List.mem_cons.mp hb' with rfl | hb'
          · rw [hext'.visited]
            exact Finset.mem_union_left _ hseen
          · exact hseen' b' hb'
        · rcases List.mem_append.mp hp with hp | hp
          · exact ⟨b, List.mem_cons_self, hreach p hp⟩
          · obtain ⟨b', hb', hr''⟩ := hreach' p hp
            exact ⟨b', List.mem_cons_of_mem b hb', hr''⟩

theorem Visiting.enter {a b : κ} {w : Walk κ} (h : Visiting next nodes a w)
    (hclosed : Closed next nodes) (hedge : Edge next a b) :
    Visiting next nodes b ⟨insert a w.visited, w.order⟩ where
  node := hclosed a h.node b hedge
  finished := h.finished.trans (Finset.subset_insert a _)
  within := Finset.insert_subset h.node h.within
  still := by
    intro s hs hno
    rcases Finset.mem_insert.mp hs with rfl | hs
    · exact .single hedge
    · exact (h.still s hs hno).tail hedge

-- A node is finished after everything it leads to that was not open already.
theorem Extends.finish {a : κ} {bs new : List κ} {w w' : Walk κ} (h : Visiting next nodes a w)
    (ha : a ∉ w.visited) (hbs : next a = .ok bs)
    (hext : Extends next ⟨insert a w.visited, w.order⟩ w' new)
    (hseen : ∀ b ∈ bs, b ∈ w'.visited) :
    Extends next w ⟨w'.visited, w'.order ++ [a]⟩ (new ++ [a]) where
  order := by rw [hext.order, List.append_assoc]
  visited := by
    rw [hext.visited, List.toFinset_append, List.toFinset_cons, List.toFinset_nil,
      Finset.insert_union, Finset.union_comm new.toFinset, ← Finset.union_assoc,
      insert_empty_eq, Finset.union_comm w.visited {a}, Finset.union_assoc, Finset.insert_eq]
  nodup := by
    refine List.nodup_append.mpr ⟨hext.nodup, List.nodup_singleton a, fun p hp q hq heq => ?_⟩
    obtain rfl := List.mem_singleton.mp hq
    exact hext.fresh p hp (heq ▸ Finset.mem_insert_self _ _)
  fresh := by
    intro p hp
    rcases List.mem_append.mp hp with hp | hp
    · exact fun hold => hext.fresh p hp (Finset.mem_insert_of_mem hold)
    · rw [List.mem_singleton.mp hp]
      exact ha
  done := by
    intro p hp
    rcases List.mem_append.mp hp with hp | hp
    · exact (hext.done p hp).mono rfl (Finset.Subset.refl _)
    · obtain rfl := List.mem_singleton.mp hp
      refine ⟨bs, hbs, fun q hq => ⟨hseen q hq, ?_⟩⟩
      by_cases hfinished : q ∈ w'.order
      · exact .inl (before_append hfinished)
      · obtain ⟨hopen, hno⟩ := hext.still (hseen q hq) hfinished
        rcases Finset.mem_insert.mp hopen with rfl | hopen
        · exact .inr .refl
        · exact .inr (h.still q hopen hno)

theorem visit_ends (hclosed : Closed next nodes) (fuel : Nat) (a : κ) (w : Walk κ)
    (h : Visiting next nodes a w) (hfuel : (nodes \ w.visited).card < fuel) :
    ∃ r, visit next fuel a w = some r ∧ Ends next a w r := by
  induction fuel generalizing a w with
  | zero => omega
  | succ fuel ih =>
    rw [visit]
    by_cases ha : a ∈ w.visited
    · rw [if_pos ha]
      exact ⟨.ok w, rfl, ha, [], extends_refl w, fun _ h => absurd h List.not_mem_nil,
        fun hno => absurd ha hno⟩
    · rw [if_neg ha]
      cases hbs : next a with
      | error e => exact ⟨.error e, rfl, a, .refl, hbs⟩
      | ok bs =>
        have hless : (nodes \ insert a w.visited).card < fuel := by
          have hin : a ∈ nodes \ w.visited := Finset.mem_sdiff.mpr ⟨h.node, ha⟩
          have hcard := Finset.card_erase_lt_of_mem hin
          rw [Finset.sdiff_insert]
          omega
        obtain ⟨r, hr, hends⟩ := each_ends hclosed ih
          (fun b hb => h.enter hclosed ⟨bs, hbs, hb⟩) hless
        simp only [hr]
        cases r with
        | error e =>
          obtain ⟨b, hb, c, hc, he⟩ := hends
          exact ⟨.error e, rfl, c, .head ⟨bs, hbs, hb⟩ hc, he⟩
        | ok w' =>
          obtain ⟨hseen, new, hext, hreach⟩ := hends
          have hmem : a ∈ w'.visited := by
            rw [hext.visited]
            exact Finset.mem_union_left _ (Finset.mem_insert_self _ _)
          refine ⟨.ok _, rfl, hmem, new ++ [a], hext.finish h ha hbs hseen, fun p hp => ?_,
            fun _ => List.getLast?_concat⟩
          rcases List.mem_append.mp hp with hp | hp
          · obtain ⟨b, hb, hr'⟩ := hreach p hp
            exact .head ⟨bs, hbs, hb⟩ hr'
          · rw [List.mem_singleton.mp hp]
            exact .refl

-- Everything reachable from `a` and nothing else, each once, `a` last, and what a node leads to
-- before it unless that leads back.
structure Postorder (next : κ → Except ε (List κ)) (a : κ) (order : List κ) : Prop where
  mem : ∀ p, p ∈ order ↔ Reaches next a p
  nodup : order.Nodup
  last : order.getLast? = some a
  before : ∀ p q, p ∈ order → Edge next p q → ¬ Reaches next q p → Before order q p

theorem visit_postorder (hclosed : Closed next nodes) {a : κ} (ha : a ∈ nodes) {fuel : Nat}
    (hfuel : nodes.card < fuel) :
    (∃ e b, visit next fuel a ⟨∅, []⟩ = some (.error e) ∧ Reaches next a b ∧ next b = .error e) ∨
      ∃ w, visit next fuel a ⟨∅, []⟩ = some (.ok w) ∧ Postorder next a w.order ∧
        ∀ p ∈ w.order, ∃ bs, next p = .ok bs := by
  have hvisiting : Visiting next nodes a ⟨∅, []⟩ :=
    ⟨ha, by simp, Finset.empty_subset _, fun s hs => absurd hs (Finset.notMem_empty s)⟩
  obtain ⟨r, hr, hends⟩ := visit_ends hclosed fuel a ⟨∅, []⟩ hvisiting (by simpa using hfuel)
  cases r with
  | error e =>
    obtain ⟨b, hb, he⟩ := hends
    exact .inl ⟨e, b, hr, hb, he⟩
  | ok w =>
    obtain ⟨hmem, new, hext, hreach, hlast⟩ := hends
    have horder : w.order = new := hext.order
    have hvisited : w.visited = new.toFinset := by rw [hext.visited, Finset.empty_union]
    have hedges : ∀ p ∈ new, ∀ q, Edge next p q →
        q ∈ new ∧ (Before new q p ∨ Reaches next q p) := by
      intro p hp q hedge
      obtain ⟨bs, hbs, hall⟩ := hext.done p hp
      obtain ⟨bs', hbs', hq⟩ := hedge
      rw [hbs] at hbs'
      obtain rfl := Except.ok.inj hbs'
      obtain ⟨hseen, hbefore⟩ := hall q hq
      rw [hvisited, List.mem_toFinset] at hseen
      exact ⟨hseen, horder ▸ hbefore⟩
    refine .inr ⟨w, hr, ?_, fun p hp => ?_⟩
    · rw [horder]
      refine ⟨fun p => ⟨hreach p, fun hp => ?_⟩, hext.nodup,
        hlast (Finset.notMem_empty a), fun p q hp hedge hback => ?_⟩
      · induction hp with
        | refl =>
          rw [hvisited, List.mem_toFinset] at hmem
          exact hmem
        | tail _ hedge ih => exact (hedges _ ih _ hedge).1
      · exact (hedges p hp q hedge).2.resolve_right hback
    · obtain ⟨bs, hbs, -⟩ := hext.done p (horder ▸ hp)
      exact ⟨bs, hbs⟩

end Spec

end DepthFirst

end Collections

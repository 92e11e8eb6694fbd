import Mathlib.Data.List.Infix

namespace LangGraph

abbrev NodeName := List Char

-- The nodes of a Pregel in their order: a node may hold another Pregel, or a graph that is not one.
inductive NestedGraphs where
  | nil
  | plain (name : NodeName) (rest : NestedGraphs)
  | remote (name : NodeName) (rest : NestedGraphs)
  | pregel (name : NodeName) (children rest : NestedGraphs)

def joined : List NodeName → NodeName
  | [] => []
  | [n] => n
  | n :: m :: path => n ++ '|' :: joined (m :: path)

namespace NestedGraphs

-- `get_subgraphs` yields each namespace with the path of the subgraph it stands for.
def getSubgraphs (recurse : Bool) :
    NestedGraphs → Option NodeName → List (NodeName × List NodeName)
  | .nil, _ => []
  | .plain _ rest, namespace' => getSubgraphs recurse rest namespace'
  | .remote name rest, none => (name, [name]) :: getSubgraphs recurse rest none
  | .remote name rest, some ns =>
      if ns = name then [(name, [name])] else getSubgraphs recurse rest (some ns)
  | .pregel name children rest, none =>
      (name, [name]) ::
        ((if recurse then
            (getSubgraphs recurse children none).map
              (fun e => (name ++ '|' :: e.1, name :: e.2))
          else []) ++
          getSubgraphs recurse rest none)
  | .pregel name children rest, some ns =>
      if name <+: ns then
        if ns = name then [(name, [name])]
        else if recurse then
          (getSubgraphs recurse children (some (ns.drop (name.length + 1)))).map
              (fun e => (name ++ '|' :: e.1, name :: e.2)) ++
            getSubgraphs recurse rest (some (ns.drop (name.length + 1)))
        else getSubgraphs recurse rest (some ns)
      else getSubgraphs recurse rest (some ns)

def holds : NestedGraphs → List NodeName → Bool
  | .nil, _ => false
  | .plain _ rest, path => rest.holds path
  | .remote name rest, path => path = [name] || rest.holds path
  | .pregel _ _ rest, [] => rest.holds []
  | .pregel name children rest, n :: path =>
      if name = n then path.isEmpty || children.holds path else rest.holds (n :: path)

-- No subgraph passes the filter for what is left of the namespace.
def Avoids : NestedGraphs → NodeName → Prop
  | .nil, _ => True
  | .plain _ rest, ns => rest.Avoids ns
  | .remote name rest, ns => ns ≠ name ∧ rest.Avoids ns
  | .pregel name _ rest, ns => ¬ name <+: ns ∧ rest.Avoids ns

-- Some chain of subgraphs spells the namespace, each name starting what the ones before it left.
def Spells : NestedGraphs → NodeName → Prop
  | .nil, _ => False
  | .plain _ rest, ns => rest.Spells ns
  | .remote name rest, ns => ns = name ∨ rest.Spells ns
  | .pregel name children rest, ns =>
      if name <+: ns then
        ns = name ∨ children.Spells (ns.drop (name.length + 1)) ∨
          rest.Spells (ns.drop (name.length + 1))
      else rest.Spells ns

-- The nodes that are not of the path, and start what is left of the namespace, hide no subgraph
-- of the path and spell none of their own.
def Clear : NestedGraphs → List NodeName → Prop
  | .nil, _ => True
  | .plain _ rest, path => rest.Clear path
  | .remote name rest, path => path = [name] ∨ joined path ≠ name ∧ rest.Clear path
  | .pregel name _ rest, [] => name ≠ [] ∧ rest.Clear []
  | .pregel name children rest, n :: path =>
      if name = n then path = [] ∨ children.Clear path ∧ ¬ rest.Spells (joined path)
      else if name <+: joined (n :: path) then
        rest.holds (n :: path) = false ∧
          ¬ (pregel name children rest).Spells (joined (n :: path))
      else rest.Clear (n :: path)

-- Only the nodes of the path start what is left of the namespace.
def Unambiguous : NestedGraphs → List NodeName → Prop
  | .nil, _ => True
  | .plain _ rest, path => rest.Unambiguous path
  | .remote name rest, path => path = [name] ∨ joined path ≠ name ∧ rest.Unambiguous path
  | .pregel name _ rest, [] => name ≠ [] ∧ rest.Unambiguous []
  | .pregel name children rest, n :: path =>
      if name = n then path = [] ∨ children.Unambiguous path ∧ rest.Avoids (joined path)
      else ¬ name <+: joined (n :: path) ∧ rest.Unambiguous (n :: path)

variable {g : NestedGraphs} {path : List NodeName} {ns n : NodeName}

theorem getSubgraphs_eq_nil : g.getSubgraphs true (some ns) = [] ↔ ¬ g.Spells ns := by
  induction g generalizing ns with
  | nil => exact iff_of_true rfl not_false
  | plain name rest ih => exact ih
  | remote name rest ih =>
    rw [getSubgraphs, Spells, not_or, ← ih]
    split
    · rename_i hname
      exact iff_of_false (List.cons_ne_nil _ _) (fun h => h.1 hname)
    · rename_i hne
      exact (and_iff_right hne).symm
  | pregel name children rest ihc ih =>
    rw [getSubgraphs, Spells]
    by_cases hstarts : name <+: ns
    · rw [if_pos hstarts, if_pos hstarts, not_or, not_or, ← ihc, ← ih]
      split
      · rename_i hname
        exact iff_of_false (List.cons_ne_nil _ _) (fun h => h.1 hname)
      · rename_i hne
        rw [if_pos rfl, List.append_eq_nil_iff, List.map_eq_nil_iff, and_iff_right hne]
    · rw [if_neg hstarts, if_neg hstarts]
      exact ih

theorem not_spells_of_avoids (h : g.Avoids ns) : ¬ g.Spells ns := by
  induction g with
  | nil => exact not_false
  | plain name rest ih => exact ih h
  | remote name rest ih => exact not_or.mpr ⟨h.1, ih h.2⟩
  | pregel name children rest _ ih =>
    rw [Spells, if_neg h.1]
    exact ih h.2

-- In particular where no name starts another's.
theorem clear_of_unambiguous (h : g.Unambiguous path) : g.Clear path := by
  induction g generalizing path with
  | nil => trivial
  | plain name rest ih => exact ih h
  | remote name rest ih => exact h.imp id (And.imp_right ih)
  | pregel name children rest ihc ih =>
    cases path with
    | nil => exact ⟨h.1, ih h.2⟩
    | cons n path =>
      unfold Unambiguous at h
      unfold Clear
      by_cases hn : name = n
      · rw [if_pos hn] at h ⊢
        exact h.imp id (And.imp ihc not_spells_of_avoids)
      · rw [if_neg hn] at h ⊢
        rw [if_neg h.1]
        exact ih h.2

theorem holds_nil (g : NestedGraphs) : g.holds [] = false := by
  induction g with
  | nil => rfl
  | plain name rest ih => exact ih
  | remote name rest ih => exact ih
  | pregel name children rest _ ih => exact ih

theorem joined_cons (n : NodeName) (h : path ≠ []) : joined (n :: path) = n ++ '|' :: joined path := by
  cases path with
  | nil => exact absurd rfl h
  | cons m path => rfl

theorem prefix_joined (n : NodeName) (path : List NodeName) : n <+: joined (n :: path) := by
  cases path with
  | nil => exact List.prefix_rfl
  | cons m path => exact List.prefix_append _ _

theorem joined_ne (n : NodeName) (h : path ≠ []) : joined (n :: path) ≠ n := by
  intro heq
  rw [joined_cons n h] at heq
  have hlength := congrArg List.length heq
  simp at hlength

theorem drop_joined (n : NodeName) (h : path ≠ []) :
    (joined (n :: path)).drop (n.length + 1) = joined path := by
  rw [joined_cons n h, ← List.drop_drop, List.drop_left]
  rfl

theorem length_lt_of_prefix (h : n <+: ns) (hne : ns ≠ n) : n.length < ns.length := by
  have hle := h.length_le
  have hlength : n.length ≠ ns.length := fun heq => hne (h.eq_of_length heq).symm
  omega

-- A path that is found has used up what it takes of the namespace.
theorem length_getSubgraphs {e : NodeName × List NodeName}
    (h : e ∈ g.getSubgraphs true (some ns)) :
    e.2 ≠ [] ∧ (joined e.2).length ≤ ns.length := by
  induction g generalizing ns e with
  | nil => cases h
  | plain name rest ih => exact ih h
  | remote name rest ih =>
    rw [getSubgraphs] at h
    split at h
    · rename_i hname
      obtain rfl := List.mem_singleton.mp h
      exact ⟨List.cons_ne_nil _ _, hname ▸ Nat.le_refl _⟩
    · exact ih h
  | pregel name children rest ihc ih =>
    rw [getSubgraphs] at h
    split at h
    · rename_i hstarts
      split at h
      · rename_i hname
        obtain rfl := List.mem_singleton.mp h
        exact ⟨List.cons_ne_nil _ _, hname ▸ Nat.le_refl _⟩
      · rename_i hne
        have hlt := length_lt_of_prefix hstarts hne
        rw [if_pos rfl] at h
        rcases List.mem_append.mp h with hmem | hmem
        · obtain ⟨e', he', rfl⟩ := List.mem_map.mp hmem
          obtain ⟨hpath, hle⟩ := ihc he'
          rw [List.length_drop] at hle
          refine ⟨List.cons_ne_nil _ _, ?_⟩
          rw [joined_cons name hpath, List.length_append, List.length_cons]
          omega
        · obtain ⟨hpath, hle⟩ := ih hmem
          rw [List.length_drop] at hle
          exact ⟨hpath, by omega⟩
    · exact ih h

-- A stray subgraph uses up what the path takes of the namespace.
theorem getSubgraphs_stray {name : NodeName} (hn : name ≠ n) (children rest : NestedGraphs)
    (hstarts : name <+: joined (n :: path)) (x : NodeName) :
    (x, n :: path) ∉ (pregel name children rest).getSubgraphs true (some (joined (n :: path))) := by
  rw [getSubgraphs, if_pos hstarts]
  split
  · intro hmem
    exact hn (List.cons.inj (Prod.mk.inj (List.mem_singleton.mp hmem)).2).1.symm
  · rename_i hne
    have hlt := length_lt_of_prefix hstarts hne
    rw [if_pos rfl]
    intro hmem
    rcases List.mem_append.mp hmem with hmem | hmem
    · obtain ⟨e', -, heq⟩ := List.mem_map.mp hmem
      exact hn (List.cons.inj (Prod.mk.inj heq).2).1
    · have hle : (joined (n :: path)).length ≤ _ := (length_getSubgraphs hmem).2
      rw [List.length_drop] at hle
      omega

-- Past a node of the path its later siblings are to give nothing.
theorem append_exact_iff {name : NodeName} (hpath : path ≠ []) (children rest : NestedGraphs)
    (found : Bool) :
    (children.getSubgraphs true (some (joined path))).map
            (fun e => (name ++ '|' :: e.1, name :: e.2)) ++
          rest.getSubgraphs true (some (joined path)) =
        (if found then [(joined (name :: path), name :: path)] else []) ↔
      children.getSubgraphs true (some (joined path)) =
          (if found then [(joined path, path)] else []) ∧
        rest.getSubgraphs true (some (joined path)) = [] := by
  cases found with
  | false =>
    simp only [Bool.false_eq_true, if_false, List.append_eq_nil_iff, List.map_eq_nil_iff]
  | true =>
    simp only [if_true]
    constructor
    · intro h
      rcases List.append_eq_singleton_iff.mp h with ⟨-, hrest⟩ | ⟨hchildren, hrest⟩
      · have hmem : (joined (name :: path), name :: path) ∈
            rest.getSubgraphs true (some (joined path)) := by
          rw [hrest]
          exact List.mem_cons_self
        have hle : (joined (name :: path)).length ≤ _ := (length_getSubgraphs hmem).2
        rw [joined_cons name hpath, List.length_append, List.length_cons] at hle
        omega
      · obtain ⟨⟨x, path'⟩, hlist, heq⟩ := List.map_eq_singleton_iff.mp hchildren
        obtain ⟨hx, htail⟩ := Prod.mk.inj heq
        obtain rfl : path' = path := (List.cons.inj htail).2
        rw [joined_cons name hpath] at hx
        obtain rfl : x = joined path' := (List.cons.inj (List.append_cancel_left hx)).2
        exact ⟨hlist, hrest⟩
    · rintro ⟨hchildren, hrest⟩
      rw [hchildren, hrest, List.map_singleton, List.append_nil, joined_cons name hpath]

theorem getSubgraphs_exact (g : NestedGraphs) (path : List NodeName) :
    g.getSubgraphs true (some (joined path)) =
        (if g.holds path then [(joined path, path)] else []) ↔ g.Clear path := by
  induction g generalizing path with
  | nil => exact iff_of_true rfl trivial
  | plain name rest ih => exact ih path
  | remote name rest ih =>
    rw [getSubgraphs, holds, Clear]
    by_cases hpath : path = [name]
    · subst hpath
      simp [joined]
    · by_cases hname : joined path = name
      · rw [if_pos hname]
        refine iff_of_false ?_ (fun h => h.elim hpath (fun h => h.1 hname))
        split
        · intro heq
          exact hpath (Prod.mk.inj (List.cons.inj heq).1).2.symm
        · exact List.cons_ne_nil _ _
      · rw [if_neg hname, or_iff_right hpath, and_iff_right hname, ← ih path]
        simp [hpath]
  | pregel name children rest ihc ih =>
    cases path with
    | nil =>
      rw [getSubgraphs, holds, Clear]
      have hnone := holds_nil rest
      by_cases hname : name = []
      · subst hname
        simp [joined, hnone]
      · have hno : ¬ name <+: joined [] := mt List.prefix_nil.mp hname
        rw [if_neg hno, and_iff_right hname]
        exact ih []
    | cons n path =>
      rw [holds, Clear]
      by_cases hn : name = n
      · subst hn
        rw [if_pos rfl, if_pos rfl, getSubgraphs, if_pos (prefix_joined name path)]
        by_cases hpath : path = []
        · subst hpath
          simp [joined]
        · have hempty : path.isEmpty = false := by simpa using hpath
          rw [if_neg (joined_ne name hpath), if_pos rfl, drop_joined name hpath, hempty,
            Bool.false_or, append_exact_iff hpath, ihc path, getSubgraphs_eq_nil,
            or_iff_right hpath]
      · rw [if_neg hn, if_neg hn]
        by_cases hstarts : name <+: joined (n :: path)
        · rw [if_pos hstarts, ← getSubgraphs_eq_nil]
          cases hholds : rest.holds (n :: path) with
          | false => simp
          | true =>
            refine iff_of_false (fun heq => ?_) (fun h => Bool.noConfusion h.1)
            have hstray := getSubgraphs_stray hn children rest hstarts (joined (n :: path))
            rw [heq] at hstray
            exact hstray List.mem_cons_self
        · rw [if_neg hstarts, getSubgraphs, if_neg hstarts]
          exact ih (n :: path)

-- A node whose name starts with a sibling's is not found.
theorem prefix_hides_subgraph :
    (pregel "a".toList .nil (.pregel "ab".toList .nil .nil)).holds ["ab".toList] = true ∧
      (pregel "a".toList .nil (.pregel "ab".toList .nil .nil)).getSubgraphs true
        (some (joined ["ab".toList])) = [] := by
  decide

end NestedGraphs

end LangGraph

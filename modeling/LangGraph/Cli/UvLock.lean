import LangGraph.Collections.DepthFirst
import LangGraph.Collections.Dict

namespace LangGraph

open Collections

namespace UvLock

structure UvLockPackage where
  name : String
  normalizedName : String
  pyprojectPath : String
  deriving DecidableEq

-- Discovery refuses a second package of a name.
structure UvLockWorkspace where
  packagesByName : Dict String UvLockPackage
  named : ∀ name p, packagesByName.get? name = some p → p.normalizedName = name

abbrev UsageError := String

-- What `_validate_uv_lock_package` leaves on a package that it does not refuse.
structure Validation where
  packageEnabled : Bool
  workspaceDependencies : List String

abbrev Validate := UvLockPackage → Except UsageError Validation

structure Install where
  installOrder : List UvLockPackage
  visited : Finset String
  validated : Dict String Validation

def Install.validate (validate : Validate) (package : UvLockPackage) (s : Install) :
    Except UsageError Install :=
  if s.validated.contains package.normalizedName then .ok s
  else
    match validate package with
    | .error e => .error e
    | .ok v => .ok { s with validated := s.validated.set package.normalizedName v }

def Install.dependencies (package : UvLockPackage) (s : Install) : List String :=
  ((s.validated.get? package.normalizedName).map Validation.workspaceDependencies).getD []

def dependencyLoop (workspace : UvLockWorkspace)
    (visit : UvLockPackage → Install → Option (Except UsageError Install)) :
    List String → Install → Option (Except UsageError Install)
  | [], s => some (.ok s)
  | dependencyName :: names, s =>
      match workspace.packagesByName.get? dependencyName with
      | none => dependencyLoop workspace visit names s
      | some dependency =>
          match visit dependency s with
          | some (.ok s) => dependencyLoop workspace visit names s
          | r => r

def visit (workspace : UvLockWorkspace) (validate : Validate) :
    Nat → UvLockPackage → Install → Option (Except UsageError Install)
  | 0, _, _ => none
  | fuel + 1, package, s =>
      if package.normalizedName ∈ s.visited then some (.ok s)
      else
        match Install.validate validate package
            { s with visited := insert package.normalizedName s.visited } with
        | .error e => some (.error e)
        | .ok s =>
            match dependencyLoop workspace (visit workspace validate fuel) (s.dependencies package)
                s with
            | some (.ok s) => some (.ok { s with installOrder := s.installOrder ++ [package] })
            | r => r

-- The recursion goes at most once into each package of the workspace.
def planInstallOrder (workspace : UvLockWorkspace) (validate : Validate) (target : UvLockPackage) :
    Option (Except UsageError (List UvLockPackage)) :=
  match validate target with
  | .error e => some (.error e)
  | .ok v =>
      if v.packageEnabled then
        (visit workspace validate (workspace.packagesByName.items.length + 1) target
          ⟨[], ∅, Dict.ofList [(target.normalizedName, v)]⟩).map (Except.map Install.installOrder)
      else
        some (.error ("'" ++ target.name ++ "' has `tool.uv.package = false` in " ++
          target.pyprojectPath ++ ", so it cannot be deployed. Either remove that setting or " ++
          "point `source.package` at a different workspace member."))

def Discovered (workspace : UvLockWorkspace) (p : UvLockPackage) : Prop :=
  workspace.packagesByName.get? p.normalizedName = some p

def DependsOn (workspace : UvLockWorkspace) (validate : Validate) (p q : UvLockPackage) : Prop :=
  ∃ v, validate p = .ok v ∧
    ∃ name ∈ v.workspaceDependencies, workspace.packagesByName.get? name = some q

def Reaches (workspace : UvLockWorkspace) (validate : Validate) :
    UvLockPackage → UvLockPackage → Prop :=
  Relation.ReflTransGen (DependsOn workspace validate)

structure InstallOrder (workspace : UvLockWorkspace) (validate : Validate)
    (target : UvLockPackage) (order : List UvLockPackage) : Prop where
  mem : ∀ p, p ∈ order ↔ Reaches workspace validate target p
  nodup : order.Nodup
  last : order.getLast? = some target
  before : ∀ p q, p ∈ order → DependsOn workspace validate p q →
    ¬ Reaches workspace validate q p → [q, p].Sublist order

section Names

variable {workspace : UvLockWorkspace} {validate : Validate} {p q : UvLockPackage}

-- The same relation on the names.
def next (workspace : UvLockWorkspace) (validate : Validate) (name : String) :
    Except UsageError (List String) :=
  match workspace.packagesByName.get? name with
  | none => .ok []
  | some p =>
      match validate p with
      | .error e => .error e
      | .ok v => .ok (v.workspaceDependencies.filter (fun n => workspace.packagesByName.contains n))

theorem discovered_of_get? {name : String} (h : workspace.packagesByName.get? name = some p) :
    p.normalizedName = name ∧ Discovered workspace p := by
  have hname := workspace.named name p h
  refine ⟨hname, ?_⟩
  rw [Discovered, hname]
  exact h

theorem Discovered.eq (hp : Discovered workspace p) (hq : Discovered workspace q)
    (h : p.normalizedName = q.normalizedName) : p = q := by
  rw [Discovered, h] at hp
  exact Option.some.inj (hp.symm.trans hq)

theorem DependsOn.discovered (h : DependsOn workspace validate p q) : Discovered workspace q := by
  obtain ⟨v, -, name, -, hq⟩ := h
  exact (discovered_of_get? hq).2

theorem Reaches.discovered (hp : Discovered workspace p) (h : Reaches workspace validate p q) :
    Discovered workspace q := by
  cases h with
  | refl => exact hp
  | tail _ hlast => exact hlast.discovered

theorem next_error_iff (hp : Discovered workspace p) {e : UsageError} :
    next workspace validate p.normalizedName = .error e ↔ validate p = .error e := by
  rw [next, hp]
  cases hv : validate p <;> simp [hv]

theorem edge_iff (hp : Discovered workspace p) {b : String} :
    DepthFirst.Edge (next workspace validate) p.normalizedName b ↔
      ∃ q, q.normalizedName = b ∧ DependsOn workspace validate p q := by
  rw [DepthFirst.Edge, next, hp]
  constructor
  · rintro ⟨bs, hbs, hb⟩
    cases hv : validate p with
    | error e => simp [hv] at hbs
    | ok v =>
      simp only [hv, Except.ok.injEq] at hbs
      subst hbs
      obtain ⟨hmem, hfound⟩ := List.mem_filter.mp hb
      obtain ⟨q, hq⟩ := Dict.mem_keys.mp (Dict.contains_iff.mp hfound)
      exact ⟨q, (discovered_of_get? hq).1, v, hv, b, hmem, hq⟩
  · rintro ⟨q, rfl, v, hv, name, hmem, hq⟩
    obtain ⟨rfl, -⟩ := discovered_of_get? hq
    refine ⟨v.workspaceDependencies.filter (fun n => workspace.packagesByName.contains n),
      by simp only [hv], List.mem_filter.mpr ⟨hmem, ?_⟩⟩
    exact Dict.contains_iff.mpr (Dict.mem_keys.mpr ⟨q, hq⟩)

theorem reaches_iff (hp : Discovered workspace p) {b : String} :
    DepthFirst.Reaches (next workspace validate) p.normalizedName b ↔
      ∃ q, q.normalizedName = b ∧ Reaches workspace validate p q := by
  constructor
  · intro h
    induction h with
    | refl => exact ⟨p, rfl, .refl⟩
    | tail _ hedge ih =>
      obtain ⟨q, rfl, hq⟩ := ih
      obtain ⟨r, hr, hqr⟩ := (edge_iff (hq.discovered hp)).mp hedge
      exact ⟨r, hr, hq.tail hqr⟩
  · rintro ⟨q, rfl, hq⟩
    induction hq with
    | refl => exact .refl
    | tail hpq hqr ih =>
      exact ih.tail ((edge_iff (Reaches.discovered hp hpq)).mpr ⟨_, rfl, hqr⟩)

theorem closed_next : DepthFirst.Closed (next workspace validate)
    workspace.packagesByName.keys.toFinset := by
  intro a ha b hedge
  obtain ⟨p, hp⟩ := Dict.mem_keys.mp (List.mem_toFinset.mp ha)
  obtain ⟨rfl, hdiscovered⟩ := discovered_of_get? hp
  obtain ⟨q, rfl, hpq⟩ := (edge_iff hdiscovered).mp hedge
  exact List.mem_toFinset.mpr (Dict.mem_keys.mpr ⟨q, hpq.discovered⟩)

-- An order of the names is one of the packages.
theorem installOrder_of_names (hp : Discovered workspace p) {order : List UvLockPackage}
    (horder : ∀ q ∈ order, Discovered workspace q)
    (h : DepthFirst.Postorder (next workspace validate) p.normalizedName
      (order.map UvLockPackage.normalizedName)) : InstallOrder workspace validate p order where
  mem := by
    intro q
    constructor
    · intro hq
      obtain ⟨r, hr, hreach⟩ :=
        (reaches_iff hp).mp ((h.mem q.normalizedName).mp (List.mem_map_of_mem hq))
      exact (horder q hq).eq (hreach.discovered hp) hr.symm ▸ hreach
    · intro hreach
      have hname := (h.mem q.normalizedName).mpr ((reaches_iff hp).mpr ⟨q, rfl, hreach⟩)
      obtain ⟨r, hr, hrq⟩ := List.mem_map.mp hname
      exact (horder r hr).eq (hreach.discovered hp) hrq ▸ hr
  nodup := h.nodup.of_map _
  last := by
    have hlast := h.last
    rw [List.getLast?_map] at hlast
    obtain ⟨q, hq, hname⟩ := Option.map_eq_some_iff.mp hlast
    rw [hq, (horder q (List.mem_of_getLast? hq)).eq hp hname]
  before := by
    intro q r hq hdepends hback
    have hqd := horder q hq
    have hbefore := h.before q.normalizedName r.normalizedName (List.mem_map_of_mem hq)
      ((edge_iff hqd).mpr ⟨r, rfl, hdepends⟩) (fun hreach => ?_)
    · obtain ⟨l, hl, hnames⟩ := List.sublist_map_iff.mp hbefore
      rcases l with _ | ⟨r', _ | ⟨q', _ | ⟨x, l⟩⟩⟩
      · cases hnames
      · simp at hnames
      · simp only [List.map_cons, List.map_nil, List.cons.injEq, and_true] at hnames
        have hr' := (horder r' (hl.subset List.mem_cons_self)).eq hdepends.discovered hnames.1.symm
        have hq' := (horder q' (hl.subset (List.mem_cons_of_mem _ List.mem_cons_self))).eq hqd
          hnames.2.symm
        rw [hr', hq'] at hl
        exact hl
      · simp at hnames
    · obtain ⟨s, hs, hreach⟩ := (reaches_iff hdepends.discovered).mp hreach
      exact hback ((hreach.discovered hdepends.discovered).eq hqd hs ▸ hreach)

end Names

section Walks

variable {workspace : UvLockWorkspace} {validate : Validate} {p : UvLockPackage} {s : Install}

def Install.walk (s : Install) : DepthFirst.Walk String :=
  ⟨s.visited, s.installOrder.map UvLockPackage.normalizedName⟩

-- What was validated is what the validation says, and what is to be installed was discovered.
structure Install.Valid (workspace : UvLockWorkspace) (validate : Validate) (s : Install) :
    Prop where
  validated : ∀ p v, Discovered workspace p → s.validated.get? p.normalizedName = some v →
    validate p = .ok v
  installed : ∀ p ∈ s.installOrder, Discovered workspace p

-- A call on packages and one on names that end in the same way.
inductive Follows (workspace : UvLockWorkspace) (validate : Validate) :
    Option (Except UsageError Install) →
      Option (Except UsageError (DepthFirst.Walk String)) → Prop
  | stuck : Follows workspace validate none none
  | error (e : UsageError) : Follows workspace validate (some (.error e)) (some (.error e))
  | ok (s : Install) (h : s.Valid workspace validate) :
      Follows workspace validate (some (.ok s)) (some (.ok s.walk))

theorem validate_spec (hp : Discovered workspace p) (hs : s.Valid workspace validate) :
    (∃ e, Install.validate validate p s = .error e ∧ validate p = .error e) ∨
      ∃ s' v, Install.validate validate p s = .ok s' ∧ validate p = .ok v ∧
        s'.dependencies p = v.workspaceDependencies ∧ s'.Valid workspace validate ∧
        s'.walk = s.walk := by
  rw [Install.validate]
  cases hget : s.validated.get? p.normalizedName with
  | some v =>
    have hcontains : s.validated.contains p.normalizedName = true := by
      rw [Dict.contains, hget, Option.isSome_some]
    rw [if_pos hcontains]
    refine .inr ⟨s, v, rfl, hs.validated p v hp hget, ?_, hs, rfl⟩
    rw [Install.dependencies, hget, Option.map_some, Option.getD_some]
  | none =>
    have hcontains : ¬ s.validated.contains p.normalizedName = true := by
      rw [Dict.contains, hget]
      simp
    rw [if_neg hcontains]
    cases hv : validate p with
    | error e => exact .inl ⟨e, rfl, rfl⟩
    | ok v =>
      refine .inr ⟨_, v, rfl, rfl, ?_, ⟨fun q u hq hu => ?_, hs.installed⟩, rfl⟩
      · rw [Install.dependencies, Dict.get?_set_self, Option.map_some, Option.getD_some]
      · simp only [Dict.get?_set] at hu
        split_ifs at hu with hname
        · rw [hq.eq hp hname, hv, Option.some.inj hu]
        · exact hs.validated q u hq hu

theorem follows_dependencyLoop {f : UvLockPackage → Install → Option (Except UsageError Install)}
    {g : String → DepthFirst.Walk String →
      Option (Except UsageError (DepthFirst.Walk String))}
    (hfg : ∀ p s, Discovered workspace p → s.Valid workspace validate →
      Follows workspace validate (f p s) (g p.normalizedName s.walk)) (names : List String)
    (hs : s.Valid workspace validate) :
    Follows workspace validate (dependencyLoop workspace f names s)
      (DepthFirst.each g (names.filter (fun n => workspace.packagesByName.contains n))
        s.walk) := by
  induction names generalizing s with
  | nil => exact .ok s hs
  | cons name names ih =>
    rw [dependencyLoop]
    cases hget : workspace.packagesByName.get? name with
    | none =>
      have hskip : ¬ workspace.packagesByName.contains name = true := by
        rw [Dict.contains, hget]
        simp
      rw [List.filter_cons_of_neg hskip]
      exact ih hs
    | some p =>
      have hkeep : workspace.packagesByName.contains name = true := by
        rw [Dict.contains, hget, Option.isSome_some]
      obtain ⟨rfl, hp⟩ := discovered_of_get? hget
      have hstep := hfg p s hp hs
      rw [List.filter_cons_of_pos hkeep, DepthFirst.each]
      simp only
      generalize f p s = r at hstep ⊢
      generalize g p.normalizedName s.walk = r' at hstep ⊢
      cases hstep with
      | stuck => exact .stuck
      | error e => exact .error e
      | ok s' hs' => exact ih hs'

theorem follows_visit (fuel : Nat) (hp : Discovered workspace p)
    (hs : s.Valid workspace validate) :
    Follows workspace validate (visit workspace validate fuel p s)
      (DepthFirst.visit (next workspace validate) fuel p.normalizedName s.walk) := by
  induction fuel generalizing p s with
  | zero => exact .stuck
  | succ fuel ih =>
    have hvisited : s.walk.visited = s.visited := rfl
    rw [visit, DepthFirst.visit, hvisited]
    by_cases hseen : p.normalizedName ∈ s.visited
    · rw [if_pos hseen, if_pos hseen]
      exact .ok s hs
    · have hentered : Install.Valid workspace validate
          { s with visited := insert p.normalizedName s.visited } := ⟨hs.validated, hs.installed⟩
      rw [if_neg hseen, if_neg hseen]
      rcases validate_spec hp hentered with ⟨e, he, hv⟩ | ⟨s', v, hs', hv, hdeps, hvalid, hwalk⟩
      · rw [he, (next_error_iff hp).mpr hv]
        exact .error e
      · have hnext : next workspace validate p.normalizedName = .ok
            (v.workspaceDependencies.filter (fun n => workspace.packagesByName.contains n)) := by
          rw [next, hp]
          simp only [hv]
        have hloop := follows_dependencyLoop (fun q s hq hs => ih hq hs) v.workspaceDependencies
          hvalid
        have hstart : s'.walk = ⟨insert p.normalizedName s.visited, s.walk.order⟩ := hwalk
        rw [hs', hnext]
        simp only [hdeps]
        rw [hstart] at hloop
        generalize dependencyLoop workspace (visit workspace validate fuel)
          v.workspaceDependencies s' = r at hloop ⊢
        generalize DepthFirst.each (DepthFirst.visit (next workspace validate) fuel) _ _ = r'
          at hloop ⊢
        cases hloop with
        | stuck => exact .stuck
        | error e => exact .error e
        | ok s'' hs'' =>
          have hwalk' : Install.walk { s'' with installOrder := s''.installOrder ++ [p] } =
              ⟨s''.walk.visited, s''.walk.order ++ [p.normalizedName]⟩ := by
            simp [Install.walk]
          simp only
          rw [← hwalk']
          refine .ok _ ⟨hs''.validated, fun q hq => ?_⟩
          rcases List.mem_append.mp hq with hq | hq
          · exact hs''.installed q hq
          · exact List.mem_singleton.mp hq ▸ hp

end Walks

theorem install_order_closure (workspace : UvLockWorkspace) (validate : Validate)
    (target : { p // Discovered workspace p }) :
    (∃ e, planInstallOrder workspace validate target.1 = some (.error e) ∧
        ((∃ p, Reaches workspace validate target.1 p ∧ validate p = .error e) ∨
          ∃ v, validate target.1 = .ok v ∧ v.packageEnabled = false)) ∨
      ∃ order, planInstallOrder workspace validate target.1 = some (.ok order) ∧
        InstallOrder workspace validate target.1 order ∧
        ∀ p ∈ order, ∃ v, validate p = .ok v := by
  obtain ⟨target, ht⟩ := target
  rw [planInstallOrder]
  cases hv : validate target with
  | error e => exact .inl ⟨e, rfl, .inl ⟨target, .refl, hv⟩⟩
  | ok v =>
    simp only
    cases henabled : v.packageEnabled with
    | false => exact .inl ⟨_, rfl, .inr ⟨v, rfl, henabled⟩⟩
    | true =>
      have hstart : Install.Valid workspace validate
          ⟨[], ∅, Dict.ofList [(target.normalizedName, v)]⟩ := by
        refine ⟨fun p u hp hu => ?_, fun p hp => absurd hp List.not_mem_nil⟩
        have hset : Dict.ofList [(target.normalizedName, v)] =
            (Dict.empty : Dict String Validation).set target.normalizedName v := rfl
        rw [hset, Dict.get?_set] at hu
        split_ifs at hu with hname
        · rw [hp.eq ht hname, hv, Option.some.inj hu]
        · simp at hu
      have hfollows := follows_visit (workspace.packagesByName.items.length + 1) ht hstart
      have hnode : target.normalizedName ∈ workspace.packagesByName.keys.toFinset :=
        List.mem_toFinset.mpr (Dict.mem_keys.mpr ⟨target, ht⟩)
      have hfuel : workspace.packagesByName.keys.toFinset.card <
          workspace.packagesByName.items.length + 1 := by
        have hcard := List.toFinset_card_le workspace.packagesByName.keys
        rw [Dict.keys, List.length_map] at hcard
        rw [Dict.keys]
        omega
      rw [if_pos rfl]
      have hclosed : DepthFirst.Closed (next workspace validate)
          workspace.packagesByName.keys.toFinset := closed_next
      have hspec := DepthFirst.visit_postorder hclosed hnode hfuel
      have hempty : Install.walk ⟨[], ∅, Dict.ofList [(target.normalizedName, v)]⟩ = ⟨∅, []⟩ := rfl
      rw [hempty] at hfollows
      generalize visit workspace validate (workspace.packagesByName.items.length + 1) target
        ⟨[], ∅, Dict.ofList [(target.normalizedName, v)]⟩ = r at hfollows ⊢
      rcases hspec with ⟨e, b, he, hb, hbe⟩ | ⟨w, hw, hpost, hok⟩
      · rw [he] at hfollows
        cases hfollows
        obtain ⟨q, rfl, hq⟩ := (reaches_iff ht).mp hb
        exact .inl ⟨e, rfl, .inl ⟨q, hq, (next_error_iff (hq.discovered ht)).mp hbe⟩⟩
      · rw [hw] at hfollows
        cases hfollows with
        | ok s hs =>
          refine .inr ⟨s.installOrder, rfl, installOrder_of_names ht hs.installed hpost, ?_⟩
          intro p hp
          obtain ⟨bs, hbs⟩ := hok p.normalizedName (List.mem_map_of_mem hp)
          cases hvp : validate p with
          | error e =>
            rw [(next_error_iff (hs.installed p hp)).mpr hvp] at hbs
            cases hbs
          | ok u => exact ⟨u, rfl⟩

end UvLock

end LangGraph

import LangGraph.Serde.JsonPlus
import Mathlib.Data.List.Induction

namespace LangGraph

open Collections

namespace Serde

section Values

variable {U D : Type}

mutual

-- Sets hold hashable elements that differ from each other, and dicts differing keys.
def PyObject.Valid (same : PyObject U D → PyObject U D → Bool) : PyObject U D → Prop
  | .list xs => PyObject.ValidAll same xs
  | .tuple xs => PyObject.ValidAll same xs
  | .dict items => (items.map Prod.fst).Nodup ∧ PyObject.ValidItems same items
  | .collection kind xs => PyObject.ValidAll same xs ∧
      (kind ≠ .deque → PyObject.hashableAll xs = true ∧ xs.Pairwise (fun x y => same x y = false))
  | .send _ arg _ => arg.Valid same
  | .deltaSnapshot value => value.Valid same
  | _ => True

def PyObject.ValidAll (same : PyObject U D → PyObject U D → Bool) : List (PyObject U D) → Prop
  | [] => True
  | x :: xs => x.Valid same ∧ PyObject.ValidAll same xs

def PyObject.ValidItems (same : PyObject U D → PyObject U D → Bool) :
    List (PyStr × PyObject U D) → Prop
  | [] => True
  | (_, x) :: xs => x.Valid same ∧ PyObject.ValidItems same xs

end

structure PyValue (U D : Type) (same : PyObject U D → PyObject U D → Bool) where
  object : PyObject U D
  valid : object.Valid same

mutual

-- The tuples outside sets read back as lists.
def PyObject.readBack : PyObject U D → PyObject U D
  | .list xs => .list (PyObject.readBackAll xs)
  | .tuple xs => .list (PyObject.readBackAll xs)
  | .dict items => .dict (PyObject.readBackItems items)
  | .collection kind xs =>
      .collection kind (if kind = .deque then PyObject.readBackAll xs else xs)
  | .send node arg timeout => .send node arg.readBack timeout
  | .deltaSnapshot value => .deltaSnapshot value.readBack
  | v => v

def PyObject.readBackAll : List (PyObject U D) → List (PyObject U D)
  | [] => []
  | x :: xs => x.readBack :: PyObject.readBackAll xs

def PyObject.readBackItems : List (PyStr × PyObject U D) → List (PyStr × PyObject U D)
  | [] => []
  | (k, x) :: xs => (k, x.readBack) :: PyObject.readBackItems xs

end

mutual

-- Equality of values, in which the elements of a set have no order.
def PyObject.Equal : PyObject U D → PyObject U D → Prop
  | .list xs, .list ys => PyObject.EqualAll xs ys
  | .tuple xs, .tuple ys => PyObject.EqualAll xs ys
  | .dict xs, .dict ys => PyObject.EqualItems xs ys
  | .collection kind xs, .collection kind' ys => kind = kind' ∧
      if kind = .deque then PyObject.EqualAll xs ys
      else PyObject.Included xs ys ∧ ∀ y ∈ ys, PyObject.Includes xs y
  | .send node arg timeout, .send node' arg' timeout' =>
      node = node' ∧ arg.Equal arg' ∧ timeout = timeout'
  | .deltaSnapshot value, .deltaSnapshot value' => value.Equal value'
  | v, w => v = w
termination_by structural v => v

def PyObject.EqualAll : List (PyObject U D) → List (PyObject U D) → Prop
  | [], [] => True
  | x :: xs, y :: ys => x.Equal y ∧ PyObject.EqualAll xs ys
  | _, _ => False
termination_by structural v => v

def PyObject.EqualItems : List (PyStr × PyObject U D) → List (PyStr × PyObject U D) → Prop
  | [], [] => True
  | (k, x) :: xs, (k', y) :: ys => k = k' ∧ x.Equal y ∧ PyObject.EqualItems xs ys
  | _, _ => False
termination_by structural v => v

def PyObject.Included : List (PyObject U D) → List (PyObject U D) → Prop
  | [], _ => True
  | x :: xs, ys => (∃ y ∈ ys, x.Equal y) ∧ PyObject.Included xs ys
termination_by structural v => v

def PyObject.Includes : List (PyObject U D) → PyObject U D → Prop
  | [], _ => False
  | x :: xs, y => x.Equal y ∨ PyObject.Includes xs y
termination_by structural v => v

end

def PyStr.encodable (s : PyStr) : Bool := s.all (fun c => !c.surrogate)

mutual

-- No lone surrogate, and no tuple inside a set.
def PyObject.plain (insideSet : Bool) : PyObject U D → Bool
  | .str s => s.encodable
  | .list xs => PyObject.plainAll insideSet xs
  | .tuple xs => !insideSet && PyObject.plainAll insideSet xs
  | .dict items => PyObject.plainItems insideSet items
  | .collection kind xs => PyObject.plainAll (insideSet || kind ≠ .deque) xs
  | .send node arg _ => PyStr.encodable node && arg.plain insideSet
  | .deltaSnapshot value => value.plain insideSet
  | _ => true

def PyObject.plainAll (insideSet : Bool) : List (PyObject U D) → Bool
  | [] => true
  | x :: xs => x.plain insideSet && PyObject.plainAll insideSet xs

def PyObject.plainItems (insideSet : Bool) : List (PyStr × PyObject U D) → Bool
  | [] => true
  | (k, x) :: xs =>
      PyStr.encodable k && x.plain insideSet && PyObject.plainItems insideSet xs

end

mutual

-- Every int fits into 64 bits.
def PyObject.packable : PyObject U D → Bool
  | .int n => -2 ^ 63 ≤ n && n < 2 ^ 64
  | .list xs => PyObject.packableAll xs
  | .tuple xs => PyObject.packableAll xs
  | .dict items => PyObject.packableItems items
  | .collection _ xs => PyObject.packableAll xs
  | .send _ arg _ => arg.packable
  | .deltaSnapshot value => value.packable
  | _ => true

def PyObject.packableAll : List (PyObject U D) → Bool
  | [] => true
  | x :: xs => x.packable && PyObject.packableAll xs

def PyObject.packableItems : List (PyStr × PyObject U D) → Bool
  | [] => true
  | (_, x) :: xs => x.packable && PyObject.packableItems xs

end

end Values

section Strings

theorem surrogate_ofChar (c : Char) : (CodePoint.ofChar c).surrogate = false := by
  have hvalid := c.valid
  have hval : (CodePoint.ofChar c).val = c.val.toNat := rfl
  simp only [CodePoint.surrogate, hval, Bool.and_eq_false_iff, decide_eq_false_iff_not]
  rcases hvalid with h | h
  · left
    omega
  · right
    have := h.1
    omega

theorem encodable_ofString (s : String) : (PyStr.ofString s).encodable = true := by
  refine List.all_eq_true.mpr (fun c hc => ?_)
  obtain ⟨d, -, rfl⟩ := List.mem_map.mp hc
  rw [surrogate_ofChar]
  rfl

theorem ofChar_ofNat {c : CodePoint} (h : c.surrogate = false) :
    CodePoint.ofChar (Char.ofNat c) = c := by
  have hvalid : Nat.isValidChar c.val := by
    have hlt := c.isLt
    simp only [CodePoint.surrogate, Bool.and_eq_false_iff, decide_eq_false_iff_not] at h
    simp only [Nat.isValidChar]
    omega
  refine Fin.ext ?_
  show (Char.ofNat c.val).toNat = c.val
  rw [Char.ofNat, dif_pos hvalid]
  rfl

theorem ofString_replaceSurrogates {s : PyStr} (h : s.encodable = true) :
    PyStr.ofString s.replaceSurrogates = s := by
  rw [PyStr.ofString, PyStr.replaceSurrogates, String.toList_ofList, List.map_map]
  induction s with
  | nil => rfl
  | cons c s ih =>
    obtain ⟨hc, hs⟩ := Bool.and_eq_true_iff.mp h
    have hc : c.surrogate = false := by simpa using hc
    rw [List.map_cons, ih hs, Function.comp_apply, hc, if_neg Bool.false_ne_true, ofChar_ofNat hc]

theorem ofString_injective {s t : String} (h : PyStr.ofString s = PyStr.ofString t) : s = t := by
  refine String.toList_inj.mp (List.map_injective_iff.mpr (fun c d hcd => ?_) h)
  have hnat : c.toNat = d.toNat := Fin.mk.inj hcd
  exact Char.toNat_inj.mp hnat

@[simp] theorem ofString_inj {s t : String} : PyStr.ofString s = PyStr.ofString t ↔ s = t :=
  ⟨ofString_injective, congrArg PyStr.ofString⟩

end Strings

section Constructors

variable {U D : Type} {same : PyObject U D → PyObject U D → Bool}
  {allowed : AllowedModules}

theorem foldl_insertAll {acc xs : List (PyObject U D)}
    (h : (acc ++ xs).Pairwise (fun x y => same x y = false)) :
    xs.foldl (fun acc x => if acc.any (fun y => same y x) then acc else acc ++ [x]) acc =
      acc ++ xs := by
  induction xs generalizing acc with
  | nil => exact (List.append_nil acc).symm
  | cons x xs ih =>
    have hnew : acc.any (fun y => same y x) = false := by
      refine List.any_eq_false.mpr (fun y hy => ?_)
      rw [(List.pairwise_append.mp h).2.2 y hy x List.mem_cons_self]
      exact Bool.false_ne_true
    rw [List.foldl_cons, hnew, if_neg Bool.false_ne_true, ih (by simpa using h)]
    simp

theorem insertAll_distinct {xs : List (PyObject U D)}
    (h : xs.Pairwise (fun x y => same x y = false)) : insertAll same xs = xs :=
  foldl_insertAll h

theorem mem_insertAll {xs : List (PyObject U D)} {x : PyObject U D} (h : x ∈ insertAll same xs) :
    x ∈ xs := by
  induction xs using List.reverseRecOn with
  | nil => exact h
  | append_singleton xs y ih =>
    rw [insertAll, List.foldl_append, List.foldl_cons, List.foldl_nil] at h
    split at h
    · exact List.mem_append_left _ (ih h)
    · rcases List.mem_append.mp h with h | h
      · exact List.mem_append_left _ (ih h)
      · exact List.mem_append_right _ h

theorem checkAllowed_safe {module name : String} (h : (module, name) ∈ safeMsgpackTypes) :
    checkAllowed allowed (PyStr.ofString module) (PyStr.ofString name) = true := by
  unfold checkAllowed
  rw [Bool.or_eq_true]
  exact Or.inl (List.any_eq_true.mpr ⟨_, h, by simp⟩)

variable [PyText U] [PyText D]

theorem unpackb_constructorExt {code : Nat} (hcode : code ≠ extDeltaSnapshot)
    {module name : String} (h : (module, name) ∈ safeMsgpackTypes) (arg : Msgpack) :
    unpackb same allowed (constructorExt code module name arg) =
      (construct same code (PyStr.ofString module) (PyStr.ofString name)
        (unpackb same allowed arg)).getD .none := by
  simp only [constructorExt, unpackb, unpackAll, extHook, if_neg hcode,
    checkAllowed_safe h, if_true]

theorem unpackb_uuid (u : U) :
    unpackb same allowed (constructorExt extConstructorSingleArg "uuid" "UUID"
      (.str (PyText.text u))) = .uuid u := by
  rw [unpackb_constructorExt (by decide) (by decide)]
  simp [construct, unpackb, constructSingleArg, PyText.ofText_text]

theorem unpackb_decimal (d : D) :
    unpackb same allowed (constructorExt extConstructorSingleArg "decimal" "Decimal"
      (.str (PyText.text d))) = .decimal d := by
  rw [unpackb_constructorExt (by decide) (by decide)]
  simp [construct, unpackb, constructSingleArg, PyText.ofText_text]

theorem Date.new_self (d : Date) : Date.new d.year d.month d.day = some d := by
  rw [Date.new, dif_pos d.valid]

theorem Timedelta.new_self (t : Timedelta) :
    Timedelta.new t.days t.seconds t.microseconds = some t := by
  obtain ⟨days, seconds, microseconds, hdays, hseconds, hmicroseconds⟩ := t
  have hcarry : microseconds / 1000000 = 0 := Int.ediv_eq_zero_of_lt hmicroseconds.1 hmicroseconds.2
  have hcarry' : seconds / 86400 = 0 := Int.ediv_eq_zero_of_lt hseconds.1 hseconds.2
  have hmod : microseconds % 1000000 = microseconds :=
    Int.emod_eq_of_lt hmicroseconds.1 hmicroseconds.2
  have hmod' : seconds % 86400 = seconds := Int.emod_eq_of_lt hseconds.1 hseconds.2
  simp [Timedelta.new, hcarry, hcarry', hmod, hmod', hdays]

theorem unpackb_date (d : Date) :
    unpackb same allowed (constructorExt extConstructorPosArgs "datetime" "date"
      (.array [.int d.year, .int d.month, .int d.day])) = .date d := by
  rw [unpackb_constructorExt (by decide) (by decide)]
  simp [construct, unpackb, unpackAll, constructPosArgs, Date.new_self, extConstructorPosArgs,
    extConstructorSingleArg]

theorem unpackb_timedelta (t : Timedelta) :
    unpackb same allowed (constructorExt extConstructorPosArgs "datetime" "timedelta"
      (.array [.int t.days, .int t.seconds, .int t.microseconds])) = .timedelta t := by
  rw [unpackb_constructorExt (by decide) (by decide)]
  simp [construct, unpackb, unpackAll, constructPosArgs, Timedelta.new_self,
    extConstructorPosArgs, extConstructorSingleArg]

theorem secondsArg_packed (s : Option {f : FloatBits // f.positive = true}) :
    secondsArg (some (unpackb same allowed (packedSeconds s))) = some s := by
  cases s with
  | none => rfl
  | some f => simp [packedSeconds, unpackb, secondsArg, f.2]

theorem unpackb_timeout (p : TimeoutPolicy) :
    unpackb same allowed (packedTimeout p) = .timeoutPolicy p := by
  obtain ⟨run, idle, heartbeat, hbounded⟩ := p
  rw [packedTimeout, unpackb_constructorExt (by decide) (by decide)]
  have hitems (mode : PyStr) : (Dict.ofList
      [(PyStr.ofString "run_timeout", unpackb same allowed (packedSeconds run)),
        (PyStr.ofString "idle_timeout", unpackb same allowed (packedSeconds idle)),
        (PyStr.ofString "refresh_on", .str mode)]).items =
      [(PyStr.ofString "run_timeout", unpackb same allowed (packedSeconds run)),
        (PyStr.ofString "idle_timeout", unpackb same allowed (packedSeconds idle)),
        (PyStr.ofString "refresh_on", .str mode)] :=
    Dict.items_ofList (by simp)
  cases heartbeat <;>
  simp [construct, unpackb, unpackItems, hitems, constructKwArgs, timeoutPolicyOfKwargs,
    Dict.lookup, secondsArg_packed, heartbeatArg, hbounded, extConstructorKwArgs,
    extConstructorPosArgs, extConstructorSingleArg]

theorem unpackb_collection {kind : CollectionKind} {ms : List Msgpack}
    {xs : List (PyObject U D)} (hms : unpackAll same allowed ms = xs)
    (h : kind ≠ .deque → PyObject.hashableAll xs = true ∧
      xs.Pairwise (fun x y => same x y = false)) :
    unpackb same allowed (constructorExt extConstructorSingleArg kind.module kind.name
      (.array ms)) = .collection kind xs := by
  cases kind with
  | deque =>
    rw [unpackb_constructorExt (by decide) (by decide)]
    simp [construct, unpackb, hms, constructSingleArg, CollectionKind.module,
      CollectionKind.name, CollectionKind.new]
  | set =>
    obtain ⟨hhash, hdistinct⟩ := h (by decide)
    rw [unpackb_constructorExt (by decide) (by decide)]
    simp [construct, unpackb, hms, constructSingleArg, CollectionKind.module,
      CollectionKind.name, CollectionKind.new, hhash, insertAll_distinct hdistinct]
  | frozenset =>
    obtain ⟨hhash, hdistinct⟩ := h (by decide)
    rw [unpackb_constructorExt (by decide) (by decide)]
    simp [construct, unpackb, hms, constructSingleArg, CollectionKind.module,
      CollectionKind.name, CollectionKind.new, hhash, insertAll_distinct hdistinct]

theorem unpackb_send {node : PyStr} (hnode : node.encodable = true) {m : Msgpack}
    {arg : PyObject U D} (hm : unpackb same allowed m = arg) (timeout : Option TimeoutPolicy) :
    unpackb same allowed (constructorExt extConstructorPosArgs "langgraph.types" "Send"
      (.array ([.str node.replaceSurrogates, m] ++ (timeout.map packedTimeout).toList))) =
        .send node arg timeout := by
  rw [unpackb_constructorExt (by decide) (by decide)]
  cases timeout with
  | none =>
    simp [construct, unpackb, unpackAll, hm, ofString_replaceSurrogates hnode, constructPosArgs,
      sendFromArgs, extConstructorPosArgs, extConstructorSingleArg]
  | some p =>
    simp [construct, unpackb, unpackAll, hm, ofString_replaceSurrogates hnode, constructPosArgs,
      sendFromArgs, unpackb_timeout, extConstructorPosArgs, extConstructorSingleArg]

theorem extHook_deltaSnapshot (value : PyObject U D) :
    extHook same allowed extDeltaSnapshot value = .deltaSnapshot value := by
  simp [extHook]

end Constructors

section RoundTrip

variable {U D : Type}

mutual

theorem readBack_of_plain : ∀ (v : PyObject U D), v.plain true = true → v.readBack = v
  | .none, _ | .bool _, _ | .int _, _ | .float _, _ | .str _, _ | .bytes _, _ | .uuid _, _
  | .decimal _, _ | .date _, _ | .timedelta _, _ | .timeoutPolicy _, _ => rfl
  | .list xs, h => congrArg PyObject.list (readBackAll_of_plain xs h)
  | .tuple xs, h => nomatch h
  | .dict items, h => congrArg PyObject.dict (readBackItems_of_plain items h)
  | .collection kind xs, h => by
    rw [PyObject.readBack, readBackAll_of_plain xs h, ite_self]
  | .send node arg timeout, h => by
    rw [PyObject.readBack, readBack_of_plain arg (Bool.and_eq_true_iff.mp h).2]
  | .deltaSnapshot value, h => congrArg PyObject.deltaSnapshot (readBack_of_plain value h)

theorem readBackAll_of_plain : ∀ (xs : List (PyObject U D)),
    PyObject.plainAll true xs = true → PyObject.readBackAll xs = xs
  | [], _ => rfl
  | x :: xs, h => by
    obtain ⟨hx, hxs⟩ := Bool.and_eq_true_iff.mp h
    rw [PyObject.readBackAll, readBack_of_plain x hx, readBackAll_of_plain xs hxs]

theorem readBackItems_of_plain : ∀ (items : List (PyStr × PyObject U D)),
    PyObject.plainItems true items = true → PyObject.readBackItems items = items
  | [], _ => rfl
  | (k, x) :: xs, h => by
    obtain ⟨hx, hxs⟩ := Bool.and_eq_true_iff.mp h
    rw [PyObject.readBackItems, readBack_of_plain x (Bool.and_eq_true_iff.mp hx).2,
      readBackItems_of_plain xs hxs]

end

theorem keys_readBackItems (items : List (PyStr × PyObject U D)) :
    (PyObject.readBackItems items).map Prod.fst = items.map Prod.fst := by
  induction items with
  | nil => rfl
  | cons item items ih => rw [PyObject.readBackItems, List.map_cons, ih, List.map_cons]

theorem plainAll_iff {insideSet : Bool} {xs : List (PyObject U D)} :
    PyObject.plainAll insideSet xs = true ↔ ∀ x ∈ xs, x.plain insideSet = true := by
  induction xs with
  | nil => exact iff_of_true rfl (fun x hx => nomatch hx)
  | cons x xs ih => rw [PyObject.plainAll, Bool.and_eq_true, ih, List.forall_mem_cons]

theorem plainItems_iff {insideSet : Bool} {items : List (PyStr × PyObject U D)} :
    PyObject.plainItems insideSet items = true ↔
      ∀ i ∈ items, PyStr.encodable i.1 = true ∧ i.2.plain insideSet = true := by
  induction items with
  | nil => exact iff_of_true rfl (fun x hx => nomatch hx)
  | cons i items ih =>
    rw [PyObject.plainItems, Bool.and_eq_true, Bool.and_eq_true, ih, List.forall_mem_cons]

mutual

theorem equal_refl : ∀ (v : PyObject U D), v.Equal v
  | .none | .bool _ | .int _ | .float _ | .str _ | .bytes _ | .uuid _ | .decimal _ | .date _
  | .timedelta _ | .timeoutPolicy _ => by simp only [PyObject.Equal]
  | .list xs | .tuple xs => equalAll_refl xs
  | .dict items => equalItems_refl items
  | .collection kind xs => by
    refine ⟨rfl, ?_⟩
    split
    · exact equalAll_refl xs
    · exact ⟨included_self xs xs (List.Subset.refl xs), includes_self xs⟩
  | .send node arg timeout => ⟨rfl, equal_refl arg, rfl⟩
  | .deltaSnapshot value => equal_refl value

theorem equalAll_refl : ∀ (xs : List (PyObject U D)), PyObject.EqualAll xs xs
  | [] => trivial
  | x :: xs => ⟨equal_refl x, equalAll_refl xs⟩

theorem equalItems_refl : ∀ (items : List (PyStr × PyObject U D)), PyObject.EqualItems items items
  | [] => trivial
  | (_, x) :: xs => ⟨rfl, equal_refl x, equalItems_refl xs⟩

theorem included_self : ∀ (xs ys : List (PyObject U D)), xs ⊆ ys → PyObject.Included xs ys
  | [], _, _ => trivial
  | x :: xs, ys, h =>
      ⟨⟨x, h List.mem_cons_self, equal_refl x⟩,
        included_self xs ys (fun _ hy => h (List.mem_cons_of_mem x hy))⟩

theorem includes_self : ∀ (xs : List (PyObject U D)), ∀ y ∈ xs, PyObject.Includes xs y
  | [], _, h => nomatch h
  | x :: xs, y, h => by
    rcases List.mem_cons.mp h with heq | h
    · rw [heq]
      exact Or.inl (equal_refl x)
    · exact Or.inr (includes_self xs y h)

end

mutual

theorem plain_of_equal : ∀ (v w : PyObject U D) (insideSet : Bool), v.Equal w →
    v.plain insideSet = true → w.plain insideSet = true
  | .none, w, _, h, hv | .bool _, w, _, h, hv | .int _, w, _, h, hv | .float _, w, _, h, hv
  | .str _, w, _, h, hv | .bytes _, w, _, h, hv | .uuid _, w, _, h, hv | .decimal _, w, _, h, hv
  | .date _, w, _, h, hv | .timedelta _, w, _, h, hv | .timeoutPolicy _, w, _, h, hv => by
    simp only [PyObject.Equal] at h
    rw [← h]
    exact hv
  | .list xs, w, insideSet, h, hv => by
    cases w with
    | list ys => exact plainAll_of_equal xs ys insideSet h hv
    | _ => cases h
  | .tuple xs, w, insideSet, h, hv => by
    cases w with
    | tuple ys =>
      obtain ⟨hinside, hxs⟩ := Bool.and_eq_true_iff.mp hv
      exact Bool.and_eq_true_iff.mpr ⟨hinside, plainAll_of_equal xs ys insideSet h hxs⟩
    | _ => cases h
  | .dict items, w, insideSet, h, hv => by
    cases w with
    | dict items' => exact plainItems_of_equal items items' insideSet h hv
    | _ => cases h
  | .collection kind xs, w, insideSet, h, hv => by
    cases w with
    | collection kind' ys =>
      obtain ⟨rfl, h⟩ := h
      split at h
      · exact plainAll_of_equal xs ys _ h hv
      · exact plainAll_iff.mpr (fun y hy => plain_of_includes xs y _ (h.2 y hy) hv)
    | _ => cases h
  | .send node arg timeout, w, insideSet, h, hv => by
    cases w with
    | send node' arg' timeout' =>
      obtain ⟨rfl, harg, -⟩ := h
      obtain ⟨hnode, hv⟩ := Bool.and_eq_true_iff.mp hv
      exact Bool.and_eq_true_iff.mpr ⟨hnode, plain_of_equal arg arg' insideSet harg hv⟩
    | _ => cases h
  | .deltaSnapshot value, w, insideSet, h, hv => by
    cases w with
    | deltaSnapshot value' => exact plain_of_equal value value' insideSet h hv
    | _ => cases h

theorem plainAll_of_equal : ∀ (xs ys : List (PyObject U D)) (insideSet : Bool),
    PyObject.EqualAll xs ys → PyObject.plainAll insideSet xs = true →
      PyObject.plainAll insideSet ys = true
  | [], [], _, _, _ => rfl
  | x :: xs, y :: ys, insideSet, h, hxs => by
    obtain ⟨hx, hxs⟩ := Bool.and_eq_true_iff.mp hxs
    exact Bool.and_eq_true_iff.mpr ⟨plain_of_equal x y insideSet h.1 hx,
      plainAll_of_equal xs ys insideSet h.2 hxs⟩

theorem plainItems_of_equal : ∀ (xs ys : List (PyStr × PyObject U D)) (insideSet : Bool),
    PyObject.EqualItems xs ys → PyObject.plainItems insideSet xs = true →
      PyObject.plainItems insideSet ys = true
  | [], [], _, _, _ => rfl
  | (k, x) :: xs, (k', y) :: ys, insideSet, h, hxs => by
    obtain ⟨rfl, hxy, h⟩ := h
    obtain ⟨hkx, hxs⟩ := Bool.and_eq_true_iff.mp hxs
    obtain ⟨hk, hx⟩ := Bool.and_eq_true_iff.mp hkx
    exact Bool.and_eq_true_iff.mpr ⟨Bool.and_eq_true_iff.mpr
      ⟨hk, plain_of_equal x y insideSet hxy hx⟩, plainItems_of_equal xs ys insideSet h hxs⟩

theorem plain_of_includes : ∀ (xs : List (PyObject U D)) (y : PyObject U D) (insideSet : Bool),
    PyObject.Includes xs y → PyObject.plainAll insideSet xs = true → y.plain insideSet = true
  | x :: xs, y, insideSet, h, hxs => by
    obtain ⟨hx, hxs⟩ := Bool.and_eq_true_iff.mp hxs
    rcases h with h | h
    · exact plain_of_equal x y insideSet h hx
    · exact plain_of_includes xs y insideSet h hxs

end

mutual

theorem plain_of_readBack : ∀ (v : PyObject U D), v.readBack.plain true = true →
    v.plain false = true
  | .none, _ | .bool _, _ | .int _, _ | .float _, _ | .bytes _, _ | .uuid _, _ | .decimal _, _
  | .date _, _ | .timedelta _, _ | .timeoutPolicy _, _ => rfl
  | .str _, h => h
  | .list xs, h | .tuple xs, h => plainAll_of_readBack xs h
  | .dict items, h => plainItems_of_readBack items h
  | .collection kind xs, h => by
    cases kind with
    | deque => exact plainAll_of_readBack xs h
    | set => exact h
    | frozenset => exact h
  | .send node arg timeout, h => by
    obtain ⟨hnode, harg⟩ := Bool.and_eq_true_iff.mp h
    exact Bool.and_eq_true_iff.mpr ⟨hnode, plain_of_readBack arg harg⟩
  | .deltaSnapshot value, h => plain_of_readBack value h

theorem plainAll_of_readBack : ∀ (xs : List (PyObject U D)),
    PyObject.plainAll true (PyObject.readBackAll xs) = true → PyObject.plainAll false xs = true
  | [], _ => rfl
  | x :: xs, h => by
    obtain ⟨hx, hxs⟩ := Bool.and_eq_true_iff.mp h
    exact Bool.and_eq_true_iff.mpr ⟨plain_of_readBack x hx, plainAll_of_readBack xs hxs⟩

theorem plainItems_of_readBack : ∀ (items : List (PyStr × PyObject U D)),
    PyObject.plainItems true (PyObject.readBackItems items) = true →
      PyObject.plainItems false items = true
  | [], _ => rfl
  | (k, x) :: xs, h => by
    obtain ⟨hkx, hxs⟩ := Bool.and_eq_true_iff.mp h
    obtain ⟨hk, hx⟩ := Bool.and_eq_true_iff.mp hkx
    exact Bool.and_eq_true_iff.mpr ⟨Bool.and_eq_true_iff.mpr ⟨hk, plain_of_readBack x hx⟩,
      plainItems_of_readBack xs hxs⟩

end

mutual

theorem readBack_of_equal : ∀ (v : PyObject U D), v.Equal v.readBack → v.readBack = v
  | .none, _ | .bool _, _ | .int _, _ | .float _, _ | .str _, _ | .bytes _, _ | .uuid _, _
  | .decimal _, _ | .date _, _ | .timedelta _, _ | .timeoutPolicy _, _ => rfl
  | .list xs, h => congrArg PyObject.list (readBackAll_of_equal xs h)
  | .tuple xs, h => by cases h
  | .dict items, h => congrArg PyObject.dict (readBackItems_of_equal items h)
  | .collection kind xs, h => by
    cases kind with
    | deque => exact congrArg (PyObject.collection .deque) (readBackAll_of_equal xs h.2)
    | set => rfl
    | frozenset => rfl
  | .send node arg timeout, h => by
    rw [PyObject.readBack, readBack_of_equal arg h.2.1]
  | .deltaSnapshot value, h => congrArg PyObject.deltaSnapshot (readBack_of_equal value h)

theorem readBackAll_of_equal : ∀ (xs : List (PyObject U D)),
    PyObject.EqualAll xs (PyObject.readBackAll xs) → PyObject.readBackAll xs = xs
  | [], _ => rfl
  | x :: xs, h => by
    rw [PyObject.readBackAll, readBack_of_equal x h.1, readBackAll_of_equal xs h.2]

theorem readBackItems_of_equal : ∀ (items : List (PyStr × PyObject U D)),
    PyObject.EqualItems items (PyObject.readBackItems items) → PyObject.readBackItems items = items
  | [], _ => rfl
  | (k, x) :: xs, h => by
    rw [PyObject.readBackItems, readBack_of_equal x h.2.1, readBackItems_of_equal xs h.2.2]

end

theorem plain_new {same : PyObject U D → PyObject U D → Bool} {kind : CollectionKind}
    {xs : List (PyObject U D)} {v : PyObject U D}
    (hxs : PyObject.plainAll true xs = true) (h : kind.new same xs = some v) :
    v.plain true = true := by
  have hinsert : PyObject.plainAll true (insertAll same xs) = true :=
    plainAll_iff.mpr (fun x hx => plainAll_iff.mp hxs x (mem_insertAll hx))
  cases kind with
  | deque =>
    rw [← Option.some.inj h]
    exact hxs
  | set =>
    rw [← Option.some.inj (Option.ite_none_right_eq_some.mp h).2]
    exact hinsert
  | frozenset =>
    rw [← Option.some.inj (Option.ite_none_right_eq_some.mp h).2]
    exact hinsert

theorem plain_sendFromArgs {args : List (PyObject U D)} {v : PyObject U D}
    (hargs : PyObject.plainAll true args = true) (h : sendFromArgs args = some v) :
    v.plain true = true := by
  unfold sendFromArgs at h
  split at h
  · rw [← Option.some.inj h]
    simpa [PyObject.plain, PyObject.plainAll] using hargs
  · rw [← Option.some.inj h]
    simpa [PyObject.plain, PyObject.plainAll] using hargs
  · rw [← Option.some.inj h]
    simpa [PyObject.plain, PyObject.plainAll] using hargs
  · cases h

theorem plain_constructPosArgs {module name : PyStr} {arg v : PyObject U D}
    (harg : arg.plain true = true) (h : constructPosArgs module name arg = some v) :
    v.plain true = true := by
  unfold constructPosArgs at h
  split at h
  · dsimp only at h
    split at h
    · exact plain_sendFromArgs harg h
    · split at h
      · split at h
        · obtain ⟨d, -, rfl⟩ := Option.map_eq_some_iff.mp h
          rfl
        · obtain ⟨t, -, rfl⟩ := Option.map_eq_some_iff.mp (Option.ite_none_right_eq_some.mp h).2
          rfl
      · cases h
  · cases h

theorem plain_constructKwArgs {module name : PyStr} {arg v : PyObject U D}
    (h : constructKwArgs module name arg = some v) : v.plain true = true := by
  unfold constructKwArgs at h
  split at h
  · obtain ⟨p, -, rfl⟩ := Option.map_eq_some_iff.mp (Option.ite_none_right_eq_some.mp h).2
    rfl
  · cases h

variable [PyText U] [PyText D] {same : PyObject U D → PyObject U D → Bool}
  {allowed : AllowedModules}

mutual

theorem unpackb_msgpackEnc : ∀ (v : PyObject U D) (insideSet : Bool) (m : Msgpack),
    v.plain insideSet = true → v.Valid same → msgpackEnc v = some m →
      unpackb same allowed m = v.readBack
  | .none, _, _, _, _, rfl | .bool _, _, _, _, _, rfl | .float _, _, _, _, _, rfl
  | .bytes _, _, _, _, _, rfl => rfl
  | .int n, _, m, _, _, h => by
    rw [msgpackEnc, packedInt] at h
    split at h
    · rw [← Option.some.inj h]
      rfl
    · cases h
  | .str s, _, _, hplain, _, rfl => congrArg PyObject.str (ofString_replaceSurrogates hplain)
  | .uuid u, _, _, _, _, rfl => unpackb_uuid u
  | .decimal d, _, _, _, _, rfl => unpackb_decimal d
  | .date d, _, _, _, _, rfl => unpackb_date d
  | .timedelta t, _, _, _, _, rfl => unpackb_timedelta t
  | .timeoutPolicy p, _, _, _, _, rfl => unpackb_timeout p
  | .list xs, insideSet, m, hplain, hvalid, h => by
    obtain ⟨ms, hms, rfl⟩ := Option.map_eq_some_iff.mp h
    exact congrArg PyObject.list (unpackAll_msgpackEncAll xs insideSet ms hplain hvalid hms)
  | .tuple xs, insideSet, m, hplain, hvalid, h => by
    obtain ⟨ms, hms, rfl⟩ := Option.map_eq_some_iff.mp h
    have hxs := (Bool.and_eq_true_iff.mp hplain).2
    exact congrArg PyObject.list (unpackAll_msgpackEncAll xs insideSet ms hxs hvalid hms)
  | .dict items, insideSet, m, hplain, hvalid, h => by
    obtain ⟨ms, hms, rfl⟩ := Option.map_eq_some_iff.mp h
    have hitems := unpackItems_msgpackEncItems items insideSet ms hplain hvalid.2 hms
    rw [unpackb, hitems, PyObject.readBack, Dict.items_ofList]
    rw [keys_readBackItems]
    exact hvalid.1
  | .collection kind xs, insideSet, m, hplain, hvalid, h => by
    obtain ⟨ms, hms, rfl⟩ := Option.map_eq_some_iff.mp h
    have hxs := unpackAll_msgpackEncAll xs _ ms hplain hvalid.1 hms
    by_cases hkind : kind = .deque
    · rw [unpackb_collection hxs (fun hne => absurd hkind hne), PyObject.readBack, if_pos hkind]
    · have htrue : (insideSet || kind ≠ .deque) = true := by simp [hkind]
      rw [PyObject.plain, htrue] at hplain
      rw [readBackAll_of_plain xs hplain] at hxs
      rw [unpackb_collection hxs hvalid.2, PyObject.readBack, if_neg hkind]
  | .send node arg timeout, insideSet, m, hplain, hvalid, h => by
    obtain ⟨hnode, harg⟩ := Bool.and_eq_true_iff.mp hplain
    obtain ⟨m', hm', rfl⟩ := Option.map_eq_some_iff.mp h
    exact unpackb_send hnode (unpackb_msgpackEnc arg insideSet m' harg hvalid hm') timeout
  | .deltaSnapshot value, insideSet, m, hplain, hvalid, h => by
    obtain ⟨m', hm', rfl⟩ := Option.map_eq_some_iff.mp h
    rw [unpackb, unpackb_msgpackEnc value insideSet m' hplain hvalid hm', PyObject.readBack,
      extHook_deltaSnapshot]

theorem unpackAll_msgpackEncAll : ∀ (xs : List (PyObject U D)) (insideSet : Bool)
    (ms : List Msgpack), PyObject.plainAll insideSet xs = true → PyObject.ValidAll same xs →
      msgpackEncAll xs = some ms → unpackAll same allowed ms = PyObject.readBackAll xs
  | [], _, _, _, _, rfl => rfl
  | x :: xs, insideSet, ms, hplain, hvalid, h => by
    obtain ⟨hx, hxs⟩ := Bool.and_eq_true_iff.mp hplain
    obtain ⟨m, hm, hrest⟩ := Option.bind_eq_some_iff.mp h
    obtain ⟨ms', hms', rfl⟩ := Option.map_eq_some_iff.mp hrest
    rw [unpackAll, unpackb_msgpackEnc x insideSet m hx hvalid.1 hm,
      unpackAll_msgpackEncAll xs insideSet ms' hxs hvalid.2 hms', PyObject.readBackAll]

theorem unpackItems_msgpackEncItems : ∀ (items : List (PyStr × PyObject U D)) (insideSet : Bool)
    (ms : List (String × Msgpack)), PyObject.plainItems insideSet items = true →
      PyObject.ValidItems same items → msgpackEncItems items = some ms →
        unpackItems same allowed ms = PyObject.readBackItems items
  | [], _, _, _, _, rfl => rfl
  | (k, x) :: xs, insideSet, ms, hplain, hvalid, h => by
    obtain ⟨hkx, hxs⟩ := Bool.and_eq_true_iff.mp hplain
    obtain ⟨hk, hx⟩ := Bool.and_eq_true_iff.mp hkx
    obtain ⟨m, hm, hrest⟩ := Option.bind_eq_some_iff.mp h
    obtain ⟨ms', hms', rfl⟩ := Option.map_eq_some_iff.mp hrest
    rw [unpackItems, unpackb_msgpackEnc x insideSet m hx hvalid.1 hm,
      unpackItems_msgpackEncItems xs insideSet ms' hxs hvalid.2 hms', PyObject.readBackItems,
      ofString_replaceSurrogates hk]

end

theorem plain_constructSingleArg {module name : PyStr} {arg v : PyObject U D}
    (harg : arg.plain true = true) (h : constructSingleArg same module name arg = some v) :
    v.plain true = true := by
  unfold constructSingleArg at h
  split at h
  · dsimp only at h
    split_ifs at h
    · exact plain_new harg h
    · exact plain_new harg h
    · exact plain_new harg h
  · dsimp only at h
    split_ifs at h
    · obtain ⟨u, -, rfl⟩ := Option.map_eq_some_iff.mp h
      rfl
    · obtain ⟨d, -, rfl⟩ := Option.map_eq_some_iff.mp h
      rfl
  · cases h

theorem plain_construct {code : Nat} {module name : PyStr} {arg v : PyObject U D}
    (harg : arg.plain true = true) (h : construct same code module name arg = some v) :
    v.plain true = true := by
  unfold construct at h
  split_ifs at h
  · exact plain_constructSingleArg harg h
  · exact plain_constructPosArgs harg h
  · exact plain_constructKwArgs h

theorem plain_extHook {code : Nat} {tup : PyObject U D} (h : tup.plain true = true) :
    (extHook same allowed code tup).plain true = true := by
  unfold extHook
  split
  · exact h
  · split
    · rename_i module name arg rest
      have harg : arg.plain true = true := by
        simp only [PyObject.plain, PyObject.plainAll, Bool.and_eq_true] at h
        exact h.2.2.1
      split
      · cases hv : construct same code module name arg with
        | none => rfl
        | some v => exact plain_construct harg hv
      · exact harg
    · rfl

mutual

-- What is unpacked holds no tuple and no surrogate at all.
theorem plain_unpackb : ∀ (m : Msgpack), (unpackb same allowed m : PyObject U D).plain true = true
  | .nil | .bool _ | .int _ | .float64 _ | .bin _ => rfl
  | .str s => encodable_ofString s
  | .array xs => plain_unpackAll xs
  | .map items => by
    refine plainItems_iff.mpr (fun i hi => ?_)
    rcases Dict.mem_items_update hi with hi | hi
    · cases hi
    · exact plainItems_iff.mp (plain_unpackItems items) i hi
  | .ext code data => plain_extHook (plain_unpackb data)

theorem plain_unpackAll : ∀ (xs : List Msgpack),
    PyObject.plainAll true (unpackAll same allowed xs : List (PyObject U D)) = true
  | [] => rfl
  | x :: xs => Bool.and_eq_true_iff.mpr ⟨plain_unpackb x, plain_unpackAll xs⟩

theorem plain_unpackItems : ∀ (items : List (String × Msgpack)),
    PyObject.plainItems true (unpackItems same allowed items : List (PyStr × PyObject U D)) = true
  | [] => rfl
  | (k, x) :: xs => by
    rw [unpackItems, PyObject.plainItems, encodable_ofString, plain_unpackb x,
      plain_unpackItems xs]
    rfl

end

mutual

theorem isSome_msgpackEnc : ∀ (v : PyObject U D), (msgpackEnc v).isSome = v.packable
  | .none | .bool _ | .float _ | .str _ | .bytes _ | .uuid _ | .decimal _ | .date _
  | .timedelta _ | .timeoutPolicy _ => rfl
  | .int n => by
    rw [msgpackEnc, packedInt, PyObject.packable]
    split
    · rename_i h
      simpa using h
    · rename_i h
      simpa using h
  | .list xs | .tuple xs => by
    rw [msgpackEnc, Option.isSome_map, isSome_msgpackEncAll xs, PyObject.packable]
  | .dict items => by
    rw [msgpackEnc, Option.isSome_map, isSome_msgpackEncItems items, PyObject.packable]
  | .collection _ xs => by
    rw [msgpackEnc, Option.isSome_map, isSome_msgpackEncAll xs, PyObject.packable]
  | .send _ arg _ => by
    rw [msgpackEnc, Option.isSome_map, isSome_msgpackEnc arg, PyObject.packable]
  | .deltaSnapshot value => by
    rw [msgpackEnc, Option.isSome_map, isSome_msgpackEnc value, PyObject.packable]

theorem isSome_msgpackEncAll : ∀ (xs : List (PyObject U D)),
    (msgpackEncAll xs).isSome = PyObject.packableAll xs
  | [] => rfl
  | x :: xs => by
    rw [PyObject.packableAll, ← isSome_msgpackEnc x, ← isSome_msgpackEncAll xs, msgpackEncAll]
    cases msgpackEnc x <;> simp

theorem isSome_msgpackEncItems : ∀ (items : List (PyStr × PyObject U D)),
    (msgpackEncItems items).isSome = PyObject.packableItems items
  | [] => rfl
  | (k, x) :: xs => by
    rw [PyObject.packableItems, ← isSome_msgpackEnc x, ← isSome_msgpackEncItems xs,
      msgpackEncItems]
    cases msgpackEnc x <;> simp

end

theorem unpackb_equal_iff {v : PyObject U D} (hvalid : v.Valid same) {m : Msgpack}
    (hm : msgpackEnc v = some m) :
    (unpackb same allowed m).Equal v.readBack ↔ v.plain false = true := by
  constructor
  · intro h
    exact plain_of_readBack v (plain_of_equal _ _ true h (plain_unpackb m))
  · intro h
    rw [unpackb_msgpackEnc v false m h hvalid hm]
    exact equal_refl v.readBack

-- What `loads_typed` gives back for what `dumps_typed` wrote.
def JsonPlusSerializer.RoundTrips (s : JsonPlusSerializer) (v : PyValue U D same) : Prop :=
  ∃ w, (s.dumpsTyped v.object).bind (s.loadsTyped same) = some w ∧ w.Equal v.object.readBack

theorem loads_dumps_msgpack (s : JsonPlusSerializer) {v : PyObject U D} (hvalid : v.Valid same)
    (h : s.dumpsTyped v = match msgpackEnc v with
      | some data => some (.msgpack data)
      | none => if s.pickleFallback then some (.pickle v) else none) :
    (∃ w, (s.dumpsTyped v).bind (s.loadsTyped same) = some w ∧ w.Equal v.readBack) ↔
      (v.packable = true ∧ v.plain false = true) ∨
        (s.pickleFallback = true ∧ v.packable = false ∧ v.readBack = v) := by
  rw [h, ← isSome_msgpackEnc]
  cases hm : msgpackEnc v with
  | some m =>
    simp only [Option.bind_some, JsonPlusSerializer.loadsTyped, Option.some.injEq, exists_eq_left',
      unpackb_equal_iff hvalid hm, Option.isSome_some, reduceCtorEq, false_and, and_false, or_false,
      true_and]
  | none =>
    cases hpickle : s.pickleFallback with
    | false =>
      simp only [Bool.false_eq_true, if_false, Option.bind_none, reduceCtorEq, false_and,
        exists_false, Option.isSome_none, or_self]
    | true =>
      simp only [if_true, Option.bind_some, JsonPlusSerializer.loadsTyped, hpickle,
        Option.some.injEq, exists_eq_left', Option.isSome_none, Bool.false_eq_true, false_and,
        false_or, true_and]
      constructor
      · exact readBack_of_equal v
      · intro hsame
        rw [hsame]
        exact equal_refl v

theorem round_trips_iff (s : JsonPlusSerializer) (v : PyValue U D same) :
    s.RoundTrips v ↔ (v.object.packable = true ∧ v.object.plain false = true) ∨
      (s.pickleFallback = true ∧ v.object.packable = false ∧ v.object.readBack = v.object) := by
  obtain ⟨v, hvalid⟩ := v
  cases v with
  | none => exact iff_of_true ⟨_, rfl, equal_refl _⟩ (Or.inl ⟨rfl, rfl⟩)
  | bytes b => exact iff_of_true ⟨_, rfl, equal_refl _⟩ (Or.inl ⟨rfl, rfl⟩)
  | _ => exact loads_dumps_msgpack s hvalid rfl

end RoundTrip

section Vanished

-- Texts of numbers, for the ids and the decimals.
instance : PyText Nat where
  text n := String.ofList (List.replicate n '1')
  ofText s := some s.length
  ofText_text n := by simp [PyStr.ofString]

def sameInts : PyObject Nat Nat → PyObject Nat Nat → Bool
  | .int m, .int n => m = n
  | _, _ => false

def pairs : PyValue Nat Nat sameInts :=
  ⟨.list [.collection .set [.tuple [.int 1, .int 2]], .int 3], by
    refine ⟨⟨⟨⟨trivial, trivial, trivial⟩, trivial⟩, fun _ => ⟨rfl, List.pairwise_singleton _ _⟩⟩,
      trivial, trivial⟩⟩

-- A set of tuples comes back as None.
theorem set_of_tuples_lost :
    ((⟨false, .all⟩ : JsonPlusSerializer).dumpsTyped pairs.object).bind
        ((⟨false, .all⟩ : JsonPlusSerializer).loadsTyped sameInts) =
      some (.list [.none, .int 3]) ∧
    ¬ ∀ (s : JsonPlusSerializer) (v : PyValue Nat Nat sameInts), s.RoundTrips v := by
  have hrun : ((⟨false, .all⟩ : JsonPlusSerializer).dumpsTyped pairs.object).bind
      ((⟨false, .all⟩ : JsonPlusSerializer).loadsTyped sameInts) =
        some (.list [.none, .int 3]) := by
    rfl
  refine ⟨hrun, fun hall => ?_⟩
  obtain ⟨w, hw, hequal⟩ := hall ⟨false, .all⟩ pairs
  rw [hrun] at hw
  rw [← Option.some.inj hw] at hequal
  cases hequal.1

end Vanished

end Serde

end LangGraph

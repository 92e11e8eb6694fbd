import LangGraph.Store.SqliteFilters

namespace LangGraph

open Collections

namespace Store

theorem map_ok {α β ε : Type} {x : Except ε α} {g : α → β} {b : β} (h : x.map g = .ok b) :
    ∃ a, x = .ok a ∧ b = g a := by
  cases x with
  | error e => cases h
  | ok a =>
    cases h
    exact ⟨a, rfl, rfl⟩

section Sql

variable {F : Type} [SqliteFloats F]

def Comparison.floats : Comparison → F → F → Bool
  | .eq, x, y => Floats.eq x y
  | .ne, x, y => !Floats.eq x y
  | .gt, x, y => Floats.lt y x
  | .gte, x, y => Floats.le y x
  | .lt, x, y => Floats.lt x y
  | .lte, x, y => Floats.le x y

theorem compare_true {a b : SqlValue F} {cmp : Comparison} :
    a.compare cmp b = some true ↔ a.isNull = false ∧ b.isNull = false ∧ cmp.test a b = true := by
  simp only [SqlValue.compare]
  split
  · rename_i hnull
    constructor
    · exact fun h => by cases h
    · rintro ⟨ha, hb, -⟩
      rw [ha, hb] at hnull
      cases hnull
  · rename_i hnull
    rw [Bool.not_eq_true, Bool.or_eq_false_iff] at hnull
    simp [hnull]

theorem test_real (cmp : Comparison) (x y : F) :
    cmp.test (.real x) (.real y) = cmp.floats x y := by
  cases cmp <;> simp [Comparison.test, Comparison.floats, SqlValue.less, SqlValue.same,
    SqliteFloats.le_iff]

def Comparison.isOrder : Comparison → Bool
  | .eq | .ne => false
  | _ => true

theorem floats_unordered {cmp : Comparison} (h : cmp.isOrder = true) (x : F) {y : F}
    (hnan : Floats.eq y y = false) : cmp.floats x y = false := by
  obtain ⟨hlt, hgt, heq, heq', -⟩ := SqliteFloats.unordered y hnan x 0
  cases cmp with
  | eq => cases h
  | ne => cases h
  | gt => exact hgt
  | gte => simp [Comparison.floats, SqliteFloats.le_iff, hgt, heq']
  | lt => exact hlt
  | lte => simp [Comparison.floats, SqliteFloats.le_iff, hlt, heq]

theorem real_bound {cmp : Comparison} (h : cmp.isOrder = true) (x y : F) :
    (SqlValue.real x).compare cmp (SqliteStore.bindReal y) = some true ↔
      cmp.floats x y = true := by
  simp only [SqliteStore.bindReal]
  split
  · simp [compare_true, SqlValue.isNull, test_real]
  · rename_i hnan
    rw [floats_unordered h x (Bool.eq_false_iff.mpr hnan)]
    simp [compare_true, SqlValue.isNull]

end Sql

namespace Json

variable {F : Type}

section Equality

variable [Floats F] {v : Json F}

theorem equal_null : v.equal .null = true ↔ v = .null := by
  cases v <;> simp [equal, number?]

theorem equal_str {s : String} : v.equal (.str s) = true ↔ v = .str s := by
  cases v <;> simp [equal, number?]

theorem equal_number {x : Json F} {m : Number F} (hx : x.number? = some m) :
    v.equal x = true ↔ ∃ n, v.number? = some n ∧ numbersEqual n m = true := by
  cases x <;> cases hx <;> cases v <;> simp [equal, number?]

end Equality

end Json

namespace SqliteStore

open Json

variable {F : Type} [SqliteFloats F] (dumps : Json F → Except FilterError String)

def sqlNumber : Number F → SqlValue F
  | .int n => if -2 ^ 63 ≤ n ∧ n < 2 ^ 63 then .integer n else .real (SqliteFloats.castInt n)
  | .float x => .real x

-- The parameter that an operand which is a number becomes.
def boundNumber (x : Json F) : SqlValue F :=
  match x with
  | .bool b => .integer (if b then 1 else 0)
  | _ => (bindFloat x).toOption.getD .null

def jsonText : Json F → Option String
  | .list xs => some ((dumps (.list xs)).toOption.getD "")
  | .dict items => some ((dumps (.dict items)).toOption.getD "")
  | _ => none

def FiniteFloat (v : Json F) : Prop := ∀ x, v = .float x → SqliteFloats.isFinite x = true

section Values

variable {dumps} {v : Json F}

theorem sqlValue_number (hfinite : FiniteFloat v) {n : Number F} (hn : v.number? = some n) :
    sqlValue dumps v = sqlNumber n := by
  cases v with
  | bool b =>
    cases hn
    cases b <;> rfl
  | int m =>
    cases hn
    rfl
  | float x =>
    cases hn
    simp [sqlValue, sqlNumber, hfinite x rfl]
  | null => cases hn
  | str s => cases hn
  | list xs => cases hn
  | dict items => cases hn

theorem sqlValue_text (hn : v.number? = none) (hnull : v ≠ .null) :
    ∃ t, sqlValue dumps v = .text t ∧ ∀ s, t = s ↔ v = .str s ∨ jsonText dumps v = some s := by
  cases v with
  | null => exact absurd rfl hnull
  | bool b => cases hn
  | int m => cases hn
  | float x => cases hn
  | str t => exact ⟨t, rfl, fun s => by simp [jsonText]⟩
  | list xs => exact ⟨_, rfl, fun s => by simp [jsonText]⟩
  | dict items => exact ⟨_, rfl, fun s => by simp [jsonText]⟩

theorem isNull_sqlNumber (n : Number F) : (sqlNumber n).isNull = false := by
  cases n with
  | int m =>
    simp only [sqlNumber]
    split <;> rfl
  | float x => rfl

theorem isNull_sqlValue (hfinite : FiniteFloat v) :
    (sqlValue dumps v).isNull = true ↔ v = .null := by
  rcases Classical.em (v = .null) with rfl | hnull
  · exact ⟨fun _ => rfl, fun _ => rfl⟩
  · refine ⟨fun h => ?_, fun h => absurd h hnull⟩
    cases hn : v.number? with
    | some n =>
      rw [sqlValue_number hfinite hn, isNull_sqlNumber] at h
      cases h
    | none =>
      obtain ⟨t, ht, -⟩ := @sqlValue_text _ _ dumps _ hn hnull
      rw [ht] at h
      cases h

theorem same_text_number (t : String) {b : SqlValue F} (hb : b.storageClass ≠ 2) :
    (SqlValue.text t).same b = false := by
  cases b with
  | text s => exact absurd rfl hb
  | _ => rfl

theorem same_number_text (n : Number F) (t : String) : (sqlNumber n).same (.text t) = false := by
  cases n with
  | int m =>
    simp only [sqlNumber]
    split <;> rfl
  | float x => rfl

theorem same_text_iff {s : String} (hfinite : FiniteFloat v) :
    (sqlValue dumps v).same (.text s) = true ↔ v = .str s ∨ jsonText dumps v = some s := by
  rcases Classical.em (v = .null) with rfl | hnull
  · simp [sqlValue, SqlValue.same, jsonText]
  · cases hn : v.number? with
    | some n =>
      rw [sqlValue_number hfinite hn, same_number_text]
      cases v <;> simp [jsonText] <;> cases hn
    | none =>
      obtain ⟨t, ht, htext⟩ := @sqlValue_text _ _ dumps _ hn hnull
      rw [ht, ← htext s]
      simp [SqlValue.same]

theorem same_blob {s : String} : (sqlValue dumps v).same (.blob s) = false := by
  cases v with
  | int n =>
    simp only [sqlValue]
    split <;> rfl
  | float x =>
    simp only [sqlValue]
    split <;> rfl
  | _ => rfl

end Values

-- Where the stores give the same answer on an undotted key that is compared with an operand.
def EqualAlike (v x : Json F) : Prop :=
  match x with
  | .null => True
  | .str s => jsonText dumps v ≠ some s
  | .bool _ | .int _ | .float _ => ∀ n m, v.number? = some n → x.number? = some m →
      (sqlNumber n).same (boundNumber x) = numbersEqual n m
  | .list _ | .dict _ => v.equal x = false

def DifferentAlike (v x : Json F) : Prop :=
  match x with
  | .null => True
  | .str _ | .list _ | .dict _ => v ≠ .null ∧ EqualAlike dumps v x
  | .bool _ | .int _ | .float _ =>
      v ≠ .null ∧ (boundNumber x).isNull = false ∧ EqualAlike dumps v x

-- The two operands as `float` reads them are `a` and `b`.
def ComparedAlike (cmp : Comparison) (a b : F) : Json F → Json F → Prop
  | .str s, .str t => cmp.test (.text s : SqlValue F) (.text t) = cmp.floats a b
  | .str s, _ => cmp.floats (SqliteFloats.castText s) b = cmp.floats a b
  | _, .str _ => cmp.floats a b = true ↔ cmp = .lt ∨ cmp = .lte
  | _, _ => True

def OrderAlike (cmp : Comparison) (v x : Json F) : Prop :=
  ∀ a b, v.toFloat = .ok a → x.toFloat = .ok b → ComparedAlike cmp a b v x

section Operands

variable {dumps} {v x : Json F} {key : String} {c : Condition F}

theorem storageClass_boundNumber (x : Json F) : (boundNumber x).storageClass ≠ 2 := by
  simp only [boundNumber]
  split
  · simp [SqlValue.storageClass]
  · simp only [bindFloat]
    split
    · simp only [Except.toOption, Option.getD_some, bindReal]
      split <;> simp [SqlValue.storageClass]
    · simp [Except.toOption, SqlValue.storageClass]

theorem same_null (a : SqlValue F) : a.same .null = false := by
  cases a <;> rfl

theorem same_value (hfinite : FiniteFloat v) {p : SqlValue F} (hp : p.storageClass ≠ 2) :
    (sqlValue dumps v).same p = true ↔
      ∃ n, v.number? = some n ∧ (sqlNumber n).same p = true := by
  cases hn : v.number? with
  | some n => simp [sqlValue_number hfinite hn]
  | none =>
    rcases Classical.em (v = .null) with rfl | hnull
    · simp only [sqlValue, reduceCtorEq, false_and, exists_false, iff_false]
      cases p <;> simp [SqlValue.same]
    · obtain ⟨t, ht, -⟩ := @sqlValue_text _ _ dumps _ hn hnull
      rw [ht, same_text_number t hp]
      simp

-- The parameter of a condition that is not on null.
def param : Json F → SqlValue F
  | .null => .null
  | .str s => .text s
  | .list xs => .blob ((dumps (.list xs)).toOption.getD "")
  | .dict items => .blob ((dumps (.dict items)).toOption.getD "")
  | x => boundNumber x

theorem equality_param {isNull : Condition F} {cmp : Comparison} (hnull : x ≠ .null)
    (h : equality dumps key isNull cmp .blob x = .ok c) :
    c = .compare key cmp (@param F _ dumps x) := by
  cases x with
  | null => exact absurd rfl hnull
  | bool b =>
    cases h
    rfl
  | str s =>
    cases h
    rfl
  | int n =>
    simp only [equality] at h
    simp only [param, boundNumber]
    cases hb : bindFloat (.int n : Json F) with
    | error e =>
      rw [hb] at h
      cases h
    | ok p =>
      rw [hb] at h
      cases h
      rfl
  | float y =>
    simp only [equality] at h
    simp only [param, boundNumber]
    cases hb : bindFloat (.float y : Json F) with
    | error e =>
      rw [hb] at h
      cases h
    | ok p =>
      rw [hb] at h
      cases h
      rfl
  | list xs =>
    simp only [equality] at h
    simp only [param]
    cases hd : dumps (.list xs) with
    | error e =>
      rw [hd] at h
      cases h
    | ok text =>
      rw [hd] at h
      cases h
      rfl
  | dict items =>
    simp only [equality] at h
    simp only [param]
    cases hd : dumps (.dict items) with
    | error e =>
      rw [hd] at h
      cases h
    | ok text =>
      rw [hd] at h
      cases h
      rfl

theorem same_number_alike (hfinite : FiniteFloat v) {m : Number F} (hx : x.number? = some m) :
    ((sqlValue dumps v).same (boundNumber x) = true ↔ v.equal x = true) ↔
      ∀ n m, v.number? = some n → x.number? = some m →
        (sqlNumber n).same (boundNumber x) = numbersEqual n m := by
  rw [same_value hfinite (storageClass_boundNumber x), equal_number hx]
  constructor
  · intro h n m' hn hm
    cases hm.symm.trans hx
    rw [Bool.eq_iff_iff]
    constructor
    · intro hsame
      obtain ⟨n', hn', hequal⟩ := h.mp ⟨n, hn, hsame⟩
      cases hn.symm.trans hn'
      exact hequal
    · intro hequal
      obtain ⟨n', hn', hsame⟩ := h.mpr ⟨n, hn, hequal⟩
      cases hn.symm.trans hn'
      exact hsame
  · intro h
    constructor
    · rintro ⟨n, hn, hsame⟩
      exact ⟨n, hn, by rw [← h n m hn hx, hsame]⟩
    · rintro ⟨n, hn, hequal⟩
      exact ⟨n, hn, by rw [h n m hn hx, hequal]⟩

theorem same_alike (hfinite : FiniteFloat v) (hnull : x ≠ .null) :
    ((sqlValue dumps v).same (@param F _ dumps x) = true ↔ v.equal x = true) ↔
      EqualAlike dumps v x := by
  cases x with
  | null => exact absurd rfl hnull
  | bool b =>
    have hx : (.bool b : Json F).number? = some _ := rfl
    exact same_number_alike hfinite hx
  | int n =>
    have hx : (.int n : Json F).number? = some _ := rfl
    exact same_number_alike hfinite hx
  | float y =>
    have hx : (.float y : Json F).number? = some _ := rfl
    exact same_number_alike hfinite hx
  | str s =>
    simp only [param, EqualAlike, same_text_iff hfinite, equal_str]
    constructor
    · intro h htext
      rw [h.mp (.inr htext)] at htext
      cases htext
    · intro h
      exact ⟨fun hor => hor.resolve_right h, .inl⟩
  | list xs => simp [param, EqualAlike, same_blob]
  | dict items => simp [param, EqualAlike, same_blob]

theorem compare_eq_iff {a b : SqlValue F} : a.compare .eq b = some true ↔ a.same b = true := by
  rw [compare_true]
  refine ⟨fun h => h.2.2, fun h => ⟨?_, ?_, h⟩⟩
  · cases a with
    | null => cases h
    | _ => rfl
  · cases b with
    | null =>
      rw [same_null] at h
      cases h
    | _ => rfl

theorem compare_ne_iff {a b : SqlValue F} :
    a.compare .ne b = some true ↔ a.isNull = false ∧ b.isNull = false ∧ a.same b = false := by
  rw [compare_true]
  simp only [Comparison.test, Bool.not_eq_true']

theorem equal_alike (hfinite : FiniteFloat v)
    (h : equality dumps key (.isNull key) .eq .blob x = .ok c) :
    (c.test (sqlValue dumps v) = some true ↔ v.equal x = true) ↔ EqualAlike dumps v x := by
  rcases Classical.em (x = .null) with rfl | hnull
  · cases h
    simp [Condition.test, isNull_sqlValue hfinite, equal_null, EqualAlike]
  · rw [equality_param hnull h, ← same_alike hfinite hnull]
    simp only [Condition.test, compare_eq_iff]

theorem differentAlike_iff (hnull : x ≠ .null) :
    DifferentAlike dumps v x ↔
      v ≠ .null ∧ (@param F _ dumps x).isNull = false ∧ EqualAlike dumps v x := by
  cases x with
  | null => exact absurd rfl hnull
  | _ => simp [DifferentAlike, param, SqlValue.isNull]

theorem unequal_of_null_bound (h : equality dumps key (.isNotNull key) .ne .blob x = .ok c)
    (hnull : x ≠ .null) (hbound : (@param F _ dumps x).isNull = true) : v.equal x = false := by
  cases x with
  | null => exact absurd rfl hnull
  | bool b => cases hbound
  | str s => cases hbound
  | list xs => cases hbound
  | dict items => cases hbound
  | int n =>
    cases hn : (Floats.ofInt n : Option F) with
    | none => simp [equality, bindFloat, toFloat, hn, Except.map] at h
    | some y =>
      simp [param, boundNumber, bindFloat, toFloat, hn, bindReal, Except.toOption,
        SqliteFloats.ordered_of_ofInt n y hn, SqlValue.isNull] at hbound
  | float y =>
    have hnan : Floats.eq y y = false := by
      refine Bool.eq_false_iff.mpr fun hordered => ?_
      simp [param, boundNumber, bindFloat, toFloat, bindReal, Except.toOption, hordered,
        SqlValue.isNull] at hbound
    refine Bool.eq_false_iff.mpr fun hequal => ?_
    obtain ⟨n, -, hsame⟩ :=
      (@equal_number F _ v (.float y) (.float y) (show number? _ = some _ from rfl)).mp hequal
    cases n with
    | int n =>
      rw [numbersEqual, (SqliteFloats.unordered y hnan y n).2.2.2.2] at hsame
      cases hsame
    | float z =>
      rw [numbersEqual, (SqliteFloats.unordered y hnan z 0).2.2.1] at hsame
      cases hsame

theorem equal_null_left (hnull : x ≠ .null) : (Json.null : Json F).equal x = false := by
  cases x with
  | null => exact absurd rfl hnull
  | _ => rfl

theorem different_alike (hfinite : FiniteFloat v)
    (h : equality dumps key (.isNotNull key) .ne .blob x = .ok c) :
    (c.test (sqlValue dumps v) = some true ↔ v.equal x = false) ↔ DifferentAlike dumps v x := by
  rcases Classical.em (x = .null) with rfl | hnull
  · cases h
    have hequal : v.equal .null = (sqlValue dumps v).isNull := by
      rw [Bool.eq_iff_iff, equal_null, isNull_sqlValue hfinite]
    simp [Condition.test, hequal, DifferentAlike]
  · rw [equality_param hnull h, differentAlike_iff hnull, ← same_alike hfinite hnull]
    have hvalue : (sqlValue dumps v).isNull = false ↔ v ≠ .null := by
      rw [Bool.eq_false_iff, Ne, isNull_sqlValue hfinite]
    simp only [Condition.test, compare_ne_iff, hvalue]
    constructor
    · intro hiff
      have hv : v ≠ .null := by
        rintro rfl
        exact (hiff.mpr (equal_null_left hnull)).1 rfl
      have hbound : (@param F _ dumps x).isNull = false := by
        refine Bool.eq_false_iff.mpr fun hbound => ?_
        have hp := (hiff.mpr (unequal_of_null_bound h hnull hbound)).2.1
        rw [hbound] at hp
        cases hp
      refine ⟨hv, hbound, ?_⟩
      simp only [hv, hbound, ne_eq, not_false_eq_true, true_and] at hiff
      rw [← Bool.eq_iff_iff]
      cases hs : (sqlValue dumps v).same (@param F _ dumps x) <;> cases he : v.equal x <;>
        simp_all
    · rintro ⟨hv, hbound, hiff⟩
      simp only [hv, hbound, ne_eq, not_false_eq_true, true_and]
      rw [← Bool.eq_iff_iff] at hiff
      rw [hiff]

section Order

variable {cmp : Comparison} {a b : F}

theorem castReal_number (hfinite : FiniteFloat v) {n : Number F} (hn : v.number? = some n)
    (ha : v.toFloat = .ok a) : (sqlValue dumps v).castReal = .real a := by
  have hint : ∀ k : Int, (Floats.ofInt k).elim (Except.error CompareError.overflowError) .ok =
      .ok a → SqliteFloats.castInt k = a := by
    intro k h
    cases hk : (Floats.ofInt k : Option F) with
    | none =>
      rw [hk] at h
      cases h
    | some y =>
      rw [hk] at h
      cases h
      exact SqliteFloats.castInt_of_ofInt k a hk
  cases v with
  | bool b => rw [sqlValue, SqlValue.castReal, hint _ ha]
  | int k =>
    simp only [sqlValue]
    split
    · rw [SqlValue.castReal, hint _ ha]
    · rw [SqlValue.castReal, hint _ ha]
  | float x =>
    cases ha
    simp [sqlValue, hfinite a rfl, SqlValue.castReal]
  | null => cases hn
  | str s => cases hn
  | list xs => cases hn
  | dict items => cases hn

theorem number_text (hcmp : cmp.isOrder = true) (n : Number F) (t : String) :
    (sqlNumber n).compare cmp (.text t) = some true ↔ cmp = .lt ∨ cmp = .lte := by
  have htest : cmp.test (sqlNumber n) (.text t) = true ↔ cmp = .lt ∨ cmp = .lte := by
    cases n with
    | int m =>
      simp only [sqlNumber]
      split
      · cases cmp <;> cases hcmp <;> simp [Comparison.test, SqlValue.less, SqlValue.same,
          SqlValue.storageClass]
      · cases cmp <;> cases hcmp <;> simp [Comparison.test, SqlValue.less, SqlValue.same,
          SqlValue.storageClass]
    | float x =>
      cases cmp <;> cases hcmp <;> simp [Comparison.test, SqlValue.less, SqlValue.same,
        SqlValue.storageClass, sqlNumber]
  rw [compare_true, isNull_sqlNumber, htest]
  simp [SqlValue.isNull]

theorem ordering_number {m : Number F} (hx : x.number? = some m) (hb : x.toFloat = .ok b)
    (h : ordering dumps key cmp x = .ok c) : c = .castCompare key cmp (bindReal b) := by
  have hbind : bindFloat x = .ok (bindReal b) := by rw [bindFloat, hb]
  cases x with
  | bool b' =>
    simp only [ordering, hbind] at h
    cases h
    rfl
  | int n =>
    simp only [ordering, hbind] at h
    cases h
    rfl
  | float y =>
    simp only [ordering, hbind] at h
    cases h
    rfl
  | null => cases hx
  | str s => cases hx
  | list xs => cases hx
  | dict items => cases hx

theorem toFloat_cases (ha : v.toFloat = .ok a) : (∃ s, v = .str s) ∨ ∃ n, v.number? = some n := by
  cases v with
  | str s => exact .inl ⟨s, rfl⟩
  | bool b => exact .inr ⟨_, rfl⟩
  | int n => exact .inr ⟨_, rfl⟩
  | float x => exact .inr ⟨_, rfl⟩
  | null => cases ha
  | list xs => cases ha
  | dict items => cases ha

theorem orderAlike_iff (ha : v.toFloat = .ok a) (hb : x.toFloat = .ok b) :
    OrderAlike cmp v x ↔ ComparedAlike cmp a b v x := by
  constructor
  · exact fun h => h a b ha hb
  · intro h a' b' ha' hb'
    cases ha.symm.trans ha'
    cases hb.symm.trans hb'
    exact h

theorem order_alike (hcmp : cmp.isOrder = true) (hfinite : FiniteFloat v)
    (h : ordering dumps key cmp x = .ok c) (ha : v.toFloat = .ok a) (hb : x.toFloat = .ok b) :
    (c.test (sqlValue dumps v) = some true ↔ cmp.floats a b = true) ↔ OrderAlike cmp v x := by
  rw [orderAlike_iff ha hb]
  rcases toFloat_cases hb with ⟨t, rfl⟩ | ⟨m, hm⟩
  · cases h
    rcases toFloat_cases ha with ⟨s, rfl⟩ | ⟨n, hn⟩
    · rw [ComparedAlike, Bool.eq_iff_iff, Condition.test, sqlValue, compare_true]
      simp [SqlValue.isNull]
    · simp only [Condition.test]
      rw [sqlValue_number hfinite hn, number_text hcmp]
      cases v <;> cases hn <;> exact ⟨Iff.symm, Iff.symm⟩
  · rw [ordering_number hm hb h, Condition.test]
    rcases toFloat_cases ha with ⟨s, rfl⟩ | ⟨n, hn⟩
    · rw [sqlValue, SqlValue.castReal, real_bound hcmp, ← Bool.eq_iff_iff]
      cases x <;> cases hm <;> exact Iff.rfl
    · rw [castReal_number hfinite hn ha, real_bound hcmp]
      cases v <;> cases hn <;> cases x <;> cases hm <;> simp [ComparedAlike]

end Order

end Operands

section Parts

open InMemoryStore

def orderOf (op : String) : Option Comparison :=
  if op = "$gt" then some .gt
  else if op = "$gte" then some .gte
  else if op = "$lt" then some .lt
  else if op = "$lte" then some .lte
  else none

-- The filter values with at most one condition.
inductive Part : Json F → Prop where
  | empty : Part (.dict [])
  | operator (op : String) (x : Json F) : Part (.dict [(op, x)])
  | plain (x : Json F) (notDict : ∀ ops, x ≠ .dict ops) : Part x

def Raises (v : Json F) : Json F → Prop
  | .dict [(op, x)] => (orderOf op).isSome ∧ ¬ ∃ a b : F, v.toFloat = .ok a ∧ x.toFloat = .ok b
  | .list fs => ∃ e, compareValues v (.list fs) = .error e
  | _ => False

def SameAnswer (v : Json F) : Json F → Prop
  | .dict [] => ∃ items, v = .dict items
  | .dict [(op, x)] =>
      match orderOf op with
      | some cmp => OrderAlike cmp v x
      | none => if op = "$ne" then DifferentAlike dumps v x else EqualAlike dumps v x
  | .list fs => ∀ text, dumps (.list fs) = .ok text →
      ((v = .str text ∨ jsonText dumps v = some text) ↔ compareValues v (.list fs) = .ok true)
  | x => EqualAlike dumps v x

-- Whether the conditions generated for a filter value hold of a value.
def selectsValue (key : String) (v f : Json F) : Bool :=
  match keyConditions dumps key f with
  | .error _ => false
  | .ok cs => cs.all (fun c => c.test (sqlValue dumps v) = some true)

variable {dumps} {key op : String} {v x f : Json F} {c : Condition F}

theorem getFilterCondition_cases (h : getFilterCondition dumps key op x = .ok c) :
    (op = "$eq" ∧ equality dumps key (.isNull key) .eq .blob x = .ok c) ∨
      (op = "$ne" ∧ equality dumps key (.isNotNull key) .ne .blob x = .ok c) ∨
      ∃ cmp : Comparison, orderOf op = some cmp ∧ cmp.isOrder = true ∧ isOperator op = true ∧
        ordering dumps key cmp x = .ok c ∧
        ∀ v, applyOperator v op x = compareFloats cmp.floats v x := by
  simp only [getFilterCondition] at h
  split at h
  · cases h
  split at h
  · rename_i hop
    exact .inl ⟨hop, h⟩
  split at h
  · rename_i hop
    subst hop
    exact .inr (.inr ⟨.gt, rfl, rfl, by decide, h, fun _ => rfl⟩)
  split at h
  · rename_i hop
    subst hop
    exact .inr (.inr ⟨.gte, rfl, rfl, by decide, h, fun _ => rfl⟩)
  split at h
  · rename_i hop
    subst hop
    exact .inr (.inr ⟨.lt, rfl, rfl, by decide, h, fun _ => rfl⟩)
  split at h
  · rename_i hop
    subst hop
    exact .inr (.inr ⟨.lte, rfl, rfl, by decide, h, fun _ => rfl⟩)
  split at h
  · rename_i hop
    exact .inr (.inl ⟨hop, h⟩)
  · cases h

theorem both_true (a : Except CompareError Bool) : both a (.ok true) = a := by
  cases a with
  | error e => rfl
  | ok b => cases b <;> rfl

theorem compareValues_operator (hop : isOperator op = true) (v x : Json F) :
    compareValues v (.dict [(op, x)]) = applyOperator v op x := by
  simp [compareValues, hop, applyOperators, both_true]

theorem compareFloats_ok {a b : F} (ha : v.toFloat = .ok a) (hb : x.toFloat = .ok b)
    (cmp : F → F → Bool) : compareFloats cmp v x = .ok (cmp a b) := by
  simp [compareFloats, ha, hb]

theorem compareFloats_error (h : ¬ ∃ a b : F, v.toFloat = .ok a ∧ x.toFloat = .ok b)
    (cmp : F → F → Bool) : ∃ e, compareFloats cmp v x = .error e := by
  simp only [compareFloats]
  cases ha : v.toFloat with
  | error e => exact ⟨e, rfl⟩
  | ok a =>
    cases hb : x.toFloat with
    | error e => exact ⟨e, rfl⟩
    | ok b => exact absurd ⟨a, b, ha, hb⟩ h

theorem selectsValue_operator {cs : List (Condition F)}
    (h : keyConditions dumps key (.dict [(op, x)]) = .ok cs) :
    ∃ c, getFilterCondition dumps key op x = .ok c ∧
      ∀ v, selectsValue dumps key v (.dict [(op, x)]) =
        decide (c.test (sqlValue dumps v) = some true) := by
  have hcs := h
  simp only [keyConditions] at h
  split at h
  · cases h
  simp only [operatorConditions] at h
  cases hc : getFilterCondition dumps key op x with
  | error e =>
    rw [hc] at h
    cases h
  | ok c =>
    rw [hc] at h
    cases h
    exact ⟨c, rfl, fun v => by simp [selectsValue, hcs]⟩

theorem answer_iff {P : Prop} [Decidable P] {b : Bool} : (P ↔ b = true) ↔ b = decide P := by
  cases b <;> simp

theorem operator_alike {cs : List (Condition F)} (hfinite : FiniteFloat v)
    (h : keyConditions dumps key (.dict [(op, x)]) = .ok cs)
    (hno : ¬ Raises v (.dict [(op, x)])) :
    ∃ b, compareValues v (.dict [(op, x)]) = .ok b ∧
      (SameAnswer dumps v (.dict [(op, x)]) ↔
        b = selectsValue dumps key v (.dict [(op, x)])) := by
  obtain ⟨c, hc, hselects⟩ := selectsValue_operator h
  rw [hselects]
  rcases getFilterCondition_cases hc with ⟨rfl, heq⟩ | ⟨rfl, hne⟩ | ⟨cmp, hop, hcmp, hsign, hord, happly⟩
  · refine ⟨v.equal x, compareValues_operator (by decide) v x, ?_⟩
    have hsame : SameAnswer dumps v (.dict [("$eq", x)]) ↔ EqualAlike dumps v x := Iff.rfl
    rw [hsame, ← equal_alike hfinite heq, answer_iff]
  · refine ⟨!v.equal x, compareValues_operator (by decide) v x, ?_⟩
    have hsame : SameAnswer dumps v (.dict [("$ne", x)]) ↔ DifferentAlike dumps v x := Iff.rfl
    rw [hsame, ← different_alike hfinite hne, ← Bool.not_eq_true', answer_iff]
  · rw [compareValues_operator hsign, happly]
    have hfloats : ∃ a b : F, v.toFloat = .ok a ∧ x.toFloat = .ok b := by
      by_contra hnot
      exact hno ⟨by rw [hop]; rfl, hnot⟩
    obtain ⟨a, b, ha, hb⟩ := hfloats
    refine ⟨cmp.floats a b, compareFloats_ok ha hb _, ?_⟩
    have hsame : SameAnswer dumps v (.dict [(op, x)]) = OrderAlike cmp v x := by
      simp only [SameAnswer, hop]
    rw [hsame, ← order_alike hcmp hfinite hord ha hb, answer_iff]

theorem keyConditions_plain {cs : List (Condition F)} (hplain : ∀ ops, x ≠ .dict ops)
    (h : keyConditions dumps key x = .ok cs) :
    ∃ c, equality dumps key (.isNull key) .eq .text x = .ok c ∧ cs = [c] := by
  simp only [keyConditions] at h
  split at h
  · cases h
  · cases x with
    | dict ops => exact absurd rfl (hplain ops)
    | _ => exact map_ok h

theorem plain_alike {cs : List (Condition F)} (hfinite : FiniteFloat v)
    (hplain : ∀ ops, x ≠ .dict ops) (h : keyConditions dumps key x = .ok cs)
    (hno : ¬ Raises v x) :
    ∃ b, compareValues v x = .ok b ∧
      (SameAnswer dumps v x ↔ b = selectsValue dumps key v x) := by
  obtain ⟨c, hc, rfl⟩ := keyConditions_plain hplain h
  have hselects : selectsValue dumps key v x = decide (c.test (sqlValue dumps v) = some true) := by
    simp [selectsValue, h]
  rw [hselects]
  cases x with
  | dict ops => exact absurd rfl (hplain ops)
  | list fs =>
    cases hcompare : compareValues v (.list fs) with
    | error e => exact absurd ⟨e, hcompare⟩ hno
    | ok b =>
      refine ⟨b, rfl, ?_⟩
      simp only [equality] at hc
      cases hd : dumps (.list fs) with
      | error e =>
        rw [hd] at hc
        cases hc
      | ok text =>
        rw [hd] at hc
        cases hc
        rw [← answer_iff, Condition.test, compare_eq_iff, same_text_iff hfinite]
        simp [SameAnswer, hd, hcompare]
  | null =>
    have heq : equality dumps key (.isNull key) .eq .blob (.null : Json F) = .ok c := hc
    exact ⟨_, rfl, (equal_alike hfinite heq).symm.trans answer_iff⟩
  | bool b =>
    have heq : equality dumps key (.isNull key) .eq .blob (.bool b : Json F) = .ok c := hc
    exact ⟨_, rfl, (equal_alike hfinite heq).symm.trans answer_iff⟩
  | int n =>
    have heq : equality dumps key (.isNull key) .eq .blob (.int n : Json F) = .ok c := hc
    exact ⟨_, rfl, (equal_alike hfinite heq).symm.trans answer_iff⟩
  | float y =>
    have heq : equality dumps key (.isNull key) .eq .blob (.float y : Json F) = .ok c := hc
    exact ⟨_, rfl, (equal_alike hfinite heq).symm.trans answer_iff⟩
  | str s =>
    have heq : equality dumps key (.isNull key) .eq .blob (.str s : Json F) = .ok c := hc
    exact ⟨_, rfl, (equal_alike hfinite heq).symm.trans answer_iff⟩

theorem part_alike {cs : List (Condition F)} (hpart : Part f) (hfinite : FiniteFloat v)
    (h : keyConditions dumps key f = .ok cs) (hno : ¬ Raises v f) :
    ∃ b, compareValues v f = .ok b ∧
      (SameAnswer dumps v f ↔ b = selectsValue dumps key v f) := by
  cases hpart with
  | empty =>
    have hselects : selectsValue dumps key v (.dict []) = true := by
      have hcs := h
      simp only [keyConditions, operatorConditions] at h
      split at h
      · cases h
      · cases h
        simp [selectsValue, hcs]
    rw [hselects]
    cases v with
    | dict items => exact ⟨true, rfl, by simp [SameAnswer]⟩
    | _ => exact ⟨false, rfl, by simp [SameAnswer]⟩
  | operator op x => exact operator_alike hfinite h hno
  | plain x hplain => exact plain_alike hfinite hplain h hno

theorem part_raises {cs : List (Condition F)} (hpart : Part f)
    (h : keyConditions dumps key f = .ok cs) (hraises : Raises v f) :
    ∃ e, compareValues v f = .error e := by
  cases hpart with
  | empty => cases hraises
  | operator op x =>
    obtain ⟨hsome, hfloats⟩ := hraises
    obtain ⟨c, hc, -⟩ := selectsValue_operator h
    rcases getFilterCondition_cases hc with ⟨rfl, -⟩ | ⟨rfl, -⟩ | ⟨cmp, -, -, hsign, -, happly⟩
    · cases hsome
    · cases hsome
    · rw [compareValues_operator hsign, happly]
      exact compareFloats_error hfloats _
  | plain _ hplain =>
    cases f with
    | dict ops => exact absurd rfl (hplain ops)
    | list fs => exact hraises
    | _ => cases hraises

end Parts

section Filters

open InMemoryStore

-- A filter as a list of filter values with at most one condition each.
def keyParts (key : String) : Json F → List (String × Json F)
  | .dict [] => [(key, .dict [])]
  | .dict (o :: ops) => (o :: ops).map (fun o => (key, .dict [o]))
  | x => [(key, x)]

def parts (filter : List (String × Json F)) : List (String × Json F) :=
  filter.flatMap (fun f => keyParts f.1 f.2)

def Accepted (filter : List (String × Json F)) : Prop :=
  ∃ cs, filterConditions dumps filter = .ok cs ∧ ∀ c ∈ cs, "" ∉ path c.key

def memoryAnswer (item : List (String × Json F)) (part : String × Json F) :
    Except CompareError Bool :=
  compareValues (get item part.1) part.2

def sqliteAnswer (item : List (String × Json F)) (part : String × Json F) : Bool :=
  selectsValue dumps part.1 (atPath (path part.1) (.dict item)) part.2

variable {dumps} {item filter ops : List (String × Json F)} {key : String} {f : Json F}
  {cs : List (Condition F)}

omit [SqliteFloats F] in
theorem part_of_mem {p : String × Json F} (h : p ∈ keyParts key f) : p.1 = key ∧ Part p.2 := by
  cases f with
  | dict ops =>
    cases ops with
    | nil =>
      rw [keyParts, List.mem_singleton] at h
      subst h
      exact ⟨rfl, .empty⟩
    | cons o ops =>
      rw [keyParts, List.mem_map] at h
      obtain ⟨o', -, rfl⟩ := h
      exact ⟨rfl, .operator o'.1 o'.2⟩
  | _ =>
    cases List.mem_singleton.mp h
    exact ⟨rfl, .plain _ (fun ops h => by cases h)⟩

theorem key_equality {isNull : Condition F} {cmp : Comparison} {compound : String → SqlValue F}
    {x : Json F} {c : Condition F} (hnull : isNull.key = key)
    (h : equality dumps key isNull cmp compound x = .ok c) : c.key = key := by
  cases x with
  | null =>
    cases h
    exact hnull
  | bool b =>
    cases h
    rfl
  | str s =>
    cases h
    rfl
  | int n =>
    simp only [equality] at h
    obtain ⟨p, -, rfl⟩ := map_ok h
    rfl
  | float y =>
    simp only [equality] at h
    obtain ⟨p, -, rfl⟩ := map_ok h
    rfl
  | list xs =>
    simp only [equality] at h
    obtain ⟨p, -, rfl⟩ := map_ok h
    rfl
  | dict items =>
    simp only [equality] at h
    obtain ⟨p, -, rfl⟩ := map_ok h
    rfl

theorem key_ordering {cmp : Comparison} {x : Json F} {c : Condition F}
    (h : ordering dumps key cmp x = .ok c) : c.key = key := by
  cases x with
  | str s =>
    cases h
    rfl
  | _ =>
    simp only [ordering] at h
    obtain ⟨p, -, rfl⟩ := map_ok h
    rfl

theorem key_getFilterCondition {op : String} {x : Json F} {c : Condition F}
    (h : getFilterCondition dumps key op x = .ok c) : c.key = key := by
  rcases getFilterCondition_cases h with ⟨-, heq⟩ | ⟨-, hne⟩ | ⟨cmp, -, -, -, hord, -⟩
  · exact key_equality rfl heq
  · exact key_equality rfl hne
  · exact key_ordering hord

theorem isOperator_of_condition {op : String} {x : Json F} {c : Condition F}
    (h : getFilterCondition dumps key op x = .ok c) : isOperator op = true := by
  rcases getFilterCondition_cases h with ⟨rfl, -⟩ | ⟨rfl, -⟩ | ⟨cmp, -, -, hsign, -, -⟩
  · decide
  · decide
  · exact hsign

theorem holds_of_key {c : Condition F} (h : c.key = key) :
    holds dumps item c =
      decide (c.test (sqlValue dumps (atPath (path key) (.dict item))) = some true) := by
  simp only [holds, jsonExtract, h]

theorem both_assoc (a b c : Except CompareError Bool) :
    both (both a b) c = both a (both b c) := by
  cases a with
  | error e => rfl
  | ok x => cases x <;> rfl

theorem compareItems_append (item a b : List (String × Json F)) :
    compareItems item (a ++ b) = both (compareItems item a) (compareItems item b) := by
  induction a with
  | nil => rfl
  | cons f rest ih => simp only [List.cons_append, compareItems, ih, both_assoc]

-- The operators of one key, each as a part, in both stores.
theorem operators_parts (hkey : isFilterKey key = true)
    (h : operatorConditions dumps key ops = .ok cs) :
    (∀ o ∈ ops, isOperator o.1 = true ∧ ∃ cs', keyConditions dumps key (.dict [o]) = .ok cs') ∧
      (∀ c ∈ cs, c.key = key) ∧
      cs.all (holds dumps item) =
        (ops.map (fun o => (key, Json.dict [o]))).all (sqliteAnswer dumps item) := by
  induction ops generalizing cs with
  | nil =>
    cases h
    exact ⟨fun o ho => absurd ho List.not_mem_nil, fun c hc => absurd hc List.not_mem_nil, rfl⟩
  | cons o ops ih =>
    simp only [operatorConditions] at h
    cases hc : getFilterCondition dumps key o.1 o.2 with
    | error e =>
      rw [hc] at h
      cases h
    | ok c =>
      rw [hc] at h
      obtain ⟨rest, hrest, rfl⟩ := map_ok h
      obtain ⟨hops, hkeys, hall⟩ := ih hrest
      have hone : keyConditions dumps key (.dict [o]) = .ok [c] := by
        simp [keyConditions, hkey, operatorConditions, hc, Except.map]
      refine ⟨List.forall_mem_cons.mpr ⟨⟨isOperator_of_condition hc, _, hone⟩, hops⟩,
        List.forall_mem_cons.mpr ⟨key_getFilterCondition hc, hkeys⟩, ?_⟩
      rw [List.all_cons, List.map_cons, List.all_cons, hall,
        holds_of_key (key_getFilterCondition hc)]
      simp [sqliteAnswer, selectsValue, hone]

theorem keyConditions_parts (h : keyConditions dumps key f = .ok cs) :
    (∀ p ∈ keyParts key f, ∃ cs', keyConditions dumps p.1 p.2 = .ok cs') ∧
      cs.all (holds dumps item) = (keyParts key f).all (sqliteAnswer dumps item) ∧
      compareItems item (keyParts key f) = compareValues (get item key) f := by
  have hkey : isFilterKey key = true := by
    simp only [keyConditions] at h
    split at h
    · cases h
    · rename_i hkey
      simpa using hkey
  rcases Classical.em (∃ ops, f = .dict ops) with ⟨ops, rfl⟩ | hplain
  · cases ops with
    | nil =>
      have hcs := h
      simp only [keyConditions, hkey] at h
      cases h
      refine ⟨fun p hp => ?_, ?_, ?_⟩
      · rw [keyParts, List.mem_singleton] at hp
        subst hp
        exact ⟨_, hcs⟩
      · simp [keyParts, sqliteAnswer, selectsValue, hcs]
      · simp [keyParts, compareItems, both_true]
    | cons o ops =>
      have hcs : operatorConditions dumps key (o :: ops) = .ok cs := by
        simpa [keyConditions, hkey] using h
      obtain ⟨hops, -, hall⟩ := @operators_parts F _ dumps item _ _ _ hkey hcs
      refine ⟨fun p hp => ?_, hall, ?_⟩
      · rw [keyParts, List.mem_map] at hp
        obtain ⟨o', ho', rfl⟩ := hp
        exact (hops o' ho').2
      · have hany : (o :: ops).any (fun f => isOperator f.1) = true := by
          rw [List.any_cons, (hops o List.mem_cons_self).1, Bool.true_or]
        have happly : ∀ rest : List (String × Json F), (∀ o' ∈ rest, isOperator o'.1 = true) →
            compareItems item (rest.map (fun o => (key, Json.dict [o]))) =
              applyOperators (get item key) rest := by
          intro rest hrest
          induction rest with
          | nil => rfl
          | cons o' rest ih =>
            rw [List.map_cons, compareItems, applyOperators,
              ih (fun o'' ho'' => hrest o'' (List.mem_cons_of_mem _ ho'')),
              compareValues_operator (hrest o' List.mem_cons_self)]
        rw [keyParts, happly _ fun o' ho' => (hops o' ho').1]
        simp only [compareValues, hany, if_true]
  · have hnot : ∀ ops, f ≠ .dict ops := fun ops hops => hplain ⟨ops, hops⟩
    obtain ⟨c, hc, rfl⟩ := keyConditions_plain hnot h
    have hparts : keyParts key f = [(key, f)] := by
      cases f with
      | dict ops => exact absurd rfl (hnot ops)
      | _ => rfl
    have hkeyed : c.key = key := key_equality rfl hc
    rw [hparts]
    refine ⟨fun p hp => ?_, ?_, ?_⟩
    · cases List.mem_singleton.mp hp
      exact ⟨_, h⟩
    · simp [sqliteAnswer, selectsValue, h, holds_of_key hkeyed]
    · simp [compareItems, both_true]

theorem filterConditions_parts (h : filterConditions dumps filter = .ok cs) :
    (∀ p ∈ parts filter, Part p.2 ∧ ∃ cs', keyConditions dumps p.1 p.2 = .ok cs') ∧
      cs.all (holds dumps item) = (parts filter).all (sqliteAnswer dumps item) ∧
      compareItems item (parts filter) = compareItems item filter := by
  induction filter generalizing cs with
  | nil =>
    cases h
    exact ⟨fun p hp => absurd hp List.not_mem_nil, rfl, rfl⟩
  | cons f filter ih =>
    simp only [filterConditions] at h
    cases hf : keyConditions dumps f.1 f.2 with
    | error e =>
      rw [hf] at h
      cases h
    | ok fs =>
      rw [hf] at h
      obtain ⟨rest, hrest, rfl⟩ := map_ok h
      obtain ⟨hparts, hall, hcompare⟩ := ih hrest
      obtain ⟨hparts', hall', hcompare'⟩ := @keyConditions_parts F _ dumps item _ _ _ hf
      have hsplit : parts (f :: filter) = keyParts f.1 f.2 ++ parts filter := rfl
      rw [hsplit]
      refine ⟨fun p hp => ?_, ?_, ?_⟩
      · rcases List.mem_append.mp hp with hp | hp
        · exact ⟨(part_of_mem hp).2, hparts' p hp⟩
        · exact hparts p hp
      · rw [List.all_append, List.all_append, hall, hall']
      · rw [compareItems_append, hcompare, hcompare', compareItems]

theorem selects_parts (h : Accepted dumps filter) :
    selects dumps filter item = .ok ((parts filter).all (sqliteAnswer dumps item)) := by
  obtain ⟨cs, hcs, hpaths⟩ := h
  have hall : cs.all (fun c => "" ∉ path c.key) = true := by
    simpa using hpaths
  simp only [selects, hcs, hall, if_true, (filterConditions_parts hcs).2.1]

theorem compareItems_true (item ps : List (String × Json F)) :
    compareItems item ps = .ok true ↔ ∀ p ∈ ps, memoryAnswer item p = .ok true := by
  induction ps with
  | nil => simp [compareItems]
  | cons p ps ih =>
    rw [compareItems, List.forall_mem_cons, ← ih, memoryAnswer]
    cases compareValues (get item p.1) p.2 with
    | error e => simp [both]
    | ok b => cases b <;> simp [both]

theorem compareItems_false (item ps : List (String × Json F)) :
    compareItems item ps = .ok false ↔ ∃ before p after, ps = before ++ p :: after ∧
      (∀ q ∈ before, memoryAnswer item q = .ok true) ∧ memoryAnswer item p = .ok false := by
  induction ps with
  | nil => simp [compareItems]
  | cons p ps ih =>
    rw [compareItems]
    cases hp : compareValues (get item p.1) p.2 with
    | error e =>
      refine ⟨(fun h => by cases h), ?_⟩
      rintro ⟨before, q, after, hsplit, hbefore, hq⟩
      cases before with
      | nil =>
        cases hsplit
        rw [memoryAnswer, hp] at hq
        cases hq
      | cons p' before =>
        cases hsplit
        have hfirst := hbefore p List.mem_cons_self
        rw [memoryAnswer, hp] at hfirst
        cases hfirst
    | ok b =>
      cases b with
      | false => exact ⟨fun _ => ⟨[], p, ps, rfl, List.forall_mem_nil _, hp⟩, fun _ => rfl⟩
      | true =>
        rw [both, ih]
        constructor
        · rintro ⟨before, q, after, rfl, hbefore, hq⟩
          exact ⟨p :: before, q, after, rfl, List.forall_mem_cons.mpr ⟨hp, hbefore⟩, hq⟩
        · rintro ⟨before, q, after, hsplit, hbefore, hq⟩
          cases before with
          | nil =>
            cases hsplit
            rw [memoryAnswer, hp] at hq
            cases hq
          | cons p' before =>
            cases hsplit
            exact ⟨before, q, after, rfl, (List.forall_mem_cons.mp hbefore).2, hq⟩

end Filters

section Agreement

open InMemoryStore

def Agree (item filter : List (String × Json F)) : Prop :=
  ∃ b, compareItems item filter = .ok b ∧ selects dumps filter item = .ok b

-- A key with a dot is a path in SQLite: there the value under the key and the one at the path
-- count.
def Agreeable (item : List (String × Json F)) (part : String × Json F) : Prop :=
  ¬ Raises (get item part.1) part.2 ∧
    (SameAnswer dumps (get item part.1) part.2 ↔
      selectsValue dumps part.1 (get item part.1) part.2 = sqliteAnswer dumps item part)

-- Each store rejects the item by a condition of its own, the memory store before it raises.
def BothReject (item filter : List (String × Json F)) : Prop :=
  (∃ before p after, parts filter = before ++ p :: after ∧
    (∀ q ∈ before, memoryAnswer item q = .ok true) ∧ memoryAnswer item p = .ok false) ∧
  ∃ p ∈ parts filter, sqliteAnswer dumps item p = false

variable {dumps} {item filter : List (String × Json F)}

theorem part_agrees_iff {p : String × Json F} {cs : List (Condition F)} (hpart : Part p.2)
    (hfinite : FiniteFloat (get item p.1)) (h : keyConditions dumps p.1 p.2 = .ok cs) :
    memoryAnswer item p = .ok (sqliteAnswer dumps item p) ↔ Agreeable dumps item p := by
  rcases Classical.em (Raises (get item p.1) p.2) with hraises | hno
  · obtain ⟨e, he⟩ := part_raises hpart h hraises
    rw [memoryAnswer, he]
    exact ⟨(fun h => by cases h), fun h => absurd hraises h.1⟩
  · obtain ⟨b, hb, hsame⟩ := part_alike hpart hfinite h hno
    rw [memoryAnswer, hb, Agreeable, hsame]
    simp only [hno, not_false_eq_true, true_and, Except.ok.injEq]
    cases b <;> cases selectsValue dumps p.1 (get item p.1) p.2 <;>
      cases sqliteAnswer dumps item p <;> simp

theorem compareItems_of_answers {ps : List (String × Json F)}
    (h : ∀ p ∈ ps, memoryAnswer item p = .ok (sqliteAnswer dumps item p)) :
    compareItems item ps = .ok (ps.all (sqliteAnswer dumps item)) := by
  induction ps with
  | nil => rfl
  | cons p ps ih =>
    obtain ⟨hp, hps⟩ := List.forall_mem_cons.mp h
    rw [memoryAnswer] at hp
    rw [compareItems, ih hps, hp, List.all_cons]
    cases sqliteAnswer dumps item p <;> rfl

theorem agree_iff_answers (h : Accepted dumps filter) :
    Agree dumps item filter ↔
      (∀ p ∈ parts filter, memoryAnswer item p = .ok (sqliteAnswer dumps item p)) ∨
        BothReject dumps item filter := by
  obtain ⟨cs, hcs, -⟩ := id h
  have hmemory := (@filterConditions_parts F _ dumps item _ _ hcs).2.2
  rw [Agree, selects_parts h, ← hmemory]
  constructor
  · rintro ⟨b, hcompare, hselects⟩
    have hall : (parts filter).all (sqliteAnswer dumps item) = b := Except.ok.inj hselects
    cases b with
    | true =>
      refine .inl fun p hp => ?_
      rw [(compareItems_true item _).mp hcompare p hp, List.all_eq_true.mp hall p hp]
    | false =>
      refine .inr ⟨(compareItems_false item _).mp hcompare, ?_⟩
      simpa using List.all_eq_false.mp hall
  · rintro (hanswers | ⟨hrejected, p, hp, hsqlite⟩)
    · exact ⟨_, compareItems_of_answers hanswers, rfl⟩
    · refine ⟨false, (compareItems_false item _).mpr hrejected, ?_⟩
      rw [List.all_eq_false.mpr ⟨p, hp, by simp [hsqlite]⟩]

theorem stores_agree_iff (item filter : List (String × Json F))
    (hjson : ∀ k, FiniteFloat (get item k)) (haccepted : Accepted dumps filter) :
    Agree dumps item filter ↔
      (∀ part ∈ parts filter, Agreeable dumps item part) ∨ BothReject dumps item filter := by
  obtain ⟨cs, hcs, -⟩ := id haccepted
  rw [agree_iff_answers haccepted]
  refine or_congr_left (forall₂_congr fun p hp => ?_)
  obtain ⟨hpart, cs', hcs'⟩ := (@filterConditions_parts F _ dumps item _ _ hcs).1 p hp
  exact part_agrees_iff hpart (hjson p.1) hcs'

omit [SqliteFloats F] in
theorem path_undotted {key : String} (h : '.' ∉ key.toList) :
    atPath (path key) (.dict item) = get item key := by
  have hpath : path key = [key] := by
    have hsep : Separate '.' [key] := separate_singleton h
    have hsplit := splitText_joinText_of_ne_nil hsep (List.cons_ne_nil _ _)
    rwa [joinText_singleton] at hsplit
  rw [hpath]
  rfl

theorem agreeable_undotted {part : String × Json F} (h : '.' ∉ part.1.toList) :
    Agreeable dumps item part ↔
      ¬ Raises (get item part.1) part.2 ∧ SameAnswer dumps (get item part.1) part.2 := by
  rw [Agreeable, sqliteAnswer, path_undotted h]
  simp

end Agreement

section Tagged

open InMemoryStore

-- The whole floats, with `none` as NaN.
instance wholeSqliteFloats : SqliteFloats (Option Int) where
  ofInt n := some (some n)
  ofStr s := s.toInt?.map some
  lt a b := decide (∃ x ∈ a, ∃ y ∈ b, x < y)
  le a b := decide (∃ x ∈ a, ∃ y ∈ b, x ≤ y)
  eq a b := decide (∃ x ∈ a, ∃ y ∈ b, x = y)
  eqInt a n := decide (a = some n)
  isFinite a := a.isSome
  castInt n := some n
  castText s := some (s.toInt?.getD 0)
  intLt n a := decide (∃ x ∈ a, n < x)
  ltInt a n := decide (∃ x ∈ a, x < n)
  castInt_of_ofInt n x h := by
    cases h
    rfl
  ordered_of_ofInt n x h := by
    cases h
    simp
  le_iff x y := by
    cases x <;> cases y <;> simp [Int.le_iff_lt_or_eq, eq_comm]
  unordered y h x n := by
    cases y with
    | none => simp
    | some y => simp at h

def dumpsTags : Json (Option Int) → Except FilterError String
  | .list [.str "draft"] => .ok "[\"draft\"]"
  | _ => .error .notSerializable

theorem stores_agree_price :
    Agree dumpsTags [("price", .int 30)] [("price", .dict [("$gt", .int 15)])] := by
  refine (stores_agree_iff _ _ ?_ ?_).mpr (.inl ?_)
  · intro k x hx
    simp only [Json.get, Dict.lookup] at hx
    split at hx <;> cases hx
  · refine ⟨[.castCompare "price" .gt (.real (some 15))], rfl, fun c hc => ?_⟩
    cases List.mem_singleton.mp hc
    decide +kernel
  · intro part hpart
    cases List.mem_singleton.mp hpart
    have hprice : get [("price", Json.int 30)] "price" = (.int 30 : Json (Option Int)) := rfl
    rw [agreeable_undotted (by decide), hprice]
    exact ⟨fun h => h.2 ⟨some 30, some 15, rfl, rfl⟩, fun a b ha hb => trivial⟩

theorem tagged_item_missed :
    Accepted dumpsTags [("tags", .dict [("$eq", .list [.str "draft"])])] ∧
      ¬ Agree dumpsTags [("tags", .list [.str "draft"])]
        [("tags", .dict [("$eq", .list [.str "draft"])])] := by
  constructor
  · refine ⟨[.compare "tags" .eq (.blob "[\"draft\"]")], rfl, fun c hc => ?_⟩
    cases List.mem_singleton.mp hc
    decide +kernel
  · rintro ⟨b, hmemory, hsqlite⟩
    have hselected : compareItems (F := Option Int) [("tags", .list [.str "draft"])]
        [("tags", .dict [("$eq", .list [.str "draft"])])] = .ok true := rfl
    cases hselected.symm.trans hmemory
    have hrejected : selects dumpsTags [("tags", .dict [("$eq", .list [.str "draft"])])]
        [("tags", .list [.str "draft"])] = .ok false := rfl
    cases hrejected.symm.trans hsqlite

end Tagged

end SqliteStore

end Store

end LangGraph

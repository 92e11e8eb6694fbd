import LangGraph.Checkpoint.Rows
import LangGraph.Collections.Upsert
import LangGraph.Transition.Run

namespace LangGraph

open Collections Transition

-- The writes table of one thread and namespace, by its primary key.
abbrev SqliteWrites := Dict (String × WriteKey) Write

def writeRowsOf (taskId : String) (writes : List Write) : List (WriteKey × Write) :=
  writes.zipIdx.map (fun w => (writeKey taskId w.1.1 w.2, w.1))

namespace SqliteWrites

def query (writes : List Write) : OnConflict :=
  if ∀ w ∈ writes, Special w.1 then .replace else .ignore

def putWrites (t : SqliteWrites) (checkpointId : String) (writes : List Write) (taskId : String) :
    SqliteWrites :=
  t.insertMany (fun _ => query writes)
    ((writeRowsOf taskId writes).map (fun r => ((checkpointId, r.1), r.2)))

def writeRows (t : SqliteWrites) (checkpointId : String) : List (WriteKey × Write) :=
  t.items.filterMap (fun e => if e.1.1 = checkpointId then some (e.1.2, e.2) else none)

theorem mem_writeRows {t : SqliteWrites} {checkpointId : String} {k : WriteKey} {w : Write} :
    (k, w) ∈ t.writeRows checkpointId ↔ t.get? (checkpointId, k) = some w := by
  rw [Dict.get?_eq_some, writeRows, List.mem_filterMap]
  constructor
  · rintro ⟨⟨⟨id, k'⟩, w'⟩, hmem, he⟩
    split_ifs at he with hid
    cases he
    cases hid
    exact hmem
  · intro hmem
    exact ⟨((checkpointId, k), w), hmem, if_pos rfl⟩

end SqliteWrites

namespace InMemorySaver

variable {Ver : Type}

def writeRows (s : InMemorySaver Ver) (checkpointId : String) : List (WriteKey × Write) :=
  (s.rows checkpointId).items.map (fun e => (e.1, e.2.write))

def written (s : InMemorySaver Ver) (checkpointId : String) : Dict WriteKey Write :=
  (s.rows checkpointId).mapValues SavedWrite.write

theorem mem_writeRows {s : InMemorySaver Ver} {checkpointId : String} {k : WriteKey} {w : Write} :
    (k, w) ∈ s.writeRows checkpointId ↔ (s.written checkpointId).get? k = some w :=
  (Dict.get?_eq_some (d := s.written checkpointId)).symm

end InMemorySaver

def rowPolicy (k : WriteKey) : OnConflict := if 0 ≤ k.2 then .ignore else .replace

theorem rowPolicy_nonneg {k : WriteKey} (h : 0 ≤ k.2) : rowPolicy k = .ignore := if_pos h

theorem rowPolicy_neg {k : WriteKey} (h : k.2 < 0) : rowPolicy k = .replace :=
  if_neg (Int.not_le.mpr h)

def savedRowsFrom (taskId taskPath : String) (i : Nat) (ws : List Write) :
    List (WriteKey × SavedWrite) :=
  (ws.zipIdx i).map (fun w => (writeKey taskId w.1.1 w.2, ⟨w.1.1, w.1.2, taskPath⟩))

theorem put_eq_insertMany (taskId taskPath : String) (i : Nat) (ws : List Write)
    (rows : WriteRows) :
    WriteRows.put taskId taskPath i ws rows =
      rows.insertMany rowPolicy (savedRowsFrom taskId taskPath i ws) := by
  induction ws generalizing i rows with
  | nil => rfl
  | cons w ws ih =>
    obtain ⟨c, v⟩ := w
    have hstep : rows.insertMany rowPolicy (savedRowsFrom taskId taskPath i ((c, v) :: ws)) =
        (rows.insertOn (rowPolicy (writeKey taskId c i)) (writeKey taskId c i)
          ⟨c, v, taskPath⟩).insertMany rowPolicy (savedRowsFrom taskId taskPath (i + 1) ws) := rfl
    rw [hstep, WriteRows.put]
    by_cases hk : 0 ≤ (writeKey taskId c i).2
    · rw [rowPolicy_nonneg hk, Dict.insertOn]
      by_cases hm : writeKey taskId c i ∈ rows.keys
      · simp only [hk, hm, and_self, if_true]
        exact ih (i + 1) rows
      · simp only [hm, and_false, if_false]
        exact ih (i + 1) _
    · rw [rowPolicy_neg (Int.not_le.mp hk), Dict.insertOn]
      simp only [hk, false_and, if_false]
      exact ih (i + 1) _

theorem written_putWrites {Ver : Type} (s : InMemorySaver Ver) (checkpointId : String)
    (ws : List Write) (taskId taskPath : String) :
    (s.putWrites checkpointId ws taskId taskPath).written checkpointId =
      (s.written checkpointId).insertMany rowPolicy (writeRowsOf taskId ws) := by
  rw [InMemorySaver.written, InMemorySaver.rows_putWrites, put_eq_insertMany,
    Dict.mapValues_insertMany, savedRowsFrom, List.map_map]
  rfl

theorem written_putWrites_ne {Ver : Type} (s : InMemorySaver Ver) {checkpointId other : String}
    (h : checkpointId ≠ other) (ws : List Write) (taskId taskPath : String) :
    (s.putWrites other ws taskId taskPath).written checkpointId = s.written checkpointId := by
  rw [InMemorySaver.written, InMemorySaver.rows_putWrites_ne s h]
  rfl

theorem mem_writeRowsOf {taskId : String} {ws : List Write} {r : WriteKey × Write}
    (h : r ∈ writeRowsOf taskId ws) : r.2 ∈ ws ∧ ∃ i : Nat, r.1 = writeKey taskId r.2.1 i := by
  obtain ⟨⟨w, i⟩, hw, rfl⟩ := List.mem_map.mp h
  obtain ⟨-, -, hget⟩ := List.mem_zipIdx hw
  refine ⟨?_, i, rfl⟩
  rw [hget]
  exact List.getElem_mem _

theorem writeKey_eq_special {c d : String} (hc : Special c) (taskId : String) (i j : Nat) :
    writeKey taskId d i = writeKey taskId c j ↔ d = c := by
  obtain ⟨n, hn, hneg, hk⟩ := writeKey_special hc taskId j
  rw [hk]
  constructor
  · intro h
    by_cases hd : Special d
    · obtain ⟨m, hm, -, hk'⟩ := writeKey_special hd taskId i
      rw [hk', Prod.mk.injEq] at h
      exact writesIdxMap_inj (h.2 ▸ hm) hn
    · rw [writeKey_ordinary hd, Prod.mk.injEq] at h
      omega
  · rintro rfl
    obtain ⟨m, hm, -, hk'⟩ := writeKey_special hc taskId i
    rw [hk', Option.some.inj (hm.symm.trans hn)]

theorem find_special {c : String} (hc : Special c) (taskId : String) (l : List (Write × Nat)) :
    firstOf (writeKey taskId c 0) (l.map (fun w => (writeKey taskId w.1.1 w.2, w.1))) =
      (l.map Prod.fst).find? (fun w => w.1 = c) := by
  induction l with
  | nil => rfl
  | cons w l ih =>
    rw [List.map_cons, List.map_cons, Dict.firstOf_cons, ih, List.find?_cons]
    simp only [writeKey_eq_special hc]
    by_cases h : w.1.1 = c <;> simp [h]

theorem firstOf_special {c : String} (hc : Special c) (taskId : String) (ws : List Write) :
    firstOf (writeKey taskId c 0) (writeRowsOf taskId ws) = ws.find? (fun w => w.1 = c) := by
  rw [writeRowsOf, find_special hc, List.zipIdx_map_fst]

theorem lastOf_special {c : String} (hc : Special c) (taskId : String) (ws : List Write) :
    lastOf (writeKey taskId c 0) (writeRowsOf taskId ws) =
      ws.reverse.find? (fun w => w.1 = c) := by
  rw [lastOf, writeRowsOf, ← List.map_reverse, find_special hc, List.map_reverse,
    List.zipIdx_map_fst]

structure PutWrites where
  checkpointId : String
  writes : List Write
  taskId : String
  taskPath : String
  deriving DecidableEq

structure Savers (Ver : Type) where
  memory : InMemorySaver Ver
  sqlite : SqliteWrites

namespace Savers

variable {Ver : Type}

def empty : Savers Ver := ⟨InMemorySaver.empty, ∅⟩

def putWrites (s : Savers Ver) (call : PutWrites) : Savers Ver :=
  ⟨s.memory.putWrites call.checkpointId call.writes call.taskId call.taskPath,
    s.sqlite.putWrites call.checkpointId call.writes call.taskId⟩

def SameRows (s : Savers Ver) : Prop :=
  ∀ checkpointId r,
    r ∈ s.memory.writeRows checkpointId ↔ r ∈ s.sqlite.writeRows checkpointId

def SpecialsKept (s : Savers Ver) (call : PutWrites) : Prop :=
  (∀ w ∈ call.writes, Special w.1) ∨
    ∀ w ∈ call.writes, Special w.1 →
      ((s.memory.written call.checkpointId).get? (writeKey call.taskId w.1 0)).or
          (call.writes.find? (fun v => v.1 = w.1)) =
        call.writes.reverse.find? (fun v => v.1 = w.1)

instance (s : Savers Ver) (call : PutWrites) : Decidable (s.SpecialsKept call) :=
  inferInstanceAs (Decidable (_ ∨ _))

theorem sameRows_iff {s : Savers Ver} :
    s.SameRows ↔ ∀ checkpointId k,
      (s.memory.written checkpointId).get? k = s.sqlite.get? (checkpointId, k) := by
  constructor
  · intro h checkpointId k
    apply Option.ext
    intro w
    rw [← InMemorySaver.mem_writeRows, ← SqliteWrites.mem_writeRows]
    exact h checkpointId (k, w)
  · rintro h checkpointId ⟨k, w⟩
    rw [InMemorySaver.mem_writeRows, SqliteWrites.mem_writeRows, h]

theorem get?_sqlite_putWrites (t : SqliteWrites) (call : PutWrites) (k : WriteKey) :
    (t.putWrites call.checkpointId call.writes call.taskId).get? (call.checkpointId, k) =
      Dict.resolve (SqliteWrites.query call.writes) (t.get? (call.checkpointId, k))
        (firstOf k (writeRowsOf call.taskId call.writes))
        (lastOf k (writeRowsOf call.taskId call.writes)) := by
  have hinj : Function.Injective (fun k : WriteKey => (call.checkpointId, k)) :=
    fun _ _ h => (Prod.mk.inj h).2
  rw [SqliteWrites.putWrites, Dict.get?_insertMany, Dict.firstOf_map hinj, Dict.lastOf_map hinj]

theorem get?_sqlite_putWrites_ne (t : SqliteWrites) (call : PutWrites) {checkpointId : String}
    (h : checkpointId ≠ call.checkpointId) (k : WriteKey) :
    (t.putWrites call.checkpointId call.writes call.taskId).get? (checkpointId, k) =
      t.get? (checkpointId, k) := by
  have hnot (r : (String × WriteKey) × Write)
      (hr : r ∈ (writeRowsOf call.taskId call.writes).map
        (fun r => ((call.checkpointId, r.1), r.2))) : r.1 ≠ (checkpointId, k) := by
    obtain ⟨q, -, rfl⟩ := List.mem_map.mp hr
    intro he
    exact h (Prod.mk.inj he).1.symm
  rw [SqliteWrites.putWrites, Dict.get?_insertMany, Dict.firstOf_eq_none.mpr hnot,
    Dict.lastOf_eq_none.mpr hnot]
  cases SqliteWrites.query call.writes <;> simp [Dict.resolve]

-- Only a special row in a batch with ordinary writes is treated differently.
theorem same_row_iff {s : Savers Ver} (hs : s.SameRows) (call : PutWrites) (k : WriteKey) :
    ((s.putWrites call).memory.written call.checkpointId).get? k =
        (s.putWrites call).sqlite.get? (call.checkpointId, k) ↔
      rowPolicy k = SqliteWrites.query call.writes ∨
        ((s.memory.written call.checkpointId).get? k).or
            (firstOf k (writeRowsOf call.taskId call.writes)) =
          (lastOf k (writeRowsOf call.taskId call.writes)).or
            ((s.memory.written call.checkpointId).get? k) := by
  have hk := sameRows_iff.mp hs call.checkpointId k
  rw [putWrites, written_putWrites, get?_sqlite_putWrites, Dict.get?_insertMany, ← hk]
  cases rowPolicy k <;> cases SqliteWrites.query call.writes <;> simp [Dict.resolve, eq_comm]

theorem written_of_lastOf {call : PutWrites} {k : WriteKey}
    (h : lastOf k (writeRowsOf call.taskId call.writes) ≠ none) :
    ∃ w ∈ call.writes, ∃ i : Nat, k = writeKey call.taskId w.1 i := by
  by_contra hne
  apply h
  rw [Dict.lastOf_eq_none]
  intro r hr he
  obtain ⟨hmem, i, hi⟩ := mem_writeRowsOf hr
  exact hne ⟨r.2, hmem, i, he ▸ hi⟩

theorem lastOf_ne_none {call : PutWrites} {w : Write} (hw : w ∈ call.writes)
    (hs : Special w.1) :
    lastOf (writeKey call.taskId w.1 0) (writeRowsOf call.taskId call.writes) ≠ none := by
  rw [lastOf_special hs, ne_eq, List.find?_eq_none]
  intro h
  exact h w (List.mem_reverse.mpr hw) (decide_eq_true rfl)

theorem rowPolicy_special {c : String} (hc : Special c) (taskId : String) (i : Nat) :
    rowPolicy (writeKey taskId c i) = .replace := by
  obtain ⟨n, -, hneg, hk⟩ := writeKey_special hc taskId i
  rw [hk]
  exact rowPolicy_neg hneg

theorem rowPolicy_ordinary {c : String} (hc : ¬ Special c) (taskId : String) (i : Nat) :
    rowPolicy (writeKey taskId c i) = .ignore := by
  rw [writeKey_ordinary hc]
  exact rowPolicy_nonneg (Int.natCast_nonneg i)

theorem sameRows_putWrites_iff {s : Savers Ver} (hs : s.SameRows) (call : PutWrites) :
    (s.putWrites call).SameRows ↔ s.SpecialsKept call := by
  constructor
  · intro h
    by_cases hpure : ∀ w ∈ call.writes, Special w.1
    · exact Or.inl hpure
    · refine Or.inr fun w hw hspecial => ?_
      have hrow := (same_row_iff hs call _).mp
        (sameRows_iff.mp h call.checkpointId (writeKey call.taskId w.1 0))
      have hquery : SqliteWrites.query call.writes = .ignore := if_neg hpure
      rw [rowPolicy_special hspecial, hquery] at hrow
      have heq := hrow.resolve_left (by decide)
      obtain ⟨v, hv⟩ := Option.ne_none_iff_exists'.mp (lastOf_ne_none hw hspecial)
      rw [hv, Option.some_or, ← hv, firstOf_special hspecial, lastOf_special hspecial] at heq
      exact heq
  · intro h
    apply sameRows_iff.mpr
    intro checkpointId k
    by_cases hid : checkpointId = call.checkpointId
    · subst hid
      apply (same_row_iff hs call k).mpr
      by_cases hlast : lastOf k (writeRowsOf call.taskId call.writes) = none
      · right
        rw [hlast, (Dict.firstOf_eq_none_iff_lastOf _ _).mpr hlast, Option.or_none, Option.none_or]
      · obtain ⟨w, hw, i, rfl⟩ := written_of_lastOf hlast
        by_cases hspecial : Special w.1
        · rcases h with hpure | hkept
          · left
            rw [rowPolicy_special hspecial]
            exact (if_pos hpure).symm
          · right
            have hkey := (writeKey_eq_special hspecial call.taskId i 0).mpr rfl
            obtain ⟨v, hv⟩ := Option.ne_none_iff_exists'.mp hlast
            rw [hv, Option.some_or, ← hv, hkey, firstOf_special hspecial, lastOf_special hspecial]
            exact hkept w hw hspecial
        · left
          rw [rowPolicy_ordinary hspecial]
          exact (if_neg fun hpure => hspecial (hpure w hw)).symm
    · have hmem := written_putWrites_ne s.memory hid call.writes call.taskId call.taskPath
      have hsql := get?_sqlite_putWrites_ne s.sqlite call hid k
      rw [putWrites, hmem, hsql]
      exact sameRows_iff.mp hs checkpointId k

theorem sameRows_empty : (empty : Savers Ver).SameRows := by
  intro checkpointId r
  exact Iff.rfl

theorem savers_agree_iff (calls : List PutWrites) :
    Always putWrites SameRows (empty : Savers Ver) calls ↔
      EachStep putWrites SpecialsKept (empty : Savers Ver) calls := by
  have hstep (s : Savers Ver) (call : PutWrites) (_ : True) (hs : s.SameRows) :
      (s.putWrites call).SameRows ↔ s.SpecialsKept call :=
    sameRows_putWrites_iff hs call
  have hinv (s : Savers Ver) (call : PutWrites) (_ : True) (_ : s.SameRows)
      (_ : (s.putWrites call).SameRows) : True := trivial
  exact always_iff_eachStep hstep hinv calls trivial sameRows_empty

-- A task that writes and then fails, and fails with another error when it is run again.
def failedTwice : List PutWrites :=
  [⟨"1", [("a", .str "x"), (Key.error, .str "first")], "t", ""⟩,
    ⟨"1", [("a", .str "x"), (Key.error, .str "second")], "t", ""⟩]

theorem failedTwice_differ :
    ¬ ∀ calls : List PutWrites, (run putWrites (empty : Savers Nat) calls).SameRows := by
  intro h
  have hrow := sameRows_iff.mp (h failedTwice) "1" ("t", -1)
  exact absurd hrow (by decide)

end Savers

end LangGraph

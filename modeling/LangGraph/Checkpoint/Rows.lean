import LangGraph.Checkpoint.Memory
import LangGraph.Collections.SlotTable

namespace LangGraph

open Collections

theorem writeKey_special {c : String} (h : Special c) (taskId : String) (i : Nat) :
    ∃ n, writesIdxMap c = some n ∧ n < 0 ∧ writeKey taskId c i = (taskId, n) := by
  obtain ⟨n, hn⟩ := Option.isSome_iff_exists.mp h
  exact ⟨n, hn, writesIdxMap_neg hn, by rw [writeKey, hn, Option.getD_some]⟩

theorem writeKey_ordinary {c : String} (h : ¬ Special c) (taskId : String) (i : Nat) :
    writeKey taskId c i = (taskId, (i : Int)) := by
  have hn : writesIdxMap c = none := by
    cases hc : writesIdxMap c with
    | none => rfl
    | some n => exact absurd (by rw [Special, hc]; rfl) h
  rw [writeKey, hn, Option.getD_none]

def writeSlots (taskId : String) : Slots Write WriteKey where
  key i w := writeKey taskId w.1 i
  pinned w := Special w.1
  sticky k := 0 ≤ k.2
  key_pinned {w} i j h := by
    obtain ⟨n, hn, -, hi⟩ := writeKey_special h taskId i
    obtain ⟨m, hm, -, hj⟩ := writeKey_special h taskId j
    have hnm : n = m := Option.some.inj (hn.symm.trans hm)
    rw [hi, hj, hnm]
  key_free {v w i j} hv hw := by
    rw [writeKey_ordinary hv, writeKey_ordinary hw, Prod.mk.injEq, Int.natCast_inj]
    exact and_iff_right rfl
  sticky_key i w := by
    by_cases h : Special w.1
    · obtain ⟨n, -, hneg, hi⟩ := writeKey_special h taskId i
      rw [hi]
      constructor
      · intro h0
        exact absurd h0 (by simpa using hneg)
      · exact fun hn => absurd h hn
    · rw [writeKey_ordinary h]
      exact ⟨fun _ => h, fun _ => Int.natCast_nonneg i⟩

instance (taskId : String) : DecidablePred (writeSlots taskId).sticky :=
  fun k => inferInstanceAs (Decidable (0 ≤ k.2))

instance (taskId : String) : DecidablePred (writeSlots taskId).pinned :=
  fun w => inferInstanceAs (Decidable (Special w.1))

theorem writeSlots_same {taskId : String} {v w : Write} (hv : Special v.1) (hw : Special w.1) :
    (writeSlots taskId).key 0 v = (writeSlots taskId).key 0 w ↔ v.1 = w.1 := by
  obtain ⟨n, hn, -, hkv⟩ := writeKey_special hv taskId 0
  obtain ⟨m, hm, -, hkw⟩ := writeKey_special hw taskId 0
  have hkv' : (writeSlots taskId).key 0 v = (taskId, n) := hkv
  have hkw' : (writeSlots taskId).key 0 w = (taskId, m) := hkw
  rw [hkv', hkw', Prod.mk.injEq]
  constructor
  · rintro ⟨-, rfl⟩
    exact writesIdxMap_inj hn hm
  · intro h
    rw [h, hm] at hn
    exact ⟨rfl, (Option.some.inj hn).symm⟩

namespace WriteRows

def ofTask (rows : WriteRows) (taskId : String) : List (WriteKey × Write) :=
  (rows.items.filter (fun e => e.1.1 = taskId)).map (fun e => (e.1, e.2.write))

def writesOf (rows : WriteRows) (taskId : String) : List Write :=
  (rows.ofTask taskId).map Prod.snd

theorem mem_keys_ofTask (rows : WriteRows) {taskId : String} {k : WriteKey}
    (hk : k.1 = taskId) : k ∈ (rows.ofTask taskId).map Prod.fst ↔ k ∈ rows.keys := by
  simp only [ofTask, Dict.keys, List.map_map, List.mem_map, List.mem_filter, decide_eq_true_eq,
    Function.comp_apply]
  constructor
  · rintro ⟨e, ⟨he, -⟩, rfl⟩
    exact ⟨e, he, rfl⟩
  · rintro ⟨e, he, rfl⟩
    exact ⟨e, ⟨he, hk⟩, rfl⟩

theorem ofTask_set (rows : WriteRows) {taskId : String} {k : WriteKey} (hk : k.1 = taskId)
    (w : SavedWrite) :
    ofTask (rows.set k w) taskId = Dict.insert k w.write (rows.ofTask taskId) := by
  have hp : decide (k.1 = taskId) = true := decide_eq_true hk
  have h := Dict.insert_filter_of_pos (p := fun k : WriteKey => decide (k.1 = taskId)) hp w rows.items
  rw [ofTask, Dict.set, h, Dict.insert_map]
  rfl

theorem ofTask_set_ne (rows : WriteRows) {taskId : String} {k : WriteKey} (hk : k.1 ≠ taskId)
    (w : SavedWrite) : ofTask (rows.set k w) taskId = rows.ofTask taskId := by
  have hp : decide (k.1 = taskId) = false := decide_eq_false hk
  have h := Dict.insert_filter_of_neg (p := fun k : WriteKey => decide (k.1 = taskId)) hp w rows.items
  rw [ofTask, Dict.set, h]
  rfl

theorem ofTask_put (taskId taskPath : String) (i : Nat) (ws : List Write) (rows : WriteRows) :
    (WriteRows.put taskId taskPath i ws rows).ofTask taskId =
      (writeSlots taskId).save i ws (rows.ofTask taskId) := by
  induction ws generalizing i rows with
  | nil => rfl
  | cons w ws ih =>
    obtain ⟨c, v⟩ := w
    have hkey : (writeKey taskId c i).1 = taskId := rfl
    have hmem := mem_keys_ofTask rows hkey
    rw [WriteRows.put, Slots.save]
    by_cases h : 0 ≤ (writeKey taskId c i).2 ∧ writeKey taskId c i ∈ rows.keys
    · have h' : (writeSlots taskId).sticky ((writeSlots taskId).key i (c, v)) ∧
          (writeSlots taskId).key i (c, v) ∈ (rows.ofTask taskId).map Prod.fst :=
        ⟨h.1, hmem.mpr h.2⟩
      rw [if_pos h, if_pos h']
      exact ih (i + 1) rows
    · have h' : ¬ ((writeSlots taskId).sticky ((writeSlots taskId).key i (c, v)) ∧
          (writeSlots taskId).key i (c, v) ∈ (rows.ofTask taskId).map Prod.fst) :=
        fun e => h ⟨e.1, hmem.mp e.2⟩
      rw [if_neg h, if_neg h', ih, ofTask_set rows hkey]
      rfl

theorem ofTask_put_ne {taskId other : String} (h : other ≠ taskId) (taskPath : String) (i : Nat)
    (ws : List Write) (rows : WriteRows) :
    (WriteRows.put other taskPath i ws rows).ofTask taskId = rows.ofTask taskId := by
  induction ws generalizing i rows with
  | nil => rfl
  | cons w ws ih =>
    obtain ⟨c, v⟩ := w
    have hkey : (writeKey other c i).1 ≠ taskId := h
    rw [WriteRows.put]
    split
    · exact ih (i + 1) rows
    · rw [ih, ofTask_set_ne rows hkey]

theorem mem_put_task {taskId taskPath : String} {i : Nat} {ws : List Write}
    {rows : WriteRows} {e : WriteKey × SavedWrite}
    (h : e ∈ (WriteRows.put taskId taskPath i ws rows).items) :
    e ∈ rows.items ∨ e.1.1 = taskId ∧ e.2.write ∈ ws := by
  induction ws generalizing i rows with
  | nil => exact Or.inl h
  | cons w ws ih =>
    obtain ⟨c, v⟩ := w
    rw [WriteRows.put] at h
    split at h
    · exact (ih h).imp_right (fun he => ⟨he.1, List.mem_cons_of_mem _ he.2⟩)
    · rcases ih h with h | h
      · rcases Dict.mem_insert h with h | h
        · rw [h]
          exact Or.inr ⟨rfl, List.mem_cons_self⟩
        · exact Or.inl h
      · exact Or.inr ⟨h.1, List.mem_cons_of_mem _ h.2⟩

theorem mem_put {taskId taskPath : String} {i : Nat} {ws : List Write}
    {rows : WriteRows} {e : WriteKey × SavedWrite}
    (h : e ∈ (WriteRows.put taskId taskPath i ws rows).items) :
    e ∈ rows.items ∨ e.2.write ∈ ws :=
  (mem_put_task h).imp_right And.right

end WriteRows

namespace InMemorySaver

variable {Ver : Type}

theorem rows_putWrites (s : InMemorySaver Ver) (checkpointId : String) (ws : List Write)
    (taskId taskPath : String) :
    (s.putWrites checkpointId ws taskId taskPath).rows checkpointId =
      WriteRows.put taskId taskPath 0 ws (s.rows checkpointId) := by
  cases ws with
  | nil => rfl
  | cons w ws => simp [putWrites, rows, Dict.getD]

theorem rows_putWrites_ne (s : InMemorySaver Ver) {checkpointId other : String}
    (h : checkpointId ≠ other) (ws : List Write) (taskId taskPath : String) :
    (s.putWrites other ws taskId taskPath).rows checkpointId = s.rows checkpointId := by
  cases ws with
  | nil => rfl
  | cons w ws => simp only [putWrites, rows, Dict.getD, Dict.get?_set_ne _ h]

section Blobs

variable [DecidableEq Ver]

theorem get?_putBlobs (values : Dict String Blob) (newVersions : ChannelVersions Ver)
    (blobs : Dict (String × Ver) (Option Blob)) (k : String) (ver : Ver) :
    (putBlobs values newVersions blobs).get? (k, ver) =
      if newVersions.get? k = some ver then some (values.get? k) else blobs.get? (k, ver) := by
  have aux (l : List (String × Ver)) (d : Dict (String × Ver) (Option Blob)) :
      (l.foldl (fun d e => d.set (e.1, e.2) (values.get? e.1)) d).get? (k, ver) =
        if (k, ver) ∈ l then some (values.get? k) else d.get? (k, ver) := by
    induction l generalizing d with
    | nil => simp
    | cons e l ih =>
      rw [List.foldl_cons, ih, Dict.get?_set]
      by_cases hl : (k, ver) ∈ l
      · simp [hl]
      · by_cases he : (k, ver) = e
        · simp [← he, hl]
        · simp [he, hl]
  rw [putBlobs, aux]
  simp only [Dict.get?_eq_some]

end Blobs

end InMemorySaver

end LangGraph

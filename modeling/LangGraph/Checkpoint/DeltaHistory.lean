import LangGraph.Checkpoint.Rows
import LangGraph.Collections.Sorting

namespace LangGraph

open Collections

structure Visit where
  stored : String → Option Blob
  skip : String → Bool
  newestFirst : List PendingWrite

structure Gathered where
  collected : String → List PendingWrite
  seed : String → Option Blob
  remaining : Finset String

namespace Gathered

def start (channels : List String) : Gathered := ⟨fun _ => [], fun _ => none, channels.toFinset⟩

def collect (remaining : Finset String) (skip : String → Bool) :
    List PendingWrite → (String → List PendingWrite) → String → List PendingWrite
  | [], collected => collected
  | w :: ws, collected =>
      if w.channel ∈ remaining ∧ skip w.channel = false then
        collect remaining skip ws
          (Function.update collected w.channel (collected w.channel ++ [w]))
      else collect remaining skip ws collected

def visit (g : Gathered) (v : Visit) : Gathered where
  collected := collect g.remaining v.skip v.newestFirst g.collected
  seed ch := if ch ∈ g.remaining then (v.stored ch).or (g.seed ch) else g.seed ch
  remaining := g.remaining.filter (fun ch => v.stored ch = none)

def sweep : List Visit → Gathered → Gathered
  | [], g => g
  | v :: vs, g => if g.remaining = ∅ then g else sweep vs (g.visit v)

def history (g : Gathered) (ch : String) : DeltaChannelHistory :=
  ⟨(g.collected ch).reverse, g.seed ch⟩

def histories (g : Gathered) (channels : List String) : List (String × DeltaChannelHistory) :=
  channels.map (fun ch => (ch, g.history ch))

theorem collect_apply (remaining : Finset String) (skip : String → Bool) (ws : List PendingWrite)
    (collected : String → List PendingWrite) (ch : String) :
    collect remaining skip ws collected ch =
      if ch ∈ remaining ∧ skip ch = false then
        collected ch ++ ws.filter (fun w => w.channel = ch)
      else collected ch := by
  induction ws generalizing collected with
  | nil => simp [collect]
  | cons w ws ih =>
    rw [collect]
    by_cases hw : w.channel = ch
    · subst hw
      by_cases h : w.channel ∈ remaining ∧ skip w.channel = false
      · rw [if_pos h, ih, if_pos h, if_pos h]
        simp
      · rw [if_neg h, ih, if_neg h, if_neg h]
    · have hupdate : Function.update collected w.channel (collected w.channel ++ [w]) ch =
          collected ch := Function.update_of_ne (fun e => hw e.symm) _ _
      split_ifs with h h' h' <;> simp [ih, h', hupdate, hw]

theorem collected_visit (g : Gathered) (v : Visit) (ch : String) :
    (g.visit v).collected ch =
      if ch ∈ g.remaining ∧ v.skip ch = false then
        g.collected ch ++ v.newestFirst.filter (fun w => w.channel = ch)
      else g.collected ch :=
  collect_apply g.remaining v.skip v.newestFirst g.collected ch

theorem seed_visit (g : Gathered) (v : Visit) (ch : String) :
    (g.visit v).seed ch = if ch ∈ g.remaining then (v.stored ch).or (g.seed ch) else g.seed ch :=
  rfl

theorem mem_remaining_visit {g : Gathered} {v : Visit} {ch : String} :
    ch ∈ (g.visit v).remaining ↔ ch ∈ g.remaining ∧ v.stored ch = none :=
  Finset.mem_filter

def along (ch : String) : List Visit → DeltaChannelHistory
  | [] => ⟨[], none⟩
  | v :: vs =>
      let own := if v.skip ch = false then (v.newestFirst.filter (fun w => w.channel = ch)).reverse
        else []
      match v.stored ch with
      | some b => ⟨own, some b⟩
      | none => ⟨(along ch vs).writes ++ own, (along ch vs).seed⟩

theorem sweep_left {ch : String} (vs : List Visit) {g : Gathered} (h : ch ∉ g.remaining) :
    (sweep vs g).history ch = g.history ch := by
  induction vs generalizing g with
  | nil => rfl
  | cons v vs ih =>
    rw [sweep]
    split_ifs with he
    · rfl
    · have hout : ch ∉ (g.visit v).remaining := fun hm => h (mem_remaining_visit.mp hm).1
      rw [ih hout, history, history, collected_visit, seed_visit, if_neg (fun hc => h hc.1),
        if_neg h]

theorem sweep_history {ch : String} (vs : List Visit) {g : Gathered} (h : ch ∈ g.remaining)
    (hseed : g.seed ch = none) :
    (sweep vs g).history ch =
      ⟨(along ch vs).writes ++ (g.collected ch).reverse, (along ch vs).seed⟩ := by
  induction vs generalizing g with
  | nil => simp [sweep, history, along, hseed]
  | cons v vs ih =>
    have hne : g.remaining ≠ ∅ := Finset.ne_empty_of_mem h
    have hcollected : ((g.visit v).collected ch).reverse =
        (if v.skip ch = false then (v.newestFirst.filter (fun w => w.channel = ch)).reverse
          else []) ++ (g.collected ch).reverse := by
      rw [collected_visit]
      by_cases hs : v.skip ch = false
      · rw [if_pos ⟨h, hs⟩, if_pos hs, List.reverse_append]
      · rw [if_neg (fun hc => hs hc.2), if_neg hs, List.nil_append]
    rw [sweep, if_neg hne, along]
    cases hb : v.stored ch with
    | some b =>
      have hout : ch ∉ (g.visit v).remaining := by simp [mem_remaining_visit, hb]
      rw [sweep_left vs hout, history, hcollected, seed_visit, if_pos h, hb, Option.some_or]
    | none =>
      have hin : ch ∈ (g.visit v).remaining := mem_remaining_visit.mpr ⟨h, hb⟩
      have hseed' : (g.visit v).seed ch = none := by rw [seed_visit, if_pos h, hb, hseed, Option.or_none]
      rw [ih hin hseed', hcollected, List.append_assoc]

theorem histories_sweep (vs : List Visit) (channels : List String) :
    (sweep vs (start channels)).histories channels =
      channels.map (fun ch => (ch, along ch vs)) := by
  apply List.map_congr_left
  intro ch hch
  have hin : ch ∈ (start channels).remaining := List.mem_toFinset.mpr hch
  rw [sweep_history vs hin rfl]
  simp [start]

end Gathered

namespace InMemorySaver

variable {Ver : Type} [DecidableEq Ver]

def overrideVisit (s : InMemorySaver Ver) (id : String) : Visit where
  stored ch := s.blobAt ch id
  skip ch := (s.blobAt ch id).any Blob.subsumesWrites
  newestFirst := ((s.rows id).sorted.map pendingRow).reverse

def getDeltaChannelHistories (s : InMemorySaver Ver) (checkpointId : Option String)
    (channels : List String) : List (String × DeltaChannelHistory) :=
  (Gathered.sweep ((s.chain (checkpointId.getD "")).map s.overrideVisit)
    (Gathered.start channels)).histories channels

end InMemorySaver

def named (checkpointId : Option String) : Option String := checkpointId.filter (fun id => id ≠ "")

namespace BaseCheckpointSaver

variable {Ver : Type}

def visit (tup : CheckpointTuple Ver) : Visit where
  stored ch := tup.checkpoint.channelValues.get? ch
  skip _ := false
  newestFirst := tup.pendingWrites.reverse

def walk (getTuple : Option String → Option (CheckpointTuple Ver)) :
    Nat → Option String → Gathered → Option Gathered
  | 0, _, _ => none
  | _ + 1, none, g => some g
  | fuel + 1, some cursor, g =>
      if g.remaining = ∅ then some g
      else
        match getTuple (some cursor) with
        | none => some g
        | some tup => walk getTuple fuel (named tup.parent) (g.visit (visit tup))

def getDeltaChannelHistory (getTuple : Option String → Option (CheckpointTuple Ver))
    (fuel : Nat) (checkpointId : Option String) (channels : List String) :
    Option (List (String × DeltaChannelHistory)) :=
  let cursor := (getTuple (named checkpointId)).bind (fun tup => named tup.parent)
  (walk getTuple fuel cursor (Gathered.start channels)).map (fun g => g.histories channels)

end BaseCheckpointSaver

namespace InMemorySaver

variable {Ver : Type}

def Ancestors (s : InMemorySaver Ver) : Option String → List String → Prop
  | none, l => l = []
  | some id, [] => s.storage.get? id = none
  | some id, older :: l =>
      older = id ∧ ∃ saved, s.storage.get? id = some saved ∧ s.Ancestors saved.parent l

variable {s : InMemorySaver Ver}

theorem ancestors_unique {cursor : Option String} {l l' : List String}
    (h : s.Ancestors cursor l) (h' : s.Ancestors cursor l') : l = l' := by
  induction l generalizing cursor l' with
  | nil =>
    cases cursor with
    | none =>
      cases l' with
      | nil => rfl
      | cons older l' => exact absurd h' (by simp [Ancestors])
    | some id =>
      cases l' with
      | nil => rfl
      | cons older l' =>
        obtain ⟨-, saved, hsaved, -⟩ := h'
        exact absurd (h.symm.trans hsaved) (by simp)
  | cons older l ih =>
    cases cursor with
    | none => exact absurd h (by simp [Ancestors])
    | some id =>
      obtain ⟨rfl, saved, hsaved, hl⟩ := h
      cases l' with
      | nil => exact absurd (hsaved.symm.trans h') (by simp)
      | cons older' l' =>
        obtain ⟨rfl, saved', hsaved', hl'⟩ := h'
        have he : saved = saved' := Option.some.inj (hsaved.symm.trans hsaved')
        rw [ih hl (he ▸ hl')]

theorem ancestors_of_mem {cursor : Option String} {l : List String} (h : s.Ancestors cursor l)
    {id : String} (hid : id ∈ l) : ∃ tail, s.Ancestors (some id) (id :: tail) ∧ tail.length < l.length := by
  induction l generalizing cursor with
  | nil => cases hid
  | cons older l ih =>
    cases cursor with
    | none => exact absurd h (by simp [Ancestors])
    | some id' =>
      rcases List.mem_cons.mp hid with rfl | hid
      · have he : id = id' := h.1
        exact ⟨l, he ▸ h, Nat.lt_succ_self _⟩
      · obtain ⟨-, saved, -, hl⟩ := h
        obtain ⟨tail, htail, hlt⟩ := ih hl hid
        exact ⟨tail, htail, Nat.lt_succ_of_lt hlt⟩

theorem ancestors_nodup {cursor : Option String} {l : List String} (h : s.Ancestors cursor l) :
    l.Nodup := by
  induction l generalizing cursor with
  | nil => exact List.nodup_nil
  | cons older l ih =>
    cases cursor with
    | none => exact absurd h (by simp [Ancestors])
    | some id =>
      have hall := h
      obtain ⟨rfl, saved, -, hl⟩ := h
      refine List.nodup_cons.mpr ⟨?_, ih hl⟩
      intro hmem
      obtain ⟨tail, htail, hlt⟩ := ancestors_of_mem hl hmem
      have he : older :: l = older :: tail := ancestors_unique hall htail
      rw [(List.cons.inj he).2] at hlt
      exact Nat.lt_irrefl _ hlt

theorem ancestors_stored {cursor : Option String} {l : List String} (h : s.Ancestors cursor l) :
    l ⊆ s.storage.keys := by
  intro id hid
  obtain ⟨tail, htail, -⟩ := ancestors_of_mem h hid
  obtain ⟨-, saved, hsaved, -⟩ := htail
  exact Dict.mem_keys.mpr ⟨saved, hsaved⟩

theorem ancestors_length {cursor : Option String} {l : List String} (h : s.Ancestors cursor l) :
    l.length ≤ s.storage.items.length := by
  have hle := ((ancestors_nodup h).subperm (ancestors_stored h)).length_le
  rwa [Dict.keys, List.length_map] at hle

theorem parents_eq {fuel : Nat} {cursor : Option String} {l : List String}
    (h : s.Ancestors cursor l) (hfuel : l.length ≤ fuel) : s.parents fuel cursor = l := by
  induction l generalizing cursor fuel with
  | nil =>
    cases cursor with
    | none => cases fuel <;> rfl
    | some id =>
      have hnone : s.storage.get? id = none := h
      cases fuel <;> simp [parents, hnone]
  | cons older l ih =>
    cases cursor with
    | none => exact absurd h (by simp [Ancestors])
    | some id =>
      obtain ⟨rfl, saved, hsaved, hl⟩ := h
      cases fuel with
      | zero => simp at hfuel
      | succ fuel =>
        rw [parents, hsaved]
        simp only [ih hl (Nat.le_of_succ_le_succ hfuel)]

theorem chain_eq {id : String} {l : List String}
    (h : s.Ancestors ((s.storage.get? id).bind SavedCheckpoint.parent) l) : s.chain id = l :=
  parents_eq h (ancestors_length h)

section Blobs

variable [DecidableEq Ver]

def baseVisit (s : InMemorySaver Ver) (id : String) : Visit where
  stored ch := s.blobAt ch id
  skip _ := false
  newestFirst := (s.rows id).pending.reverse

theorem visit_tuple {id : String} {saved : SavedCheckpoint Ver}
    (h : s.storage.get? id = some saved) :
    BaseCheckpointSaver.visit (s.tuple id saved) = s.baseVisit id := by
  have hstored : (fun ch => (s.tuple id saved).checkpoint.channelValues.get? ch) =
      fun ch => s.blobAt ch id := by
    funext ch
    rw [blobAt, h]
    exact Dict.get?_filterMap _ _ ch
  rw [BaseCheckpointSaver.visit, hstored]
  rfl

theorem getTuple_some (s : InMemorySaver Ver) (id : String) :
    s.getTuple (some id) = (s.storage.get? id).map (s.tuple id) := by
  rw [getTuple, Option.some_or]
  cases h : s.storage.get? id <;> simp [h]

theorem named_some {id : String} (h : id ≠ "") : named (some id) = some id := by
  simp [named, h]

theorem walk_eq_sweep (hempty : "" ∉ s.storage.keys) {fuel : Nat} {cursor : Option String}
    {l : List String} (h : s.Ancestors cursor l) (hfuel : l.length < fuel) (g : Gathered) :
    BaseCheckpointSaver.walk s.getTuple fuel (named cursor) g =
      some (Gathered.sweep (l.map s.baseVisit) g) := by
  induction l generalizing cursor fuel g with
  | nil =>
    obtain ⟨fuel, rfl⟩ := Nat.exists_eq_succ_of_ne_zero (Nat.ne_of_gt hfuel)
    cases cursor with
    | none => rfl
    | some id =>
      have hnone : s.storage.get? id = none := h
      by_cases hid : id = ""
      · subst hid
        rfl
      · rw [named_some hid, BaseCheckpointSaver.walk, getTuple_some, hnone]
        simp [Gathered.sweep]
  | cons older l ih =>
    obtain ⟨fuel, rfl⟩ := Nat.exists_eq_succ_of_ne_zero (Nat.ne_of_gt (Nat.zero_lt_of_lt hfuel))
    cases cursor with
    | none => exact absurd h (by simp [Ancestors])
    | some id =>
      obtain ⟨rfl, saved, hsaved, hl⟩ := h
      have hid : older ≠ "" := by
        rintro rfl
        exact hempty (Dict.mem_keys.mpr ⟨saved, hsaved⟩)
      rw [named_some hid, BaseCheckpointSaver.walk, getTuple_some, hsaved, List.map_cons,
        Gathered.sweep]
      split_ifs with hr
      · rfl
      · have hlt : l.length < fuel := Nat.lt_of_succ_lt_succ hfuel
        have hrec := ih hl hlt (g.visit (s.baseVisit older))
        simp only [Option.map_some]
        rw [visit_tuple hsaved]
        exact hrec

end Blobs

end InMemorySaver

namespace WriteRows

def onChannel (rows : WriteRows) (ch : String) : List (WriteKey × SavedWrite) :=
  rows.items.filter (fun r => r.2.channel = ch)

def ofTaskOn (rows : WriteRows) (ch taskId : String) : List (WriteKey × SavedWrite) :=
  (rows.onChannel ch).filter (fun r => r.1.1 = taskId)

-- The tasks wrote to the channel in the order of their ids, and each in the order of its indices.
def StoredInOrder (rows : WriteRows) (ch : String) : Prop :=
  (rows.onChannel ch).Pairwise (fun a b => a.1.1 ≤ b.1.1) ∧
    ∀ r ∈ rows.onChannel ch,
      (rows.ofTaskOn ch r.1.1).map (fun e => e.2.value) =
        ((rows.ofTaskOn ch r.1.1).insertionSort (fun a b => a.1.2 ≤ b.1.2)).map
          (fun e => e.2.value)

instance (rows : WriteRows) (ch : String) : Decidable (rows.StoredInOrder ch) :=
  inferInstanceAs (Decidable (_ ∧ _))

theorem keyLe_trans {a b c : WriteKey} (h : keyLe a b) (h' : keyLe b c) : keyLe a c := by
  rcases h with h | ⟨h, hi⟩
  · rcases h' with h' | ⟨h', -⟩
    · exact Or.inl (lt_trans h h')
    · exact Or.inl (h' ▸ h)
  · rcases h' with h' | ⟨h', hi'⟩
    · exact Or.inl (h ▸ h')
    · exact Or.inr ⟨h.trans h', le_trans hi hi'⟩

theorem keyLe_total (a b : WriteKey) : keyLe a b ∨ keyLe b a := by
  rcases lt_trichotomy a.1 b.1 with h | h | h
  · exact Or.inl (Or.inl h)
  · rcases le_total a.2 b.2 with hi | hi
    · exact Or.inl (Or.inr ⟨h, hi⟩)
    · exact Or.inr (Or.inr ⟨h.symm, hi⟩)
  · exact Or.inr (Or.inl h)

theorem keyLe_antisymm {a b : WriteKey} (h : keyLe a b) (h' : keyLe b a) : a = b := by
  rcases h with h | ⟨h, hi⟩
  · rcases h' with h' | ⟨h', -⟩
    · exact absurd h' (lt_asymm h)
    · exact absurd h (h' ▸ lt_irrefl _)
  · rcases h' with h' | ⟨-, hi'⟩
    · exact absurd h' (h ▸ lt_irrefl _)
    · exact Prod.ext h (le_antisymm hi hi')

theorem task_le {a b : WriteKey} (h : keyLe a b) : a.1 ≤ b.1 := by
  rcases h with h | ⟨h, -⟩
  · exact le_of_lt h
  · exact le_of_eq h

theorem sorted_perm (rows : WriteRows) : rows.sorted.Perm rows.items :=
  List.perm_insertionSort _ _

theorem sorted_pairwise (rows : WriteRows) :
    rows.sorted.Pairwise (fun a b => keyLe a.1 b.1) := by
  have : IsTrans (WriteKey × SavedWrite) (fun a b => keyLe a.1 b.1) := ⟨fun _ _ _ => keyLe_trans⟩
  have : Std.Total (fun a b : WriteKey × SavedWrite => keyLe a.1 b.1) :=
    ⟨fun a b => keyLe_total a.1 b.1⟩
  exact List.pairwise_insertionSort _ _

def sortedOn (rows : WriteRows) (ch : String) : List (WriteKey × SavedWrite) :=
  rows.sorted.filter (fun r => r.2.channel = ch)

theorem sortedOn_perm (rows : WriteRows) (ch : String) :
    (rows.sortedOn ch).Perm (rows.onChannel ch) :=
  rows.sorted_perm.filter _

theorem eq_of_key (rows : WriteRows) {a b : WriteKey × SavedWrite} (ha : a ∈ rows.items)
    (hb : b ∈ rows.items) (h : a.1 = b.1) : a = b :=
  List.inj_on_of_nodup_map rows.nodup ha hb h

-- A task's rows sorted by key are its rows sorted by index.
theorem sortedOn_task (rows : WriteRows) (ch taskId : String) :
    (rows.sortedOn ch).filter (fun r => r.1.1 = taskId) =
      (rows.ofTaskOn ch taskId).insertionSort (fun a b => a.1.2 ≤ b.1.2) := by
  have htask {a : WriteKey × SavedWrite}
      (ha : a ∈ (rows.sortedOn ch).filter (fun r => r.1.1 = taskId)) :
      a ∈ rows.items ∧ a.1.1 = taskId := by
    obtain ⟨hmem, ht⟩ := List.mem_filter.mp ha
    exact ⟨rows.sorted_perm.mem_iff.mp (List.mem_filter.mp hmem).1, of_decide_eq_true ht⟩
  have hperm : ((rows.sortedOn ch).filter (fun r => r.1.1 = taskId)).Perm
      ((rows.ofTaskOn ch taskId).insertionSort (fun a b => a.1.2 ≤ b.1.2)) :=
    ((rows.sortedOn_perm ch).filter _).trans (List.perm_insertionSort _ _).symm
  have hsorted : ((rows.sortedOn ch).filter (fun r => r.1.1 = taskId)).Pairwise
      (fun a b => a.1.2 ≤ b.1.2) := by
    have hkeys : ((rows.sortedOn ch).filter (fun r => r.1.1 = taskId)).Pairwise
        (fun a b => keyLe a.1 b.1) := (rows.sorted_pairwise.filter _).filter _
    refine hkeys.imp_of_mem ?_
    intro a b ha hb hab
    rcases hab with hlt | ⟨-, hle⟩
    · rw [(htask ha).2, (htask hb).2] at hlt
      exact absurd hlt (lt_irrefl _)
    · exact hle
  have : IsTrans (WriteKey × SavedWrite) (fun a b => a.1.2 ≤ b.1.2) := ⟨fun _ _ _ => le_trans⟩
  have : Std.Total (fun a b : WriteKey × SavedWrite => a.1.2 ≤ b.1.2) :=
    ⟨fun a b => le_total a.1.2 b.1.2⟩
  refine List.Perm.eq_of_pairwise ?_ hsorted (List.pairwise_insertionSort _ _) hperm
  intro a b ha hb hab hba
  obtain ⟨ha', hat⟩ := htask ha
  obtain ⟨hb', hbt⟩ := htask (hperm.mem_iff.mpr hb)
  exact rows.eq_of_key ha' hb' (Prod.ext (hat.trans hbt.symm) (le_antisymm hab hba))

theorem replayed_eq (rows : WriteRows) (ch : String) :
    rows.replayed ch = (rows.sortedOn ch).map pendingRow := rfl

theorem map_pendingRow {l : List (WriteKey × SavedWrite)} {ch taskId : String}
    (h : ∀ e ∈ l, e.1.1 = taskId ∧ e.2.channel = ch) :
    l.map pendingRow = (l.map (fun e => e.2.value)).map (fun v => ⟨taskId, ch, v⟩) := by
  rw [List.map_map]
  apply List.map_congr_left
  intro e he
  obtain ⟨ht, hc⟩ := h e he
  rw [pendingRow, ht, hc]
  rfl

theorem task_pending_eq_iff (rows : WriteRows) (ch taskId : String) :
    (rows.ofTaskOn ch taskId).map pendingRow =
        ((rows.ofTaskOn ch taskId).insertionSort (fun a b => a.1.2 ≤ b.1.2)).map pendingRow ↔
      (rows.ofTaskOn ch taskId).map (fun e => e.2.value) =
        ((rows.ofTaskOn ch taskId).insertionSort (fun a b => a.1.2 ≤ b.1.2)).map
          (fun e => e.2.value) := by
  have hown : ∀ e ∈ rows.ofTaskOn ch taskId, e.1.1 = taskId ∧ e.2.channel = ch := by
    intro e he
    obtain ⟨hmem, ht⟩ := List.mem_filter.mp he
    exact ⟨of_decide_eq_true ht, of_decide_eq_true (List.mem_filter.mp hmem).2⟩
  have hsorted : ∀ e ∈ (rows.ofTaskOn ch taskId).insertionSort (fun a b => a.1.2 ≤ b.1.2),
      e.1.1 = taskId ∧ e.2.channel = ch := by
    intro e he
    exact hown e ((List.perm_insertionSort _ _).mem_iff.mp he)
  rw [map_pendingRow hown, map_pendingRow hsorted]
  have hinj : Function.Injective (fun v : Value => (⟨taskId, ch, v⟩ : PendingWrite)) :=
    fun _ _ h => (PendingWrite.mk.inj h).2.2
  exact (List.map_injective_iff.mpr hinj).eq_iff

theorem pending_eq_replayed_iff (rows : WriteRows) (ch : String) :
    (rows.onChannel ch).map pendingRow = rows.replayed ch ↔ rows.StoredInOrder ch := by
  have hsorted : ((rows.sortedOn ch).map pendingRow).Pairwise (fun a b => a.taskId ≤ b.taskId) := by
    apply List.pairwise_map.mpr
    exact (rows.sorted_pairwise.filter _).imp task_le
  have hfilter (l : List (WriteKey × SavedWrite)) (t : String) :
      (l.map pendingRow).filter (fun w => w.taskId = t) =
        (l.filter (fun e => e.1.1 = t)).map pendingRow := by
    rw [List.filter_map]
    rfl
  have htask (t : String) :
      ((rows.onChannel ch).map pendingRow).filter (fun w => w.taskId = t) =
          ((rows.sortedOn ch).map pendingRow).filter (fun w => w.taskId = t) ↔
        (rows.ofTaskOn ch t).map (fun e => e.2.value) =
          ((rows.ofTaskOn ch t).insertionSort (fun a b => a.1.2 ≤ b.1.2)).map
            (fun e => e.2.value) := by
    rw [hfilter, hfilter, sortedOn_task]
    exact rows.task_pending_eq_iff ch t
  rw [replayed_eq, eq_groups_iff hsorted, List.pairwise_map]
  constructor
  · rintro ⟨hle, hall⟩
    exact ⟨hle, fun r _ => (htask r.1.1).mp (hall r.1.1)⟩
  · rintro ⟨hle, hall⟩
    refine ⟨hle, fun t => (htask t).mpr ?_⟩
    by_cases ht : rows.ofTaskOn ch t = []
    · rw [ht]
      rfl
    · obtain ⟨r, hr⟩ := List.exists_mem_of_ne_nil _ ht
      obtain ⟨hmem, hrt⟩ := List.mem_filter.mp hr
      exact of_decide_eq_true hrt ▸ hall r hmem

theorem length_replayed (rows : WriteRows) (ch : String) :
    (rows.replayed ch).length = ((rows.onChannel ch).map pendingRow).length := by
  rw [replayed_eq, List.length_map, List.length_map]
  exact (rows.sortedOn_perm ch).length_eq

end WriteRows

namespace InMemorySaver

variable {Ver : Type} [DecidableEq Ver]

def InOrder (s : InMemorySaver Ver) (ch : String) : List String → Prop
  | [] => True
  | id :: older =>
      match s.blobAt ch id with
      | some b =>
          if b.subsumesWrites then (s.rows id).onChannel ch = []
          else (s.rows id).StoredInOrder ch
      | none => (s.rows id).StoredInOrder ch ∧ s.InOrder ch older

def Silent (s : InMemorySaver Ver) (ch : String) (l : List String) : Prop :=
  ∀ id ∈ l, s.blobAt ch id = none ∧ (s.rows id).onChannel ch = []

theorem along_overrideVisit (s : InMemorySaver Ver) (ch : String) (l : List String) :
    Gathered.along ch (l.map s.overrideVisit) = s.walk ch l := by
  have hrows (rows : WriteRows) :
      ((rows.sorted.map pendingRow).reverse.filter (fun w => w.channel = ch)).reverse =
        rows.replayed ch := by
    rw [List.filter_reverse, List.reverse_reverse, List.filter_map]
    rfl
  induction l with
  | nil => rfl
  | cons id l ih =>
    rw [List.map_cons, Gathered.along, walk, ih]
    simp only [overrideVisit, hrows]
    cases hb : s.blobAt ch id with
    | none => simp
    | some b => cases hs : b.subsumesWrites <;> simp [hs]

theorem along_baseVisit_cons (s : InMemorySaver Ver) (ch id : String) (l : List String) :
    Gathered.along ch ((id :: l).map s.baseVisit) =
      match s.blobAt ch id with
      | some b => ⟨((s.rows id).onChannel ch).map pendingRow, some b⟩
      | none =>
          ⟨(Gathered.along ch (l.map s.baseVisit)).writes ++
              ((s.rows id).onChannel ch).map pendingRow,
            (Gathered.along ch (l.map s.baseVisit)).seed⟩ := by
  have hrows : ((s.rows id).pending.reverse.filter (fun w => w.channel = ch)).reverse =
      ((s.rows id).onChannel ch).map pendingRow := by
    rw [List.filter_reverse, List.reverse_reverse, WriteRows.pending, List.filter_map]
    rfl
  rw [List.map_cons, Gathered.along]
  simp only [baseVisit, if_true, hrows]

theorem seed_walk (s : InMemorySaver Ver) (ch : String) (l : List String) :
    (Gathered.along ch (l.map s.baseVisit)).seed = (s.walk ch l).seed := by
  induction l with
  | nil => rfl
  | cons id l ih =>
    rw [along_baseVisit_cons, walk]
    cases s.blobAt ch id with
    | some b => rfl
    | none => exact ih

theorem history_ext_iff {h h' : DeltaChannelHistory} :
    h = h' ↔ h.writes = h'.writes ∧ h.seed = h'.seed := by
  cases h
  cases h'
  exact DeltaChannelHistory.mk.injEq _ _ _ _ ▸ Iff.rfl

theorem writes_agree_iff (s : InMemorySaver Ver) (ch : String) (l : List String) :
    (Gathered.along ch (l.map s.baseVisit)).writes = (s.walk ch l).writes ↔ s.InOrder ch l := by
  induction l with
  | nil => exact ⟨fun _ => trivial, fun _ => rfl⟩
  | cons id l ih =>
    rw [along_baseVisit_cons, walk, InOrder]
    cases hb : s.blobAt ch id with
    | some b =>
      cases hs : b.subsumesWrites with
      | true => simp [hs]
      | false => simpa [hs] using (s.rows id).pending_eq_replayed_iff ch
    | none =>
      simp only
      rw [← ih, ← (s.rows id).pending_eq_replayed_iff ch, and_comm]
      constructor
      · intro h
        exact (List.append_inj' h ((s.rows id).length_replayed ch).symm)
      · rintro ⟨hw, hr⟩
        rw [hw, hr]

theorem history_agrees_iff (s : InMemorySaver Ver) (ch : String) (l : List String) :
    Gathered.along ch (l.map s.baseVisit) = s.walk ch l ↔ s.InOrder ch l := by
  rw [history_ext_iff, writes_agree_iff, and_iff_left (s.seed_walk ch l)]

theorem silent_iff (s : InMemorySaver Ver) (ch : String) (l : List String) :
    Gathered.along ch (l.map s.baseVisit) = ⟨[], none⟩ ↔ s.Silent ch l := by
  induction l with
  | nil => simp [Gathered.along, Silent]
  | cons id l ih =>
    have hcons : s.Silent ch (id :: l) ↔
        (s.blobAt ch id = none ∧ (s.rows id).onChannel ch = []) ∧ s.Silent ch l :=
      List.forall_mem_cons
    rw [hcons, ← ih, along_baseVisit_cons]
    cases hb : s.blobAt ch id with
    | some b => simp
    | none =>
      simp only [List.append_eq_nil_iff, List.map_eq_nil_iff,
        history_ext_iff]
      tauto

def parentOf (s : InMemorySaver Ver) (checkpointId : Option String) : Option String :=
  ((named checkpointId).or s.latest).bind (fun id => (s.storage.get? id).bind SavedCheckpoint.parent)

def HistoryInOrder (s : InMemorySaver Ver) (checkpointId : Option String) (l : List String)
    (ch : String) : Prop :=
  if (named checkpointId).isSome then s.InOrder ch l else s.Silent ch l

theorem getTuple_parent (s : InMemorySaver Ver) (checkpointId : Option String) :
    (s.getTuple (named checkpointId)).bind (fun tup => named tup.parent) =
      named (s.parentOf checkpointId) := by
  rw [getTuple, parentOf]
  cases (named checkpointId).or s.latest with
  | none => rfl
  | some id =>
    simp only [Option.bind_eq_bind, Option.bind_some]
    cases s.storage.get? id <;> rfl

theorem base_histories {s : InMemorySaver Ver} (hempty : "" ∉ s.storage.keys)
    {checkpointId : Option String} {l : List String} (h : s.Ancestors (s.parentOf checkpointId) l)
    {fuel : Nat} (hfuel : s.storage.items.length < fuel) (channels : List String) :
    BaseCheckpointSaver.getDeltaChannelHistory s.getTuple fuel checkpointId channels =
      some (channels.map (fun ch => (ch, Gathered.along ch (l.map s.baseVisit)))) := by
  have hlt : l.length < fuel := Nat.lt_of_le_of_lt (ancestors_length h) hfuel
  rw [BaseCheckpointSaver.getDeltaChannelHistory, getTuple_parent, walk_eq_sweep hempty h hlt,
    Option.map_some, Gathered.histories_sweep]

theorem override_histories (s : InMemorySaver Ver) (checkpointId : Option String)
    (channels : List String) :
    s.getDeltaChannelHistories checkpointId channels =
      channels.map (fun ch => (ch, s.getDeltaChannelHistory (checkpointId.getD "") ch)) := by
  rw [getDeltaChannelHistories, Gathered.histories_sweep]
  simp only [along_overrideVisit, getDeltaChannelHistory]

theorem named_isSome {checkpointId : Option String} (h : (named checkpointId).isSome) :
    ∃ id, checkpointId = some id ∧ named checkpointId = some id ∧ id ≠ "" := by
  obtain ⟨id, hid⟩ := Option.isSome_iff_exists.mp h
  obtain ⟨he, hne⟩ := Option.filter_eq_some_iff.mp hid
  exact ⟨id, he, hid, of_decide_eq_true hne⟩

theorem named_eq_none {checkpointId : Option String} (h : ¬ (named checkpointId).isSome) :
    checkpointId.getD "" = "" := by
  cases checkpointId with
  | none => rfl
  | some id =>
    by_contra hid
    have hne : id ≠ "" := hid
    apply h
    rw [named_some hne, Option.isSome_some]

omit [DecidableEq Ver] in
theorem chain_unnamed {s : InMemorySaver Ver} (hempty : "" ∉ s.storage.keys) : s.chain "" = [] := by
  have hnone : s.storage.get? "" = none := Dict.get?_eq_none.mpr hempty
  rw [chain, hnone]
  cases s.storage.items.length <;> rfl

theorem delta_history_agrees_iff {s : InMemorySaver Ver} (hempty : "" ∉ s.storage.keys)
    {checkpointId : Option String} {l : List String} (h : s.Ancestors (s.parentOf checkpointId) l)
    {fuel : Nat} (hfuel : s.storage.items.length < fuel) (channels : List String) :
    BaseCheckpointSaver.getDeltaChannelHistory s.getTuple fuel checkpointId channels =
        some (s.getDeltaChannelHistories checkpointId channels) ↔
      ∀ ch ∈ channels, s.HistoryInOrder checkpointId l ch := by
  have hchannel (ch : String) :
      (ch, Gathered.along ch (l.map s.baseVisit)) =
          (ch, s.getDeltaChannelHistory (checkpointId.getD "") ch) ↔
        s.HistoryInOrder checkpointId l ch := by
    rw [Prod.mk.injEq, and_iff_right rfl, getDeltaChannelHistory, HistoryInOrder]
    by_cases hn : (named checkpointId).isSome
    · obtain ⟨id, rfl, hid, -⟩ := named_isSome hn
      have hparent : s.parentOf (some id) = (s.storage.get? id).bind SavedCheckpoint.parent := by
        rw [parentOf, hid]
        rfl
      rw [if_pos hn, Option.getD_some, chain_eq (hparent ▸ h)]
      exact s.history_agrees_iff ch l
    · rw [if_neg hn, named_eq_none hn, chain_unnamed hempty]
      exact s.silent_iff ch l
  rw [base_histories hempty h hfuel, override_histories, Option.some_inj, List.map_inj_left]
  exact forall₂_congr (fun ch _ => hchannel ch)

def inputMetadata : CheckpointMetadata := ⟨"input", -1, ∅⟩

def forked (first second : String) : InMemorySaver Nat :=
  (((empty.put none (emptyCheckpoint "1") inputMetadata ∅).putWrites "1" [("m", .int 1)] first
    "").putWrites "1" [("m", .int 2)] second "").put (some "1") (emptyCheckpoint "2") inputMetadata ∅

theorem forked_ancestors (first second : String) :
    (forked first second).Ancestors ((forked first second).parentOf (some "2")) ["1"] :=
  ⟨rfl, _, rfl, rfl⟩

theorem delta_history_agrees_in_order :
    BaseCheckpointSaver.getDeltaChannelHistory (forked "a" "b").getTuple 3 (some "2") ["m"] =
        some ((forked "a" "b").getDeltaChannelHistories (some "2") ["m"]) ↔
      ∀ ch ∈ ["m"], (forked "a" "b").HistoryInOrder (some "2") ["1"] ch :=
  delta_history_agrees_iff (by decide) (forked_ancestors "a" "b") (by decide) ["m"]

theorem delta_history_differs :
    ¬ ∀ (s : InMemorySaver Nat) (checkpointId : Option String) (l channels : List String),
        "" ∉ s.storage.keys → s.Ancestors (s.parentOf checkpointId) l →
          BaseCheckpointSaver.getDeltaChannelHistory s.getTuple (s.storage.items.length + 1)
              checkpointId channels =
            some (s.getDeltaChannelHistories checkpointId channels) := by
  intro h
  have hsame := h (forked "b" "a") (some "2") ["1"] ["m"] (by decide) (forked_ancestors "b" "a")
  exact absurd hsame (by decide)

end InMemorySaver

end LangGraph

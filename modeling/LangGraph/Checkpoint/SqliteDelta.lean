import LangGraph.Checkpoint.DeltaHistory
import LangGraph.Checkpoint.Sqlite
import LangGraph.Collections.NewestFirst

namespace LangGraph

open Collections

-- The two tables of one thread and namespace; the channel values stand in the checkpoint.
structure SqliteSaver (Ver : Type) where
  checkpoints : Dict String (SavedCheckpoint Ver)
  writes : SqliteWrites

namespace SqliteSaver

variable {Ver : Type}

def pendingRow (r : WriteKey × Write) : PendingWrite := ⟨r.1.1, r.2.1, r.2.2⟩

def sortedRows (rows : List (WriteKey × Write)) : List (WriteKey × Write) :=
  rows.insertionSort (fun a b => keyLe a.1 b.1)

def pending (s : SqliteSaver Ver) (checkpointId : String) : List PendingWrite :=
  (sortedRows (s.writes.writeRows checkpointId)).map pendingRow

def latest (s : SqliteSaver Ver) : Option String := s.checkpoints.keys.max?

def getTuple (s : SqliteSaver Ver) (checkpointId : Option String) :
    Option (CheckpointTuple Ver) := do
  let id ← checkpointId.or s.latest
  let saved ← s.checkpoints.get? id
  return ⟨saved.checkpoint, saved.metadata, saved.parent, s.pending id⟩

structure Walk where
  current : Option String
  active : List String
  chain : String → List String
  seed : String → Option Blob

-- `step_walk_with_row` of a started walk; it says whether every channel is seeded.
def Walk.step (row : String × SavedCheckpoint Ver) (w : Walk) : Walk × Bool :=
  if w.active = [] then (w, true)
  else if some row.1 ≠ w.current then (w, false)
  else
    let values := row.2.checkpoint.channelValues
    let active := w.active.filter (fun ch => !values.contains ch)
    ({ current := row.2.parent
       active := active
       chain := fun ch => if ch ∈ w.active then w.chain ch ++ [row.1] else w.chain ch
       seed := fun ch => if ch ∈ w.active then values.get? ch else w.seed ch },
      active.isEmpty)

def Walk.rows : List (String × SavedCheckpoint Ver) → Walk → Walk
  | [], w => w
  | row :: rest, w =>
      let stepped := w.step row
      if stepped.2 then stepped.1 else Walk.rows rest stepped.1

-- The rows before the target's own are streamed past.
def walkRows (target : String) (channels : List String) :
    List (String × SavedCheckpoint Ver) → Walk
  | [] => ⟨none, channels, fun _ => [], fun _ => none⟩
  | row :: rest =>
      if row.1 = target then
        Walk.rows rest ⟨row.2.parent, channels, fun _ => [], fun _ => none⟩
      else walkRows target channels rest

def stage1 (s : SqliteSaver Ver) (target : String) : List (String × SavedCheckpoint Ver) :=
  descending Prod.fst (s.checkpoints.items.filter (fun e => e.1 ≤ target))

def stage2 (s : SqliteSaver Ver) (ch checkpointId : String) : List PendingWrite :=
  (sortedRows ((s.writes.writeRows checkpointId).filter (fun r => r.2.1 = ch))).map pendingRow

def buildHistory (s : SqliteSaver Ver) (w : Walk) (ch : String) : DeltaChannelHistory :=
  ⟨(w.chain ch).reverse.flatMap (s.stage2 ch), w.seed ch⟩

def getDeltaChannelHistories (s : SqliteSaver Ver) (checkpointId : Option String)
    (channels : List String) : List (String × DeltaChannelHistory) :=
  match checkpointId.or s.latest with
  | none => channels.map (fun ch => (ch, ⟨[], none⟩))
  | some target =>
      channels.map (fun ch =>
        (ch, s.buildHistory (walkRows target channels (s.stage1 target)) ch))

def targetParent (s : SqliteSaver Ver) (checkpointId : Option String) : Option String :=
  (s.getTuple (named checkpointId)).bind CheckpointTuple.parent

def Ancestors (s : SqliteSaver Ver) :
    Option String → List (String × SavedCheckpoint Ver) → Prop
  | none, l => l = []
  | some id, [] => s.checkpoints.get? id = none
  | some id, row :: older =>
      row.1 = id ∧ s.checkpoints.get? id = some row.2 ∧ s.Ancestors row.2.parent older

def stored (ch : String) (row : String × SavedCheckpoint Ver) : Option Blob :=
  row.2.checkpoint.channelValues.get? ch

def Silent (s : SqliteSaver Ver) (ch : String) (l : List (String × SavedCheckpoint Ver)) : Prop :=
  ∀ row ∈ l, stored ch row = none ∧ s.stage2 ch row.1 = []

-- The ids fall along the parent links, as far as there is something to find for the channel.
def Falls (s : SqliteSaver Ver) (ch : String) :
    String → List (String × SavedCheckpoint Ver) → Prop
  | _, [] => True
  | bound, row :: older =>
      if row.1 < bound then stored ch row = none → s.Falls ch row.1 older
      else s.Silent ch (row :: older)

def reached (ch : String) : String → List (String × SavedCheckpoint Ver) → List String × Option Blob
  | _, [] => ([], none)
  | bound, row :: older =>
      if row.1 < bound then
        match stored ch row with
        | some b => ([row.1], some b)
        | none => (row.1 :: (reached ch row.1 older).1, (reached ch row.1 older).2)
      else ([], none)

def gathered (s : SqliteSaver Ver) (ch : String) (found : List String × Option Blob) :
    DeltaChannelHistory :=
  ⟨found.1.reverse.flatMap (s.stage2 ch), found.2⟩

theorem reached_congr {ch bound bound' : String} {l : List (String × SavedCheckpoint Ver)}
    (h : ∀ row ∈ l.head?, row.1 < bound ↔ row.1 < bound') :
    reached ch bound l = reached ch bound' l := by
  cases l with
  | nil => rfl
  | cons row older =>
    have hrow := h row rfl
    simp only [reached, hrow]

-- What is left of the stream: the stored rows below a bound, the newest first.
structure Stream (s : SqliteSaver Ver) (bound : String)
    (rows : List (String × SavedCheckpoint Ver)) : Prop where
  mem : ∀ row, row ∈ rows ↔ s.checkpoints.get? row.1 = some row.2 ∧ row.1 < bound
  descends : StrictlyDescends Prod.fst rows

theorem Stream.tail {s : SqliteSaver Ver} {bound : String} {row : String × SavedCheckpoint Ver}
    {rest : List (String × SavedCheckpoint Ver)} (h : Stream s bound (row :: rest)) :
    Stream s row.1 rest := by
  obtain ⟨hlt, hrest⟩ := List.pairwise_cons.mp h.descends
  refine ⟨fun other => ⟨fun hmem => ?_, fun hother => ?_⟩, hrest⟩
  · exact ⟨((h.mem other).mp (List.mem_cons_of_mem _ hmem)).1, hlt other hmem⟩
  · have hrow := ((h.mem row).mp List.mem_cons_self).2
    have hmem := (h.mem other).mpr ⟨hother.1, lt_trans hother.2 hrow⟩
    refine (List.mem_cons.mp hmem).resolve_left ?_
    rintro rfl
    exact absurd hother.2 (lt_irrefl _)

theorem Stream.lt_iff {s : SqliteSaver Ver} {bound : String} {row : String × SavedCheckpoint Ver}
    {rest : List (String × SavedCheckpoint Ver)} (h : Stream s bound (row :: rest))
    {other : String × SavedCheckpoint Ver} (hstored : s.checkpoints.get? other.1 = some other.2)
    (hne : other.1 ≠ row.1) : other.1 < bound ↔ other.1 < row.1 := by
  constructor
  · intro hlt
    have hmem := (h.mem other).mpr ⟨hstored, hlt⟩
    rcases List.mem_cons.mp hmem with rfl | hrest
    · exact absurd rfl hne
    · exact (List.pairwise_cons.mp h.descends).1 other hrest
  · intro hlt
    exact lt_trans hlt ((h.mem row).mp List.mem_cons_self).2

theorem ancestors_head {s : SqliteSaver Ver} {cursor : Option String}
    {row : String × SavedCheckpoint Ver} {older : List (String × SavedCheckpoint Ver)}
    (h : s.Ancestors cursor (row :: older)) :
    cursor = some row.1 ∧ s.checkpoints.get? row.1 = some row.2 ∧
      s.Ancestors row.2.parent older := by
  cases cursor with
  | none => exact absurd h (by simp [Ancestors])
  | some id =>
    obtain ⟨rfl, hrow, holder⟩ := h
    exact ⟨rfl, hrow, holder⟩

structure Walk.Follows (w w' : Walk) (ch : String) (found : List String × Option Blob) : Prop where
  chain : w'.chain ch = if ch ∈ w.active then w.chain ch ++ found.1 else w.chain ch
  seed : w'.seed ch = if ch ∈ w.active then found.2 else w.seed ch

theorem Walk.follows_stop {w : Walk} {ch : String} {found : List String × Option Blob}
    (hseed : ∀ c ∈ w.active, w.seed c = none) (h : ch ∈ w.active → found = ([], none)) :
    w.Follows w ch found := by
  by_cases hch : ch ∈ w.active
  · constructor
    · rw [if_pos hch, h hch, List.append_nil]
    · rw [if_pos hch, h hch, hseed ch hch]
  · exact ⟨(if_neg hch).symm, (if_neg hch).symm⟩

theorem Walk.step_done {w : Walk} (row : String × SavedCheckpoint Ver) (h : w.active = []) :
    w.step row = (w, true) := if_pos h

theorem Walk.step_passed {w : Walk} {row : String × SavedCheckpoint Ver} (h : w.active ≠ [])
    (hrow : some row.1 ≠ w.current) : w.step row = (w, false) := by
  simp only [step, if_neg h, if_pos hrow]

def Walk.advanced (w : Walk) (row : String × SavedCheckpoint Ver) : Walk where
  current := row.2.parent
  active := w.active.filter (fun ch => !row.2.checkpoint.channelValues.contains ch)
  chain ch := if ch ∈ w.active then w.chain ch ++ [row.1] else w.chain ch
  seed ch := if ch ∈ w.active then row.2.checkpoint.channelValues.get? ch else w.seed ch

theorem Walk.step_found {w : Walk} {row : String × SavedCheckpoint Ver} (h : w.active ≠ [])
    (hrow : some row.1 = w.current) :
    w.step row = (w.advanced row, (w.advanced row).active.isEmpty) := by
  simp only [step, if_neg h, ne_eq, hrow, not_true_eq_false, if_false]
  rfl

theorem Walk.mem_advanced {w : Walk} {row : String × SavedCheckpoint Ver} {ch : String} :
    ch ∈ (w.advanced row).active ↔ ch ∈ w.active ∧ stored ch row = none := by
  simp [advanced, stored, Dict.contains]

theorem Walk.advanced_unseeded {w : Walk} {row : String × SavedCheckpoint Ver} :
    ∀ ch ∈ (w.advanced row).active, (w.advanced row).seed ch = none := by
  intro ch hch
  obtain ⟨hin, hnone⟩ := mem_advanced.mp hch
  exact (if_pos hin).trans hnone

theorem Walk.follows_found {w w' : Walk} {row : String × SavedCheckpoint Ver} {ch bound : String}
    {older : List (String × SavedCheckpoint Ver)} (hlt : row.1 < bound)
    (h : (w.advanced row).Follows w' ch (reached ch row.1 older)) :
    w.Follows w' ch (reached ch bound (row :: older)) := by
  obtain ⟨hchain, hseed⟩ := h
  by_cases hch : ch ∈ w.active
  · have hown : (w.advanced row).chain ch = w.chain ch ++ [row.1] := if_pos hch
    cases hb : stored ch row with
    | some b =>
      have hout : ch ∉ (w.advanced row).active := by simp [mem_advanced, hb]
      have hreached : reached ch bound (row :: older) = ([row.1], some b) := by
        simp only [reached, if_pos hlt, hb]
      have hfound : (w.advanced row).seed ch = some b := (if_pos hch).trans hb
      rw [if_neg hout] at hchain hseed
      exact ⟨by rw [if_pos hch, hreached, hchain, hown], by rw [if_pos hch, hreached, hseed, hfound]⟩
    | none =>
      have hin : ch ∈ (w.advanced row).active := mem_advanced.mpr ⟨hch, hb⟩
      have hreached : reached ch bound (row :: older) =
          (row.1 :: (reached ch row.1 older).1, (reached ch row.1 older).2) := by
        simp only [reached, if_pos hlt, hb]
      rw [if_pos hin] at hchain hseed
      refine ⟨?_, by rw [if_pos hch, hreached, hseed]⟩
      rw [if_pos hch, hreached, hchain, hown, List.append_assoc, List.singleton_append]
  · have hout : ch ∉ (w.advanced row).active := fun hin => hch (mem_advanced.mp hin).1
    rw [if_neg hout] at hchain hseed
    exact ⟨by rw [if_neg hch, hchain]; exact if_neg hch, by rw [if_neg hch, hseed]; exact if_neg hch⟩

theorem Walk.rows_follow {s : SqliteSaver Ver} {rows l : List (String × SavedCheckpoint Ver)}
    {bound : String} {w : Walk} (hrows : Stream s bound rows) (hl : s.Ancestors w.current l)
    (hseed : ∀ ch ∈ w.active, w.seed ch = none) (ch : String) :
    w.Follows (Walk.rows rows w) ch (reached ch bound l) := by
  induction rows generalizing bound w l with
  | nil =>
    refine follows_stop hseed fun _ => ?_
    cases l with
    | nil => rfl
    | cons row older =>
      have hnot : ¬ row.1 < bound := fun hlt =>
        List.not_mem_nil ((hrows.mem row).mpr ⟨(ancestors_head hl).2.1, hlt⟩)
      simp only [reached, if_neg hnot]
  | cons row rest ih =>
    have hlt : row.1 < bound := ((hrows.mem row).mp List.mem_cons_self).2
    rw [Walk.rows]
    by_cases hdone : w.active = []
    · rw [step_done row hdone]
      exact follows_stop hseed fun hch => by simp [hdone] at hch
    · by_cases hcur : some row.1 = w.current
      · rw [step_found hdone hcur]
        cases l with
        | nil =>
          rw [← hcur] at hl
          exact absurd (((hrows.mem row).mp List.mem_cons_self).1.symm.trans hl) (by simp)
        | cons own older =>
          obtain ⟨hown, hsaved, holder⟩ := ancestors_head hl
          have hid : row.1 = own.1 := Option.some.inj (hcur.trans hown)
          have hrow := ((hrows.mem row).mp List.mem_cons_self).1
          rw [hid] at hrow
          obtain rfl : row = own := Prod.ext hid (Option.some.inj (hrow.symm.trans hsaved))
          apply follows_found hlt
          by_cases hempty : (w.advanced row).active.isEmpty = true
          · simp only [hempty, if_true]
            refine follows_stop advanced_unseeded fun hch => ?_
            rw [List.isEmpty_iff.mp hempty] at hch
            exact absurd hch List.not_mem_nil
          · simp only [if_neg hempty]
            exact ih hrows.tail holder advanced_unseeded
      · rw [step_passed hdone hcur]
        have hsame : reached ch bound l = reached ch row.1 l := by
          apply reached_congr
          intro own hhead
          obtain ⟨older, rfl⟩ : ∃ older, l = own :: older := by
            cases l with
            | nil => cases hhead
            | cons other older => exact ⟨older, by rw [Option.some.inj hhead]⟩
          obtain ⟨hown, hsaved, -⟩ := ancestors_head hl
          exact hrows.lt_iff hsaved fun he => hcur (by rw [hown, he])
        rw [hsame]
        exact ih hrows.tail hl hseed

def after (own : List PendingWrite) (older : DeltaChannelHistory) :
    Option Blob → DeltaChannelHistory
  | some b => ⟨own, some b⟩
  | none => ⟨older.writes ++ own, older.seed⟩

theorem after_inj {own : List PendingWrite} {older older' : DeltaChannelHistory} {b : Option Blob} :
    after own older b = after own older' b ↔ (b = none → older = older') := by
  cases b with
  | some b => simp [after]
  | none => simp [after, InMemorySaver.history_ext_iff]

theorem after_empty_iff {own : List PendingWrite} {older : DeltaChannelHistory} {b : Option Blob} :
    after own older b = ⟨[], none⟩ ↔ (b = none ∧ own = []) ∧ older = ⟨[], none⟩ := by
  cases b with
  | some b => simp [after]
  | none =>
    simp only [after, InMemorySaver.history_ext_iff, List.append_eq_nil_iff, true_and]
    tauto

theorem gathered_reached (s : SqliteSaver Ver) (ch bound : String)
    (row : String × SavedCheckpoint Ver) (older : List (String × SavedCheckpoint Ver)) :
    s.gathered ch (reached ch bound (row :: older)) =
      if row.1 < bound then
        after (s.stage2 ch row.1) (s.gathered ch (reached ch row.1 older)) (stored ch row)
      else ⟨[], none⟩ := by
  by_cases hlt : row.1 < bound
  · simp only [reached, if_pos hlt]
    cases stored ch row <;> simp [gathered, after]
  · simp only [reached, if_neg hlt]
    rfl

theorem nodup_writeRows (t : SqliteWrites) (checkpointId : String) :
    ((t.writeRows checkpointId).map Prod.fst).Nodup := by
  rw [SqliteWrites.writeRows, List.Nodup, List.pairwise_map, List.pairwise_filterMap]
  refine (List.pairwise_map.mp t.nodup).imp ?_
  intro a b hne x hx y hy he
  rw [Option.ite_none_right_eq_some] at hx hy
  obtain ⟨ha, hx⟩ := hx
  obtain ⟨hb, hy⟩ := hy
  cases hx
  cases hy
  exact hne (Prod.ext (ha.trans hb.symm) he)

theorem sortedRows_perm (rows : List (WriteKey × Write)) : (sortedRows rows).Perm rows :=
  List.perm_insertionSort _ _

theorem sortedRows_pairwise (rows : List (WriteKey × Write)) :
    (sortedRows rows).Pairwise (fun a b => keyLe a.1 b.1) := by
  have : IsTrans (WriteKey × Write) (fun a b => keyLe a.1 b.1) := ⟨fun _ _ _ => WriteRows.keyLe_trans⟩
  have : Std.Total (fun a b : WriteKey × Write => keyLe a.1 b.1) :=
    ⟨fun a b => WriteRows.keyLe_total a.1 b.1⟩
  exact List.pairwise_insertionSort _ _

theorem filter_sortedRows {rows : List (WriteKey × Write)}
    (hrows : (rows.map Prod.fst).Nodup) (p : WriteKey × Write → Bool) :
    (sortedRows rows).filter p = sortedRows (rows.filter p) := by
  have hperm : ((sortedRows rows).filter p).Perm (sortedRows (rows.filter p)) :=
    ((sortedRows_perm rows).filter p).trans (sortedRows_perm _).symm
  refine hperm.eq_of_pairwise ?_ ((sortedRows_pairwise rows).filter p) (sortedRows_pairwise _)
  intro a b ha hb hab hba
  have hmem {c : WriteKey × Write} (hc : c ∈ (sortedRows rows).filter p) : c ∈ rows :=
    (sortedRows_perm rows).mem_iff.mp (List.mem_filter.mp hc).1
  exact List.inj_on_of_nodup_map hrows (hmem ha) (hmem (hperm.mem_iff.mpr hb))
    (WriteRows.keyLe_antisymm hab hba)

theorem pending_on (s : SqliteSaver Ver) (ch checkpointId : String) :
    (s.pending checkpointId).filter (fun w => w.channel = ch) = s.stage2 ch checkpointId := by
  rw [pending, List.filter_map, stage2, ← filter_sortedRows (nodup_writeRows _ _)]
  rfl

def baseVisit (s : SqliteSaver Ver) (row : String × SavedCheckpoint Ver) : Visit where
  stored ch := stored ch row
  skip _ := false
  newestFirst := (s.pending row.1).reverse

theorem getTuple_some (s : SqliteSaver Ver) (id : String) :
    s.getTuple (some id) = (s.checkpoints.get? id).map
      (fun saved => ⟨saved.checkpoint, saved.metadata, saved.parent, s.pending id⟩) := by
  rw [getTuple, Option.some_or]
  cases h : s.checkpoints.get? id <;> simp [h]

theorem walk_eq_sweep {s : SqliteSaver Ver} (hempty : "" ∉ s.checkpoints.keys) {fuel : Nat}
    {cursor : Option String} {l : List (String × SavedCheckpoint Ver)}
    (h : s.Ancestors cursor l) (hfuel : l.length < fuel) (g : Gathered) :
    BaseCheckpointSaver.walk s.getTuple fuel (named cursor) g =
      some (Gathered.sweep (l.map s.baseVisit) g) := by
  induction l generalizing cursor fuel g with
  | nil =>
    obtain ⟨fuel, rfl⟩ := Nat.exists_eq_succ_of_ne_zero (Nat.ne_of_gt hfuel)
    cases cursor with
    | none => rfl
    | some id =>
      have hnone : s.checkpoints.get? id = none := h
      by_cases hid : id = ""
      · subst hid
        rfl
      · rw [InMemorySaver.named_some hid, BaseCheckpointSaver.walk, getTuple_some, hnone]
        simp [Gathered.sweep]
  | cons row older ih =>
    obtain ⟨fuel, rfl⟩ := Nat.exists_eq_succ_of_ne_zero (Nat.ne_of_gt (Nat.zero_lt_of_lt hfuel))
    obtain ⟨rfl, hsaved, holder⟩ := ancestors_head h
    have hid : row.1 ≠ "" := by
      intro he
      exact hempty (he ▸ Dict.mem_keys.mpr ⟨row.2, hsaved⟩)
    rw [InMemorySaver.named_some hid, BaseCheckpointSaver.walk, getTuple_some, hsaved,
      List.map_cons, Gathered.sweep]
    split_ifs with hr
    · rfl
    · exact ih holder (Nat.lt_of_succ_lt_succ hfuel) (g.visit (s.baseVisit row))

theorem along_cons (s : SqliteSaver Ver) (ch : String) (row : String × SavedCheckpoint Ver)
    (older : List (String × SavedCheckpoint Ver)) :
    Gathered.along ch ((row :: older).map s.baseVisit) =
      after (s.stage2 ch row.1) (Gathered.along ch (older.map s.baseVisit)) (stored ch row) := by
  have hown : ((s.pending row.1).reverse.filter (fun w => w.channel = ch)).reverse =
      s.stage2 ch row.1 := by
    rw [List.filter_reverse, List.reverse_reverse, pending_on]
  simp only [List.map_cons, Gathered.along, baseVisit, if_true, hown]
  cases stored ch row <;> rfl

theorem along_empty_iff (s : SqliteSaver Ver) (ch : String)
    (l : List (String × SavedCheckpoint Ver)) :
    Gathered.along ch (l.map s.baseVisit) = ⟨[], none⟩ ↔ s.Silent ch l := by
  induction l with
  | nil => simp [Gathered.along, Silent]
  | cons row older ih =>
    have hcons : s.Silent ch (row :: older) ↔
        (stored ch row = none ∧ s.stage2 ch row.1 = []) ∧ s.Silent ch older :=
      List.forall_mem_cons
    rw [along_cons, after_empty_iff, ih, hcons]

theorem along_eq_iff (s : SqliteSaver Ver) (ch bound : String)
    (l : List (String × SavedCheckpoint Ver)) :
    Gathered.along ch (l.map s.baseVisit) = s.gathered ch (reached ch bound l) ↔
      s.Falls ch bound l := by
  induction l generalizing bound with
  | nil => simp [Gathered.along, gathered, reached, Falls]
  | cons row older ih =>
    rw [gathered_reached]
    by_cases hlt : row.1 < bound
    · rw [along_cons, if_pos hlt, after_inj, ih]
      simp only [Falls, if_pos hlt]
    · simp only [Falls, if_neg hlt]
      exact s.along_empty_iff ch (row :: older)

theorem mem_stage1 {s : SqliteSaver Ver} {target : String}
    {row : String × SavedCheckpoint Ver} :
    row ∈ s.stage1 target ↔ s.checkpoints.get? row.1 = some row.2 ∧ row.1 ≤ target := by
  rw [stage1, (descending_perm _).mem_iff, List.mem_filter, Dict.get?_eq_some, decide_eq_true_iff]

theorem stage1_descends (s : SqliteSaver Ver) (target : String) :
    StrictlyDescends Prod.fst (s.stage1 target) := by
  have hnodup : ((s.stage1 target).map Prod.fst).Nodup := by
    refine ((descending_perm _).map Prod.fst).nodup_iff.mpr ?_
    exact s.checkpoints.nodup.sublist (List.filter_sublist.map Prod.fst)
  have hle : Descends Prod.fst (s.stage1 target) := descends_descending _
  exact (hle.and (List.pairwise_map.mp hnodup)).imp fun hab => lt_of_le_of_ne hab.1 hab.2.symm

theorem walkRows_missing {target : String} {channels : List String}
    {rows : List (String × SavedCheckpoint Ver)} (h : ∀ row ∈ rows, row.1 ≠ target) :
    walkRows target channels rows = ⟨none, channels, fun _ => [], fun _ => none⟩ := by
  induction rows with
  | nil => rfl
  | cons row rest ih =>
    obtain ⟨hrow, hrest⟩ := List.forall_mem_cons.mp h
    rw [walkRows, if_neg hrow, ih hrest]

theorem stage1_cons {s : SqliteSaver Ver} {target : String} {saved : SavedCheckpoint Ver}
    (h : s.checkpoints.get? target = some saved) :
    ∃ rest, s.stage1 target = (target, saved) :: rest ∧ Stream s target rest := by
  have hmem : (target, saved) ∈ s.stage1 target := mem_stage1.mpr ⟨h, le_refl _⟩
  have hdescends := s.stage1_descends target
  cases hrows : s.stage1 target with
  | nil =>
    rw [hrows] at hmem
    cases hmem
  | cons first rest =>
    rw [hrows] at hmem hdescends
    obtain ⟨hlt, hrest⟩ := List.pairwise_cons.mp hdescends
    have hfirst : first = (target, saved) := by
      rcases List.mem_cons.mp hmem with he | hin
      · exact he.symm
      · have hle : first.1 ≤ target := by
          have hin : first ∈ s.stage1 target := hrows ▸ List.mem_cons_self
          exact (mem_stage1.mp hin).2
        exact absurd (lt_of_lt_of_le (hlt _ hin) hle) (lt_irrefl _)
    subst hfirst
    refine ⟨rest, rfl, fun row => ⟨fun hin => ?_, fun hrow => ?_⟩, hrest⟩
    · have hstage : row ∈ s.stage1 target := hrows ▸ List.mem_cons_of_mem _ hin
      exact ⟨(mem_stage1.mp hstage).1, hlt row hin⟩
    · have hstage : row ∈ s.stage1 target := mem_stage1.mpr ⟨hrow.1, le_of_lt hrow.2⟩
      rw [hrows] at hstage
      refine (List.mem_cons.mp hstage).resolve_left ?_
      rintro rfl
      exact absurd hrow.2 (lt_irrefl _)

theorem buildHistory_eq {s : SqliteSaver Ver} {w w' : Walk} {ch : String}
    {found : List String × Option Blob} (h : w.Follows w' ch found) (hch : ch ∈ w.active)
    (hchain : w.chain ch = []) : s.buildHistory w' ch = s.gathered ch found := by
  obtain ⟨hc, hs⟩ := h
  rw [if_pos hch] at hc hs
  rw [buildHistory, hc, hs, hchain, List.nil_append]
  rfl

theorem history_of_stored {s : SqliteSaver Ver} {target ch : String} {channels : List String}
    {saved : SavedCheckpoint Ver} {l : List (String × SavedCheckpoint Ver)}
    (htarget : s.checkpoints.get? target = some saved) (h : s.Ancestors saved.parent l)
    (hch : ch ∈ channels) :
    s.buildHistory (walkRows target channels (s.stage1 target)) ch =
      s.gathered ch (reached ch target l) := by
  obtain ⟨rest, hrows, hstream⟩ := stage1_cons htarget
  rw [hrows, walkRows, if_pos rfl]
  have hfollow := Walk.rows_follow (w := ⟨saved.parent, channels, fun _ => [], fun _ => none⟩)
    hstream h (fun _ _ => rfl) ch
  exact buildHistory_eq hfollow hch rfl

theorem history_of_missing {s : SqliteSaver Ver} {target ch : String} {channels : List String}
    (h : s.checkpoints.get? target = none) :
    s.buildHistory (walkRows target channels (s.stage1 target)) ch = ⟨[], none⟩ := by
  have hmissing : ∀ row ∈ s.stage1 target, row.1 ≠ target := by
    rintro row hrow rfl
    exact absurd (h.symm.trans (mem_stage1.mp hrow).1) (by simp)
  rw [walkRows_missing hmissing]
  rfl

theorem reached_unnamed (ch : String) (l : List (String × SavedCheckpoint Ver)) :
    reached ch "" l = ([], none) := by
  cases l with
  | nil => rfl
  | cons row older =>
    have hnot : ¬ row.1 < "" := by
      rw [String.lt_iff_toList_lt]
      exact List.not_lt_nil _
    simp only [reached, if_neg hnot]

-- The id the stream starts at.
def bound (s : SqliteSaver Ver) (checkpointId : Option String) : String :=
  (checkpointId.or s.latest).getD ""

theorem history_eq {s : SqliteSaver Ver} (hempty : "" ∉ s.checkpoints.keys)
    {checkpointId : Option String} {l : List (String × SavedCheckpoint Ver)}
    (h : s.Ancestors (s.targetParent checkpointId) l) {target : String}
    (htarget : checkpointId.or s.latest = some target) {ch : String} {channels : List String}
    (hch : ch ∈ channels) :
    s.buildHistory (walkRows target channels (s.stage1 target)) ch =
      s.gathered ch (reached ch target l) := by
  by_cases hid : target = ""
  · subst hid
    rw [history_of_missing (Dict.get?_eq_none.mpr hempty), reached_unnamed]
    rfl
  · have hnamed : (named checkpointId).or s.latest = some target := by
      cases checkpointId with
      | none => exact htarget
      | some id =>
        obtain rfl : id = target := Option.some.inj htarget
        rw [InMemorySaver.named_some hid, Option.some_or]
    have hparent : s.targetParent checkpointId =
        (s.checkpoints.get? target).bind SavedCheckpoint.parent := by
      rw [targetParent, getTuple, hnamed]
      simp only [Option.bind_eq_bind, Option.bind_some]
      cases s.checkpoints.get? target <;> rfl
    rw [hparent] at h
    cases hsaved : s.checkpoints.get? target with
    | some saved =>
      rw [hsaved] at h
      exact history_of_stored hsaved h hch
    | none =>
      rw [hsaved] at h
      cases l with
      | nil => exact history_of_missing hsaved
      | cons row older => exact absurd h (by simp [Ancestors])

theorem base_histories {s : SqliteSaver Ver} (hempty : "" ∉ s.checkpoints.keys)
    {checkpointId : Option String} {l : List (String × SavedCheckpoint Ver)}
    (h : s.Ancestors (s.targetParent checkpointId) l) {fuel : Nat} (hfuel : l.length < fuel)
    (channels : List String) :
    BaseCheckpointSaver.getDeltaChannelHistory s.getTuple fuel checkpointId channels =
      some (channels.map (fun ch => (ch, Gathered.along ch (l.map s.baseVisit)))) := by
  have hcursor : (s.getTuple (named checkpointId)).bind (fun tup => named tup.parent) =
      named (s.targetParent checkpointId) := by
    rw [targetParent]
    cases s.getTuple (named checkpointId) <;> rfl
  rw [BaseCheckpointSaver.getDeltaChannelHistory, hcursor, walk_eq_sweep hempty h hfuel,
    Option.map_some, Gathered.histories_sweep]

theorem override_histories {s : SqliteSaver Ver} (hempty : "" ∉ s.checkpoints.keys)
    {checkpointId : Option String} {l : List (String × SavedCheckpoint Ver)}
    (h : s.Ancestors (s.targetParent checkpointId) l) (channels : List String) :
    s.getDeltaChannelHistories checkpointId channels =
      channels.map (fun ch => (ch, s.gathered ch (reached ch (s.bound checkpointId) l))) := by
  rw [getDeltaChannelHistories, bound]
  cases htarget : checkpointId.or s.latest with
  | none =>
    apply List.map_congr_left
    intro ch _
    rw [Option.getD_none, reached_unnamed]
    rfl
  | some target =>
    apply List.map_congr_left
    intro ch hch
    rw [history_eq hempty h htarget hch, Option.getD_some]

def linked (older newer : String) : SqliteSaver Nat where
  checkpoints :=
    ((∅ : Dict String (SavedCheckpoint Nat)).set older
      ⟨emptyCheckpoint older, InMemorySaver.inputMetadata, none⟩).set newer
        ⟨emptyCheckpoint newer, InMemorySaver.inputMetadata, some older⟩
  writes := (∅ : SqliteWrites).putWrites older [("m", .int 1)] "t"

def linkedRow (id : String) : String × SavedCheckpoint Nat :=
  (id, ⟨emptyCheckpoint id, InMemorySaver.inputMetadata, none⟩)

theorem linked_ancestors :
    (linked "1" "2").Ancestors ((linked "1" "2").targetParent (some "2")) [linkedRow "1"] ∧
      (linked "2" "1").Ancestors ((linked "2" "1").targetParent (some "1")) [linkedRow "2"] :=
  ⟨⟨rfl, rfl, rfl⟩, ⟨rfl, rfl, rfl⟩⟩

end SqliteSaver

end LangGraph

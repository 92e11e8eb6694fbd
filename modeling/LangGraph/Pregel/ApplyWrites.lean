import LangGraph.Pregel.Algo

namespace LangGraph

open Collections

variable {C Ver : Type}

def writesTo (chan : String) (ws : List Write) : List Value :=
  (ws.filter (fun w => w.1 = chan)).map Prod.snd

theorem getD_groupWrites {channels : Dict String C} {chan : String} (hi : chan ∉ ignoredWrites)
    (hc : chan ∈ channels.keys) (ws : List Write) :
    (groupWrites channels ws).getD chan [] = writesTo chan ws := by
  have aux (p : Dict String (List Value)) :
      (ws.foldl (fun pending w =>
        if w.1 ∈ ignoredWrites then pending
        else if w.1 ∈ channels.keys then pending.set w.1 (pending.getD w.1 [] ++ [w.2])
        else pending) p).getD chan [] = p.getD chan [] ++ writesTo chan ws := by
    induction ws generalizing p with
    | nil => simp [writesTo]
    | cons w ws ih =>
      rw [List.foldl_cons, ih]
      by_cases hw : w.1 = chan
      · have hv : writesTo chan (w :: ws) = w.2 :: writesTo chan ws := by simp [writesTo, hw]
        rw [hv, hw, if_neg hi, if_pos hc]
        simp [Dict.getD]
      · have hv : writesTo chan (w :: ws) = writesTo chan ws := by simp [writesTo, hw]
        have hne : chan ≠ w.1 := fun e => hw e.symm
        rw [hv]
        split
        · rfl
        · split
          · rw [Dict.getD, Dict.get?_set_ne _ hne, ← Dict.getD]
          · rfl
  exact aux ∅

theorem mem_keys_groupWrites {channels : Dict String C} {ws : List Write} {chan : String} :
    chan ∈ (groupWrites channels ws).keys ↔
      chan ∉ ignoredWrites ∧ chan ∈ channels.keys ∧ ∃ v, (chan, v) ∈ ws := by
  have aux (p : Dict String (List Value)) :
      chan ∈ (ws.foldl (fun pending w =>
        if w.1 ∈ ignoredWrites then pending
        else if w.1 ∈ channels.keys then pending.set w.1 (pending.getD w.1 [] ++ [w.2])
        else pending) p).keys ↔
      chan ∈ p.keys ∨ chan ∉ ignoredWrites ∧ chan ∈ channels.keys ∧ ∃ v, (chan, v) ∈ ws := by
    induction ws generalizing p with
    | nil => simp
    | cons w ws ih =>
      obtain ⟨c, v⟩ := w
      rw [List.foldl_cons, ih]
      simp only [List.mem_cons, Prod.mk.injEq]
      split
      · grind
      · split
        · rw [Dict.mem_keys_set]
          grind
        · grind
  have h := aux ∅
  rwa [or_iff_right (by simp [Dict.mem_keys])] at h

theorem mem_getD_groupWrites {channels : Dict String C} {ws : List Write} {chan : String}
    {v : Value} (h : v ∈ (groupWrites channels ws).getD chan []) : (chan, v) ∈ ws := by
  by_cases hk : chan ∈ (groupWrites channels ws).keys
  · obtain ⟨hi, hc, -⟩ := mem_keys_groupWrites.mp hk
    rw [getD_groupWrites hi hc, writesTo, List.mem_map] at h
    obtain ⟨w, hw, rfl⟩ := h
    obtain ⟨hmem, hchan⟩ := List.mem_filter.mp hw
    have hchan : w.1 = chan := by simpa using hchan
    rwa [← hchan]
  · rw [Dict.getD, Dict.get?_eq_none.mpr hk] at h
    cases h

theorem mem_writes_sortTasks {tasks : List PregelTaskWrites} {w : Write} :
    w ∈ (sortTasks tasks).flatMap PregelTaskWrites.writes ↔
      w ∈ tasks.flatMap PregelTaskWrites.writes := by
  have hperm : (sortTasks tasks).Perm tasks := List.perm_insertionSort _ tasks
  simp only [List.mem_flatMap, hperm.mem_iff]

variable [BaseChannel C]

structure Cell (C Ver : Type) where
  channel : Option C
  version : Option Ver
  updated : Bool

def ApplyState.cell (s : ApplyState C Ver) (chan : String) : Cell C Ver :=
  ⟨s.channels.get? chan, s.versions.get? chan, decide (chan ∈ s.updated)⟩

structure Stage (C : Type) where
  mark : Bool
  op : ChannelOp C

namespace Cell

def result (chan : String) (st : Stage C) (x : Cell C Ver) : Option (C × Except UpdateError Bool) :=
  x.channel.map (st.op chan x.updated)

def changedBy (chan : String) (st : Stage C) (x : Cell C Ver) : Bool :=
  match x.result chan st with
  | some (_, .ok b) => b
  | _ => false

def touch (next : Option Ver) (chan : String) (st : Stage C) (x : Cell C Ver) : Cell C Ver :=
  match x.result chan st, next with
  | none, _ => x
  | some (c, .ok true), some v => ⟨some c, some v, x.updated || (st.mark && BaseChannel.isAvailable c)⟩
  | some (c, _), _ => { x with channel := some c }

def run (next : Option Ver) (chan : String) : List (Stage C) → Cell C Ver → Cell C Ver
  | [], x => x
  | st :: sts, x => run next chan sts (x.touch next chan st)

def changed (next : Option Ver) (chan : String) : List (Stage C) → Cell C Ver → Bool
  | [], _ => false
  | st :: sts, x => x.changedBy chan st || changed next chan sts (x.touch next chan st)

theorem touch_version (v : Ver) (chan : String) (st : Stage C) (x : Cell C Ver) :
    (x.touch (some v) chan st).version = if x.changedBy chan st then some v else x.version := by
  unfold touch changedBy
  cases hr : x.result chan st with
  | none => rfl
  | some r =>
    obtain ⟨c, e | b⟩ := r
    · rfl
    · cases b <;> rfl

theorem run_version (v : Ver) (chan : String) (sts : List (Stage C)) (x : Cell C Ver) :
    (x.run (some v) chan sts).version =
      if x.changed (some v) chan sts then some v else x.version := by
  induction sts generalizing x with
  | nil => rfl
  | cons st sts ih =>
    have hrun : (x.run (some v) chan (st :: sts)).version =
        if (x.touch (some v) chan st).changed (some v) chan sts then some v
        else if x.changedBy chan st then some v else x.version := by
      rw [run, ih, touch_version]
    rw [hrun, changed]
    rcases Bool.eq_false_or_eq_true (x.changedBy chan st) with h | h
    · simp [h]
    · simp [h]

theorem run_append (next : Option Ver) (chan : String) (as bs : List (Stage C)) (x : Cell C Ver) :
    x.run next chan (as ++ bs) = (x.run next chan as).run next chan bs := by
  induction as generalizing x with
  | nil => rfl
  | cons a as ih => exact ih (x.touch next chan a)

end Cell

theorem touch_local (next : Option Ver) (st : Stage C) :
    Sweep.Local (fun s : ApplyState C Ver => s.cell) (ApplyState.touch next st.mark st.op)
      (fun chan x => x.touch next chan st) where
  self chan s := by
    unfold ApplyState.touch Cell.touch Cell.result
    cases hc : s.channels.get? chan with
    | none => simp [ApplyState.cell, hc]
    | some c =>
      obtain ⟨c', hr⟩ : ∃ c', st.op chan (decide (chan ∈ s.updated)) c = c' := ⟨_, rfl⟩
      obtain ⟨c', e | b⟩ := c'
      · simp [ApplyState.cell, hc, hr]
      · cases b with
        | false => simp [ApplyState.cell, hc, hr]
        | true =>
          cases next with
          | none => simp [ApplyState.cell, hc, hr]
          | some v =>
            cases hm : st.mark && BaseChannel.isAvailable c' <;>
              simp [ApplyState.cell, hc, hr, hm]
  frame {chan chan'} s hne := by
    unfold ApplyState.touch
    cases hc : s.channels.get? chan with
    | none => rfl
    | some c =>
      obtain ⟨r, hr⟩ : ∃ r, st.op chan (decide (chan ∈ s.updated)) c = r := ⟨_, rfl⟩
      obtain ⟨c', e | b⟩ := r
      · simp [ApplyState.cell, hr, Dict.get?_set_ne _ hne]
      · cases b with
        | false => simp [ApplyState.cell, hr, Dict.get?_set_ne _ hne]
        | true =>
          cases next with
          | none => simp [ApplyState.cell, hr, Dict.get?_set_ne _ hne]
          | some v =>
            cases hm : st.mark && BaseChannel.isAvailable c' <;>
              simp [ApplyState.cell, hr, hm, Dict.get?_set_ne _ hne, hne]

theorem keys_touch (next : Option Ver) (mark : Bool) (op : ChannelOp C) (chan : String)
    (s : ApplyState C Ver) : (s.touch next mark op chan).1.channels.keys = s.channels.keys := by
  unfold ApplyState.touch
  cases hc : s.channels.get? chan with
  | none => rfl
  | some c =>
    have hk : chan ∈ s.channels.keys := Dict.mem_keys.mpr ⟨c, hc⟩
    obtain ⟨r, hr⟩ : ∃ r, op chan (decide (chan ∈ s.updated)) c = r := ⟨_, rfl⟩
    obtain ⟨c', e | b⟩ := r
    · simp [hr, Dict.keys_set_of_mem hk]
    · cases b with
      | false => simp [hr, Dict.keys_set_of_mem hk]
      | true => cases next <;> simp [hr, Dict.keys_set_of_mem hk]

theorem Cell.touch_none {next : Option Ver} {chan : String} {st : Stage C} {x : Cell C Ver}
    (h : x.channel = none) : x.touch next chan st = x := by
  simp [Cell.touch, Cell.result, h]

theorem Cell.run_none {next : Option Ver} {chan : String} {sts : List (Stage C)} {x : Cell C Ver}
    (h : x.channel = none) : x.run next chan sts = x := by
  induction sts with
  | nil => rfl
  | cons st sts ih => rw [Cell.run, Cell.touch_none h, ih]

theorem cell_sweep {next : Option Ver} (st : Stage C) {ks : List String} (hn : ks.Nodup)
    {s : ApplyState C Ver} (hok : (sweep (ApplyState.touch next st.mark st.op) ks s).2 = none)
    (chan : String) :
    (sweep (ApplyState.touch next st.mark st.op) ks s).1.cell chan =
      (s.cell chan).run next chan (if chan ∈ ks then [st] else []) := by
  split
  · rename_i hk
    exact Sweep.view_of_ok (touch_local next st) hn hok hk
  · rename_i hk
    exact Sweep.frame (touch_local next st) hk s

theorem keys_sweep (next : Option Ver) (mark : Bool) (op : ChannelOp C) (ks : List String)
    (s : ApplyState C Ver) :
    (sweep (ApplyState.touch next mark op) ks s).1.channels.keys = s.channels.keys :=
  Sweep.invariant (P := fun t => t.channels.keys = s.channels.keys)
    (fun chan t ht => (keys_touch next mark op chan t).trans ht) ks rfl

theorem keys_applyWrites [LinearOrder Ver]
    (checkpoint : Checkpoint Ver) (channels : Dict String C) (tasks : List PregelTaskWrites)
    (getNextVersion : Option (GetNextVersion Ver)) (triggerToNodes : Dict String (List String)) :
    (applyWrites checkpoint channels tasks getNextVersion triggerToNodes).2.1.keys =
      channels.keys := by
  refine andThen_invariant (P := fun t : ApplyState C Ver => t.channels.keys = channels.keys)
    (keys_sweep _ _ _ _ _) (fun s hs => ?_)
  refine andThen_invariant (P := fun t : ApplyState C Ver => t.channels.keys = channels.keys)
    ((keys_sweep _ _ _ _ _).trans hs) (fun s hs => ?_)
  split
  · refine andThen_invariant (P := fun t : ApplyState C Ver => t.channels.keys = channels.keys)
      ((keys_sweep _ _ _ _ _).trans hs) (fun s hs => ?_)
    unfold finishPhase
    split
    · exact hs
    · exact (keys_sweep _ _ _ _ _).trans hs
  · exact hs

theorem consume_ok (next : Option Ver) (ks : List String) (s : ApplyState C Ver) :
    (sweep (ApplyState.touch next false .consume) ks s).2 = none := by
  have hstep (chan : String) (t : ApplyState C Ver) :
      (t.touch next false .consume chan).2 = none := by
    unfold ApplyState.touch
    cases t.channels.get? chan with
    | none => rfl
    | some c =>
      simp only [ChannelOp.consume]
      cases (BaseChannel.consume c).2 with
      | false => rfl
      | true => cases next <;> rfl
  exact Sweep.never_fails hstep ks s

def plan (channels : Dict String C) (tasks : List PregelTaskWrites) (finish : Bool)
    (chan : String) : List (Stage C) :=
  (if chan ∈ consumedChannels channels tasks then [⟨false, .consume⟩] else []) ++
    ((if chan ∈ (pendingWritesByChannel channels tasks).keys then
        [⟨true, .update (pendingWritesByChannel channels tasks)⟩] else []) ++
      ((if bumpStep tasks then [⟨true, .updateEmpty⟩] else []) ++
        (if finish then [⟨true, .finish⟩] else [])))

theorem cell_sweep_keys {next : Option Ver} (st : Stage C) {s : ApplyState C Ver}
    (hok : (sweep (ApplyState.touch next st.mark st.op) s.channels.keys s).2 = none)
    (chan : String) :
    (sweep (ApplyState.touch next st.mark st.op) s.channels.keys s).1.cell chan =
      (s.cell chan).run next chan [st] := by
  have h := cell_sweep st s.channels.nodup_keys hok chan
  by_cases hk : chan ∈ s.channels.keys
  · rwa [if_pos hk] at h
  · have hnone : (s.cell chan).channel = none := Dict.get?_eq_none.mpr hk
    rw [if_neg hk, Cell.run_none hnone] at h
    rw [h, Cell.run_none hnone]

theorem finishPhase_cell {next : Option Ver} {triggerToNodes : Dict String (List String)}
    {s : ApplyState C Ver} (hok : (finishPhase next triggerToNodes s).2 = none) :
    ∃ finish : Bool, ∀ chan, (finishPhase next triggerToNodes s).1.cell chan =
      (s.cell chan).run next chan (if finish then [⟨true, .finish⟩] else []) := by
  unfold finishPhase at hok ⊢
  split at hok
  · rename_i h
    exact ⟨false, fun chan => by rw [if_pos h]; rfl⟩
  · rename_i h
    exact ⟨true, fun chan => by
      rw [if_neg h]
      exact cell_sweep_keys ⟨true, .finish⟩ hok chan⟩

theorem bumpPhases_cell {next : Option Ver} {triggerToNodes : Dict String (List String)}
    {s : ApplyState C Ver} (hok : (bumpPhases next triggerToNodes s).2 = none) :
    ∃ finish : Bool, ∀ chan, (bumpPhases next triggerToNodes s).1.cell chan =
      (s.cell chan).run next chan
        ([⟨true, .updateEmpty⟩] ++ (if finish then [⟨true, .finish⟩] else [])) := by
  obtain ⟨he, heq⟩ := andThen_ok hok
  have hb : bumpPhases next triggerToNodes s = finishPhase next triggerToNodes
    (sweep (ApplyState.touch next true .updateEmpty) s.channels.keys s).1 := heq
  rw [hb] at hok
  obtain ⟨finish, hf⟩ := finishPhase_cell hok
  refine ⟨finish, fun chan => ?_⟩
  have hcell := cell_sweep_keys ⟨true, .updateEmpty⟩ he chan
  rw [hb, hf chan, Cell.run_append, ← hcell]

theorem updatePhases_cell {next : Option Ver} {triggerToNodes : Dict String (List String)}
    {pending : Dict String (List Value)} {bump : Bool} {s : ApplyState C Ver}
    (hok : (updatePhases next triggerToNodes pending bump s).2 = none) :
    ∃ finish : Bool, ∀ chan, (updatePhases next triggerToNodes pending bump s).1.cell chan =
      (s.cell chan).run next chan
        ((if chan ∈ pending.keys then [⟨true, .update pending⟩] else []) ++
          ((if bump then [⟨true, .updateEmpty⟩] else []) ++
            (if finish then [⟨true, .finish⟩] else []))) := by
  obtain ⟨hu, heq⟩ := andThen_ok hok
  have hcell (chan : String) := cell_sweep ⟨true, .update pending⟩
    pending.nodup_keys hu chan
  have hb : updatePhases next triggerToNodes pending bump s = _ := heq
  rw [hb] at hok ⊢
  cases bump with
  | false =>
    refine ⟨false, fun chan => ?_⟩
    rw [Cell.run_append, ← hcell chan]
    rfl
  | true =>
    obtain ⟨finish, hf⟩ := bumpPhases_cell hok
    refine ⟨finish, fun chan => ?_⟩
    rw [Cell.run_append, ← hcell chan]
    exact hf chan

theorem applyChannels_cell {channels : Dict String C} {versions : ChannelVersions Ver}
    {next : Option Ver} {tasks : List PregelTaskWrites}
    {triggerToNodes : Dict String (List String)}
    (hok : (applyChannels channels versions next tasks triggerToNodes).2 = none) :
    ∃ finish, ∀ chan,
      (applyChannels channels versions next tasks triggerToNodes).1.cell chan =
        (⟨channels.get? chan, versions.get? chan, false⟩ : Cell C Ver).run next chan
          (plan channels tasks finish chan) := by
  obtain ⟨hc, heq⟩ := andThen_ok hok
  have hn : (consumedChannels channels tasks).Nodup := List.nodup_dedup _
  have hcell (chan : String) := cell_sweep ⟨false, .consume⟩ hn hc chan
  have hb : applyChannels channels versions next tasks triggerToNodes = _ := heq
  rw [hb] at hok ⊢
  obtain ⟨finish, hf⟩ := updatePhases_cell hok
  refine ⟨finish, fun chan => ?_⟩
  have h₀ : (⟨versions, channels, ∅⟩ : ApplyState C Ver).cell chan =
      ⟨channels.get? chan, versions.get? chan, false⟩ := by
    simp [ApplyState.cell]
  have hplan (bs : List (Stage C)) (x : Cell C Ver) := Cell.run_append next chan
    (if chan ∈ consumedChannels channels tasks then [⟨false, .consume⟩] else []) bs x
  rw [hf chan, plan, hplan, ← h₀, ← hcell chan]

section Forall

variable {Q : String → C → Prop}

def Holds (Q : String → C → Prop) (channels : Dict String C) : Prop :=
  ∀ k c, channels.get? k = some c → Q k c

theorem holds_touch {next : Option Ver} {mark : Bool} {op : ChannelOp C} {chan : String}
    (hop : ∀ b c, Q chan c → Q chan (op chan b c).1) {s : ApplyState C Ver}
    (h : Holds Q s.channels) : Holds Q (s.touch next mark op chan).1.channels := by
  unfold ApplyState.touch
  cases hc : s.channels.get? chan with
  | none => exact h
  | some c =>
    obtain ⟨r, hr⟩ : ∃ r, op chan (decide (chan ∈ s.updated)) c = r := ⟨_, rfl⟩
    have hr1 : Q chan r.1 := hr ▸ hop _ c (h chan c hc)
    have hset : Holds Q (s.channels.set chan r.1) := by
      intro k d hd
      rw [Dict.get?_set] at hd
      split at hd
      · rename_i hk
        rw [hk, ← Option.some.inj hd]
        exact hr1
      · exact h k d hd
    obtain ⟨c', e | b⟩ := r
    · simpa only [hr] using hset
    · cases b with
      | false => simpa only [hr] using hset
      | true => cases next <;> simpa only [hr] using hset

theorem holds_sweep {next : Option Ver} {mark : Bool} {op : ChannelOp C}
    (hop : ∀ k b c, Q k c → Q k (op k b c).1) (ks : List String) {s : ApplyState C Ver}
    (h : Holds Q s.channels) :
    Holds Q (sweep (ApplyState.touch next mark op) ks s).1.channels :=
  Sweep.invariant (P := fun t : ApplyState C Ver => Holds Q t.channels)
    (fun chan _ ht => holds_touch (hop chan) ht) ks h

structure Preserves (Q : String → C → Prop) (ws : List Write) : Prop where
  consume (k : String) (c : C) : Q k c → Q k (BaseChannel.consume c).1
  finish (k : String) (c : C) : Q k c → Q k (BaseChannel.finish c).1
  update (k : String) (c : C) (vs : List Value) :
    (∀ v ∈ vs, (k, v) ∈ ws) → Q k c → Q k (BaseChannel.update c vs).1

theorem holds_applyChannels {channels : Dict String C} {versions : ChannelVersions Ver}
    {next : Option Ver} {tasks : List PregelTaskWrites}
    {triggerToNodes : Dict String (List String)}
    (hq : Preserves Q (tasks.flatMap PregelTaskWrites.writes)) (h : Holds Q channels) :
    Holds Q (applyChannels channels versions next tasks triggerToNodes).1.channels := by
  have hconsume (k : String) (b : Bool) (c : C) (hc : Q k c) : Q k (ChannelOp.consume k b c).1 :=
    hq.consume k c hc
  have hfinish (k : String) (b : Bool) (c : C) (hc : Q k c) : Q k (ChannelOp.finish k b c).1 :=
    hq.finish k c hc
  have hupdate (k : String) (b : Bool) (c : C) (hc : Q k c) :
      Q k (ChannelOp.update (pendingWritesByChannel channels tasks) k b c).1 :=
    hq.update k c _ (fun _ hv => mem_getD_groupWrites hv) hc
  have hempty (k : String) (b : Bool) (c : C) (hc : Q k c) :
      Q k (ChannelOp.updateEmpty k b c).1 := by
    unfold ChannelOp.updateEmpty
    split
    · exact hq.update k c [] (fun _ hv => by cases hv) hc
    · exact hc
  refine andThen_invariant (P := fun t : ApplyState C Ver => Holds Q t.channels)
    (holds_sweep hconsume _ h) (fun s hs => ?_)
  refine andThen_invariant (P := fun t : ApplyState C Ver => Holds Q t.channels)
    (holds_sweep hupdate _ hs) (fun s hs => ?_)
  split
  · refine andThen_invariant (P := fun t : ApplyState C Ver => Holds Q t.channels)
      (holds_sweep hempty _ hs) (fun s hs => ?_)
    unfold finishPhase
    split
    · exact hs
    · exact holds_sweep hfinish _ hs
  · exact hs

theorem Preserves.sorted {tasks : List PregelTaskWrites}
    (hq : Preserves Q (tasks.flatMap PregelTaskWrites.writes)) :
    Preserves Q ((sortTasks tasks).flatMap PregelTaskWrites.writes) where
  consume := hq.consume
  finish := hq.finish
  update k c vs hv := hq.update k c vs (fun v hm => mem_writes_sortTasks.mp (hv v hm))

theorem holds_applyWrites [LinearOrder Ver] {checkpoint : Checkpoint Ver}
    {channels : Dict String C} {tasks : List PregelTaskWrites}
    {getNextVersion : Option (GetNextVersion Ver)} {triggerToNodes : Dict String (List String)}
    (hq : Preserves Q (tasks.flatMap PregelTaskWrites.writes)) (h : Holds Q channels) :
    Holds Q (applyWrites checkpoint channels tasks getNextVersion triggerToNodes).2.1 :=
  holds_applyChannels hq.sorted h

end Forall

end LangGraph

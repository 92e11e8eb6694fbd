import LangGraph.Pregel.UpdateVisible

namespace LangGraph

open Collections Transition

variable {C Ver : Type}

namespace InMemorySaver

def Unnamed (s : InMemorySaver Ver) (id : String) : Prop :=
  s.storage.get? id = none ∧
    ∀ other entry, s.storage.get? other = some entry → entry.parent ≠ some id

instance (s : InMemorySaver Ver) (id : String) : Decidable (s.Unnamed id) :=
  decidable_of_iff (s.storage.get? id = none ∧ ∀ e ∈ s.storage.items, e.2.parent ≠ some id) (by
    constructor
    · rintro ⟨hnone, hparent⟩
      exact ⟨hnone, fun other entry h => hparent (other, entry) (Dict.get?_eq_some.mp h)⟩
    · rintro ⟨hnone, hparent⟩
      exact ⟨hnone, fun e he => hparent e.1 e.2 (Dict.get?_eq_some.mpr he)⟩)

-- What is stored under the cursor, if anything is, has a smaller step.
def After (s : InMemorySaver Ver) (cursor : Option String) (step : Int) : Prop :=
  ∀ id entry, cursor = some id → s.storage.get? id = some entry → entry.metadata.step < step

structure Descending (s : InMemorySaver Ver) : Prop where
  keyed : ∀ id entry, s.storage.get? id = some entry → entry.checkpoint.id = id
  least : ∀ id entry, s.storage.get? id = some entry → -2 ≤ entry.metadata.step
  parent : ∀ id entry, s.storage.get? id = some entry → s.After entry.parent entry.metadata.step

def stepsOf (s : InMemorySaver Ver) (ids : List String) : List Int :=
  ids.filterMap (fun id => (s.storage.get? id).map (fun entry => entry.metadata.step))

section Storage

variable {s s' : InMemorySaver Ver} {cursor : Option String} {id : String} {step : Int}

theorem After.mono {step' : Int} (h : s.After cursor step) (hle : step ≤ step') :
    s.After cursor step' :=
  fun id entry hid hentry => lt_of_lt_of_le (h id entry hid hentry) hle

theorem After.congr (heq : s'.storage = s.storage) (h : s.After cursor step) :
    s'.After cursor step := by
  intro id entry hid hentry
  rw [heq] at hentry
  exact h id entry hid hentry

theorem Unnamed.congr (heq : s'.storage = s.storage) (h : s.Unnamed id) : s'.Unnamed id := by
  rw [Unnamed, heq]
  exact h

theorem Descending.congr (heq : s'.storage = s.storage) (h : s.Descending) : s'.Descending := by
  refine ⟨?_, ?_, fun id entry hentry => ?_⟩
  · rw [heq]
    exact h.keyed
  · rw [heq]
    exact h.least
  · rw [heq] at hentry
    exact (h.parent id entry hentry).congr heq

theorem Descending.ancestors (h : s.Descending) {id : String} {entry : SavedCheckpoint Ver}
    (hentry : s.storage.get? id = some entry) :
    ∃ l, s.Ancestors entry.parent l ∧
      (entry.metadata.step :: s.stepsOf l).Pairwise (· > ·) := by
  induction hn : (entry.metadata.step + 2).toNat using Nat.strong_induction_on
    generalizing id entry with
  | h n ih =>
    cases hparent : entry.parent with
    | none => exact ⟨[], rfl, List.pairwise_singleton _ _⟩
    | some older =>
      cases holder : s.storage.get? older with
      | none => exact ⟨[], holder, List.pairwise_singleton _ _⟩
      | some saved =>
        have hlt := h.parent id entry hentry older saved hparent holder
        have hleast := h.least older saved holder
        obtain ⟨l, hl, hfall⟩ := ih (saved.metadata.step + 2).toNat (by omega) holder rfl
        have hsteps : s.stepsOf (older :: l) = saved.metadata.step :: s.stepsOf l := by
          rw [stepsOf, List.filterMap_cons, holder]
          rfl
        refine ⟨older :: l, ⟨rfl, saved, holder, hl⟩, ?_⟩
        rw [hsteps]
        refine List.Pairwise.cons (fun n hn => ?_) hfall
        rcases List.mem_cons.mp hn with rfl | hrest
        · exact hlt
        · exact lt_trans (List.rel_of_pairwise_cons hfall hrest) hlt

variable [DecidableEq Ver]

theorem storage_execAll_rows {calls : List (SaverCall Ver)} (h : RowsOnly calls)
    (s : InMemorySaver Ver) : (s.execAll calls).storage = s.storage := by
  induction calls generalizing s with
  | nil => rfl
  | cons call calls ih =>
    obtain ⟨hcall, hrest⟩ := List.forall_mem_cons.mp h
    cases call with
    | put parent checkpoint metadata newVersions => exact hcall.elim
    | putWrites checkpointId writes taskId taskPath =>
      rw [execAll, List.foldl_cons]
      refine (ih hrest _).trans ?_
      cases writes <;> rfl

section Put

variable {parent : Option String} {checkpoint : Checkpoint Ver} {metadata : CheckpointMetadata}
  {newVersions : ChannelVersions Ver}

theorem get?_put (s : InMemorySaver Ver) {entry : SavedCheckpoint Ver}
    (h : (s.put parent checkpoint metadata newVersions).storage.get? id = some entry) :
    id = checkpoint.id ∧
      entry = ⟨{ checkpoint with channelValues := ∅ }, metadata, parent⟩ ∨
      id ≠ checkpoint.id ∧ s.storage.get? id = some entry := by
  rw [put, Dict.get?_set] at h
  split_ifs at h with hid
  · exact Or.inl ⟨hid, (Option.some.inj h).symm⟩
  · exact Or.inr ⟨hid, h⟩

theorem After.put (h : s.After cursor step) (hne : cursor ≠ some checkpoint.id) :
    (s.put parent checkpoint metadata newVersions).After cursor step := by
  intro id entry hid hentry
  rcases s.get?_put hentry with ⟨rfl, -⟩ | ⟨-, hold⟩
  · exact absurd hid hne
  · exact h id entry hid hold

theorem after_put_self (s : InMemorySaver Ver) (h : metadata.step < step) :
    (s.put parent checkpoint metadata newVersions).After (some checkpoint.id) step := by
  intro id entry hid hentry
  rcases s.get?_put hentry with ⟨-, rfl⟩ | ⟨hne, -⟩
  · exact h
  · exact absurd (Option.some.inj hid).symm hne

theorem Descending.put (h : s.Descending) (hnew : s.Unnamed checkpoint.id)
    (hne : parent ≠ some checkpoint.id) (hparent : s.After parent metadata.step)
    (hleast : -2 ≤ metadata.step) :
    (s.put parent checkpoint metadata newVersions).Descending := by
  refine ⟨fun id entry hentry => ?_, fun id entry hentry => ?_, fun id entry hentry => ?_⟩
  · rcases s.get?_put hentry with ⟨rfl, rfl⟩ | ⟨-, hold⟩
    · rfl
    · exact h.keyed id entry hold
  · rcases s.get?_put hentry with ⟨rfl, rfl⟩ | ⟨-, hold⟩
    · exact hleast
    · exact h.least id entry hold
  · rcases s.get?_put hentry with ⟨rfl, rfl⟩ | ⟨-, hold⟩
    · exact hparent.put hne
    · exact (h.parent id entry hold).put (hnew.2 id entry hold)

theorem Unnamed.put (h : s.Unnamed id) (hid : id ≠ checkpoint.id) (hne : parent ≠ some id) :
    (s.put parent checkpoint metadata newVersions).Unnamed id := by
  refine ⟨?_, fun other entry hentry => ?_⟩
  · rw [InMemorySaver.put, Dict.get?_set_ne _ hid]
    exact h.1
  · rcases s.get?_put hentry with ⟨rfl, rfl⟩ | ⟨-, hold⟩
    · exact hne
    · exact h.2 other entry hold

end Put

theorem after_missing {checkpointId : Option String} (h : s.getTuple checkpointId = none)
    (step : Int) : s.After checkpointId step := by
  intro id entry hid hentry
  rw [hid, getTuple_some, hentry] at h
  cases h

end Storage

section Loaded

variable [LinearOrder Ver] {s : InMemorySaver Ver}

theorem Descending.loaded (h : s.Descending) {checkpointId : Option String}
    {tuple : CheckpointTuple Ver} (ht : s.getTuple checkpointId = some tuple) :
    -2 ≤ tuple.metadata.step ∧ s.After (some tuple.checkpoint.id) (tuple.metadata.step + 1) ∧
      s.After tuple.parent (tuple.metadata.step + 1) ∧
      ∀ id, s.Unnamed id → tuple.checkpoint.id ≠ id ∧ tuple.parent ≠ some id := by
  obtain ⟨id, entry, hentry, rfl⟩ := UpdateTarget.getTuple_entry ht
  have hkeyed : entry.checkpoint.id = id := h.keyed id entry hentry
  have hgrow : entry.metadata.step < entry.metadata.step + 1 := Int.lt_succ _
  refine ⟨h.least id entry hentry, fun id' entry' hid' hentry' => ?_,
    (h.parent id entry hentry).mono (le_of_lt hgrow), fun new hnew => ⟨fun heq => ?_, ?_⟩⟩
  · have hsame : id' = id := (Option.some.inj hid').symm.trans hkeyed
    rw [hsame, hentry] at hentry'
    rw [← Option.some.inj hentry']
    exact hgrow
  · have hsame : id = new := hkeyed.symm.trans heq
    rw [hsame, hnew.1] at hentry
    cases hentry
  · exact hnew.2 id entry hentry

end Loaded

end InMemorySaver

structure Trail (Ver : Type) where
  loop : LoopConfig
  id : String
  saved : String
  config : Option String
  step : Int
  stop : Int
  last : CheckpointMetadata
  calls : List (SaverCall Ver)

namespace Trail

def exiting (t : Trail Ver) : Prop := t.loop.durability = .exit

def submit (calls : List (SaverCall Ver)) (t : Trail Ver) : Trail Ver :=
  { t with calls := t.calls ++ calls }

variable [DecidableEq Ver]

structure Holds (t : Trail Ver) (s : InMemorySaver Ver) : Prop where
  descending : (s.execAll t.calls).Descending
  least : -1 ≤ t.step
  config : (s.execAll t.calls).After t.config t.step
  exiting : t.exiting → t.id ≠ t.saved →
    -1 ≤ t.last.step ∧ t.last.step < t.step ∧
      (s.execAll t.calls).After t.config t.last.step

def Free (t : Trail Ver) (s : InMemorySaver Ver) (id : String) : Prop :=
  (s.execAll t.calls).Unnamed id ∧ t.config ≠ some id

def Rows (t t' : Trail Ver) : Prop :=
  ∃ calls : List (SaverCall Ver), RowsOnly calls ∧ t' = t.submit calls

section Rows

variable {s : InMemorySaver Ver} {t t' t'' : Trail Ver} {id : String}

omit [DecidableEq Ver] in
theorem Rows.refl (t : Trail Ver) : t.Rows t :=
  ⟨[], rowsOnly_nil, by rw [submit, List.append_nil]⟩

theorem storage_rows {calls : List (SaverCall Ver)} (h : RowsOnly calls)
    (s : InMemorySaver Ver) (t : Trail Ver) :
    (s.execAll (t.submit calls).calls).storage = (s.execAll t.calls).storage := by
  rw [submit, InMemorySaver.execAll, List.foldl_append]
  exact InMemorySaver.storage_execAll_rows h _

theorem Holds.rows (h : t.Holds s) (hrows : t.Rows t') : t'.Holds s := by
  obtain ⟨calls, hcalls, rfl⟩ := hrows
  have heq := storage_rows hcalls s t
  refine ⟨h.descending.congr heq, h.least, h.config.congr heq, fun hexit hid => ?_⟩
  obtain ⟨hleast, hlast, hafter⟩ := h.exiting hexit hid
  exact ⟨hleast, hlast, hafter.congr heq⟩

theorem Free.rows (h : t.Free s id) (hrows : t.Rows t') : t'.Free s id := by
  obtain ⟨calls, hcalls, rfl⟩ := hrows
  exact ⟨h.1.congr (storage_rows hcalls s t), h.2⟩

end Rows

section Saves

variable {s : InMemorySaver Ver} {t : Trail Ver} {id : String}

theorem execAll_concat (calls : List (SaverCall Ver)) (call : SaverCall Ver) :
    s.execAll (calls ++ [call]) = (s.execAll calls).exec call := by
  rw [InMemorySaver.execAll, List.foldl_append]
  rfl

-- In exit mode a new checkpoint is not stored yet.
theorem Holds.bump (h : t.Holds s) (id : String) {metadata : CheckpointMetadata}
    (hstep : metadata.step = t.step) :
    Holds { t with id := id, step := t.step + 1, last := metadata } s := by
  have hgrow : t.step < t.step + 1 := Int.lt_succ t.step
  refine ⟨h.descending, le_trans h.least (le_of_lt hgrow), h.config.mono (le_of_lt hgrow),
    fun _ _ => ?_⟩
  rw [hstep]
  exact ⟨h.least, hgrow, h.config⟩

theorem Holds.put (h : t.Holds s) {checkpoint : Checkpoint Ver} (hfree : t.Free s checkpoint.id)
    (hexit : ¬ t.exiting) {metadata : CheckpointMetadata} (hstep : metadata.step = t.step)
    (newVersions : ChannelVersions Ver) :
    Holds { t with
      id := checkpoint.id, config := some checkpoint.id, step := t.step + 1, last := metadata
      calls := t.calls ++ [.put t.config checkpoint metadata newVersions] } s := by
  have hleast := h.least
  have hgrow : t.step < t.step + 1 := Int.lt_succ t.step
  refine ⟨?_, le_trans hleast (le_of_lt hgrow), ?_, fun h' => absurd h' hexit⟩
  · rw [execAll_concat]
    exact h.descending.put hfree.1 hfree.2 (hstep ▸ h.config) (by omega)
  · rw [execAll_concat]
    exact InMemorySaver.after_put_self _ (hstep ▸ hgrow)

def anchored (t : Trail Ver) : Trail Ver :=
  { t with
    config := some t.saved
    calls := t.calls ++ [.put none (emptyCheckpoint t.saved) ⟨"", -2, ∅⟩ ∅] }

theorem Holds.anchored (h : t.Holds s) (hfree : t.Free s t.saved) : t.anchored.Holds s := by
  have hleast : -2 < t.step := lt_of_lt_of_le (by decide) h.least
  refine ⟨?_, h.least, ?_, fun hexit hid => ?_⟩
  · rw [Trail.anchored, execAll_concat]
    exact h.descending.put hfree.1 (fun heq => by cases heq) (fun _ _ heq => by cases heq) (le_refl (-2))
  · rw [Trail.anchored, execAll_concat]
    exact InMemorySaver.after_put_self _ hleast
  · obtain ⟨hlast, hlt, -⟩ := h.exiting hexit hid
    refine ⟨hlast, hlt, ?_⟩
    rw [Trail.anchored, execAll_concat]
    exact InMemorySaver.after_put_self _ (lt_of_lt_of_le (by decide : (-2 : Int) < -1) hlast)

theorem Free.anchored (h : t.Free s id) (hid : id ≠ t.saved) : t.anchored.Free s id := by
  refine ⟨?_, fun heq => hid (Option.some.inj heq).symm⟩
  rw [Trail.anchored, execAll_concat]
  exact h.1.put hid (fun heq => by cases heq)

theorem Holds.putLast (h : t.Holds s) (hexit : t.exiting) (hid : t.id ≠ t.saved)
    {checkpoint : Checkpoint Ver} (hfree : t.Free s checkpoint.id)
    {metadata : CheckpointMetadata} (hstep : metadata.step = t.last.step)
    (newVersions : ChannelVersions Ver) :
    (s.execAll (t.calls ++ [.put t.config checkpoint metadata newVersions])).Descending := by
  obtain ⟨hlast, -, hafter⟩ := h.exiting hexit hid
  rw [execAll_concat]
  exact h.descending.put hfree.1 hfree.2 (hstep ▸ hafter) (by omega)

end Saves

end Trail

namespace PregelLoop

def trail (l : PregelLoop C Ver) : Trail Ver :=
  ⟨l.config, l.checkpoint.id, l.checkpointIdSaved, l.checkpointConfigId, l.step, l.stop,
    l.checkpointMetadata, l.submitted⟩

section Rows

variable [BaseChannel C]

theorem trail_putWrites (g : Graph C) (taskId : String) (batch : List Write)
    (l : PregelLoop C Ver) : l.trail.Rows (l.putWrites g taskId batch).trail := by
  by_cases hne : batch = []
  · subst hne
    exact Trail.Rows.refl l.trail
  · obtain ⟨cache, hput⟩ := putWrites_spec g taskId hne l
    refine ⟨l.batchCalls g taskId batch, ?_, by rw [hput]; rfl⟩
    unfold batchCalls
    split
    · exact rowsOnly_nil
    · exact rowsOnly_single _ _ _ _

theorem trail_commit (g : Graph C) (taskId : String) (a : Attempt) (l : PregelLoop C Ver) :
    l.trail.Rows (l.commit g taskId a).trail := by
  unfold commit
  split
  · exact Trail.Rows.refl l.trail
  · exact trail_putWrites g taskId _ (l.setTaskWrites taskId _)

omit [BaseChannel C] in
theorem trail_matchCachedWrites (l : PregelLoop C Ver) : l.matchCachedWrites.trail = l.trail := by
  unfold matchCachedWrites
  split <;> rfl

theorem trail_putInput (g : Graph C) (input : Input) (l : PregelLoop C Ver) :
    l.trail.Rows (l.putInput g input).1.trail := by
  cases input with
  | none => exact Trail.Rows.refl l.trail
  | value v => exact Trail.Rows.refl l.trail
  | command c =>
    rw [putInput, putCommand]
    split_ifs
    · exact Trail.Rows.refl l.trail
    · exact Trail.Rows.refl l.trail
    · exact trail_putWrites g nullTaskId _ l

theorem trail_putDeltaInput (g : Graph C) (writes : List Write) (l : PregelLoop C Ver) :
    l.trail.Rows (l.putDeltaInput g writes).trail := by
  rw [putDeltaInput]
  split_ifs
  · exact Trail.Rows.refl l.trail
  · exact trail_putWrites g nullTaskId _ l

end Rows

section Saves

variable [BaseChannel C] [LinearOrder Ver] [OrderBot Ver] {s : InMemorySaver Ver}
  {l : PregelLoop C Ver} {next : GetNextVersion Ver} {newId : String}

theorem trail_tick (g : Graph C) (l : PregelLoop C Ver) : (l.tick g).1.trail = l.trail := by
  rw [tick]
  split_ifs
  · rfl
  · simp only
    split_ifs <;> rfl

omit [OrderBot Ver] in
theorem trail_applyNullWrites (g : Graph C) (next : GetNextVersion Ver)
    (updated : Option (Finset String)) (l : PregelLoop C Ver) :
    (l.applyNullWrites g next updated).1.trail = l.trail := by
  unfold applyNullWrites
  split <;> rfl

theorem holds_putCheckpoint (h : l.trail.Holds s) (hfree : l.trail.Free s newId)
    (source : String) : (l.putCheckpoint next newId source).trail.Holds s := by
  rw [putCheckpoint]
  split_ifs with hexit
  · exact h.bump newId rfl
  · exact h.put hfree hexit rfl _

theorem holds_resumeFirst (h : l.trail.Holds s) (hfree : l.trail.Free s newId)
    (timeTravel : Bool) : (l.resumeFirst next newId timeTravel).trail.Holds s := by
  rw [resumeFirst]
  split_ifs
  · exact holds_putCheckpoint (l := { l.markInterruptSeen with
      checkpointPendingWrites := l.markInterruptSeen.checkpointPendingWrites.filter
        (fun w => w.channel ≠ Key.interrupt) }) h hfree "fork"
  · exact h

theorem holds_inputFirst (g : Graph C) (h : l.trail.Holds s) (hfree : l.trail.Free s newId)
    (updated : Option (Finset String)) (writes : List Write) :
    (l.inputFirst g next newId updated writes).1.trail.Holds s := by
  have happly : (l.inputApplied g next updated writes).1.trail = l.trail := rfl
  rw [inputFirst_eq]
  generalize l.inputApplied g next updated writes = r at happly
  obtain ⟨m, e⟩ := r
  rw [← happly] at h hfree
  cases e with
  | error e => exact h
  | ok updated =>
    have hrows := trail_putDeltaInput g writes m
    exact holds_putCheckpoint (l := { m.putDeltaInput g writes with updatedChannels := some updated })
      (h.rows hrows) (hfree.rows hrows) "input"

theorem holds_enterInput (g : Graph C) (h : l.trail.Holds s) (hfree : l.trail.Free s newId)
    (inputKeys : InputKeys) (updated : Option (Finset String)) (input : Input) :
    (l.enterInput g inputKeys next newId updated input).1.trail.Holds s := by
  cases input with
  | none => exact h
  | command c => exact h
  | value v =>
    rw [enterInput]
    cases mapInput inputKeys v with
    | nil => exact h
    | cons w ws => exact holds_inputFirst g h hfree updated (w :: ws)

theorem holds_first (g : Graph C) (h : l.trail.Holds s) (hfree : l.trail.Free s newId)
    (inputKeys : InputKeys) (input : Input) (sameRun : Bool) (nextNull next : GetNextVersion Ver) :
    (l.first g inputKeys input sameRun nextNull next newId).1.trail.Holds s := by
  have hdrop : (l.dropResumed (l.dropTimeTravel input)).trail = l.trail := by
    rw [dropResumed]
    split_ifs <;> rfl
  have hrows := trail_putInput g input (l.dropResumed (l.dropTimeTravel input))
  rw [hdrop] at hrows
  rw [first]
  simp only
  generalize (l.dropResumed (l.dropTimeTravel input)).putInput g input = r at hrows
  obtain ⟨m, e⟩ := r
  have hm := h.rows hrows
  have hmfree := hfree.rows hrows
  cases e with
  | some e => exact hm
  | none =>
    have hnull := trail_applyNullWrites g nextNull m.storedUpdates m
    simp only [andThen]
    generalize m.applyNullWrites g nextNull m.storedUpdates = q at hnull
    obtain ⟨n, r⟩ := q
    rw [← hnull] at hm hmfree
    cases r with
    | error e => exact hm
    | ok updated =>
      simp only
      split_ifs
      · exact holds_resumeFirst hm hmfree _
      · exact holds_enterInput g hm hmfree inputKeys updated input

theorem holds_afterTick (g : Graph C) (h : l.trail.Holds s) (hfree : l.trail.Free s newId)
    (next : GetNextVersion Ver) :
    (l.afterTick g next newId).1.trail.Holds s := by
  unfold afterTick
  simp only
  split
  · exact h
  · refine holds_putCheckpoint ?_ ?_ "loop"
    · exact h
    · exact hfree

omit [LinearOrder Ver] [OrderBot Ver] in
theorem trail_putExitDeltaWrites (l : PregelLoop C Ver) :
    l.trail.Rows l.putExitDeltaWrites.trail ∨
      l.hasPersistedParent = false ∧ l.trail.anchored.Rows l.putExitDeltaWrites.trail := by
  have hrows (es : List ((Int × String) × List Write)) (anchor : String) :
      RowsOnly (es.map (fun e => (SaverCall.putWrites anchor e.2
        (exitDeltaTaskId e.1.1 e.1.2) "" : SaverCall Ver))) := by
    intro call hc
    obtain ⟨e, -, rfl⟩ := List.mem_map.mp hc
    trivial
  unfold putExitDeltaWrites
  simp only
  split
  · exact Or.inl (Trail.Rows.refl l.trail)
  · cases hp : l.hasPersistedParent with
    | true => exact Or.inl ⟨_, hrows _ _, rfl⟩
    | false => exact Or.inr ⟨rfl, _, hrows _ _, rfl⟩

theorem descending_putExitCheckpoint (h : l.trail.Holds s) (hexit : l.config.durability = .exit)
    (hfree : l.checkpoint.id ≠ l.checkpointIdSaved → l.trail.Free s l.checkpoint.id) :
    (s.execAll (l.putExitCheckpoint next).submitted).Descending := by
  rw [putExitCheckpoint]
  split_ifs with hsame
  · exact h.descending
  · refine h.putLast hexit hsame ?_ ?_ _
    · exact hfree hsame
    · rfl

theorem descending_suppressInterrupt (h : l.trail.Holds s)
    (hfree : l.config.durability = .exit →
      (l.hasPersistedParent = false → l.trail.Free s l.checkpointIdSaved) ∧
        (l.checkpoint.id ≠ l.checkpointIdSaved → l.trail.Free s l.checkpoint.id)) :
    (s.execAll (l.suppressInterrupt next).submitted).Descending := by
  rw [suppressInterrupt]
  split_ifs with hexit
  · obtain ⟨hanchor, hfree⟩ := hfree hexit
    obtain ⟨calls, configId, heq, -⟩ := putExitDeltaWrites_spec l
    have hsaves : (s.execAll
        (l.putExitDeltaWrites.putExitCheckpoint next).submitted).Descending := by
      have hsame : l.putExitDeltaWrites.checkpoint = l.checkpoint ∧
          l.putExitDeltaWrites.checkpointIdSaved = l.checkpointIdSaved ∧
          l.putExitDeltaWrites.config = l.config := by
        rw [heq]
        exact ⟨rfl, rfl, rfl⟩
      obtain ⟨hcheckpoint, hsaved, hconfig⟩ := hsame
      rcases trail_putExitDeltaWrites l with hrows | ⟨hp, hrows⟩
      · refine descending_putExitCheckpoint (h.rows hrows) (hconfig ▸ hexit) ?_
        rw [hcheckpoint, hsaved]
        exact fun hne => (hfree hne).rows hrows
      · refine descending_putExitCheckpoint ((h.anchored (hanchor hp)).rows hrows)
          (hconfig ▸ hexit) ?_
        rw [hcheckpoint, hsaved]
        exact fun hne => ((hfree hne).anchored hne).rows hrows
    have hpending : RowsOnly (l.putExitDeltaWrites.putExitCheckpoint next).pendingCalls := by
      intro call hc
      obtain ⟨id, -, rfl⟩ := List.mem_map.mp hc
      trivial
    rw [putPendingWrites, InMemorySaver.execAll, List.foldl_append]
    exact hsaves.congr (InMemorySaver.storage_execAll_rows hpending _)
  · exact h.descending

end Saves

end PregelLoop

section Filed

variable [DecidableEq Ver]

-- Calls that store at most one checkpoint, at its place in the history.
def Filed (s : InMemorySaver Ver) (newId : String) (calls : List (SaverCall Ver)) : Prop :=
  RowsOnly calls ∨ ∃ pre parent checkpoint metadata newVersions post,
    RowsOnly pre ∧ RowsOnly post ∧ checkpoint.id = newId ∧ parent ≠ some newId ∧
      s.After parent metadata.step ∧ -2 ≤ metadata.step ∧
      calls = pre ++ .put parent checkpoint metadata newVersions :: post

theorem Filed.descending {s : InMemorySaver Ver} {newId : String} {calls : List (SaverCall Ver)}
    (h : Filed s newId calls) (hs : s.Descending) (hnew : s.Unnamed newId) :
    (s.execAll calls).Descending := by
  rcases h with hrows | ⟨pre, parent, checkpoint, metadata, newVersions, post, hpre, hpost, rfl,
    hne, hafter, hleast, rfl⟩
  · exact hs.congr (InMemorySaver.storage_execAll_rows hrows s)
  · have hsame := InMemorySaver.storage_execAll_rows hpre s
    rw [InMemorySaver.execAll, List.foldl_append, List.foldl_cons]
    refine InMemorySaver.Descending.congr (InMemorySaver.storage_execAll_rows hpost _) ?_
    exact (hs.congr hsame).put (hnew.congr hsame) hne (hafter.congr hsame) hleast

end Filed

namespace UpdateTarget

variable [BaseChannel C] [LinearOrder Ver] [OrderBot Ver] {s : InMemorySaver Ver} {g : Graph C}
  {newId freshId : String} {checkpointId : Option String} {t t' : UpdateTarget C Ver}

structure Placed (s : InMemorySaver Ver) (newId : String) (t : UpdateTarget C Ver) : Prop where
  least : -2 ≤ t.step
  parent : s.After t.parent (t.step + 1)
  other : t.parent ≠ some newId
  input : t.saved = none → ∀ step, s.After t.parent step
  copied : ∀ tuple, t.saved = some tuple →
    s.After tuple.parent (t.step + 1) ∧ tuple.parent ≠ some newId

omit [OrderBot Ver] in
theorem placed_load (hs : s.Descending) (hnew : s.Unnamed newId) (hne : checkpointId ≠ some newId)
    (h : UpdateTarget.load g freshId checkpointId s = .ok t) : t.Placed s newId := by
  unfold UpdateTarget.load at h
  simp only at h
  split at h
  · cases h
  · rw [← Except.ok.inj h]
    cases htuple : s.getTuple checkpointId with
    | none =>
      have hmissing := InMemorySaver.after_missing htuple
      exact ⟨(by decide : (-2 : Int) ≤ -1), hmissing _, hne, fun _ => hmissing,
        fun _ hsome => (by cases hsome)⟩
    | some tuple =>
      obtain ⟨hleast, hafter, hparent, hother⟩ := hs.loaded htuple
      obtain ⟨hid, hold⟩ := hother newId hnew
      refine ⟨hleast, hafter, fun heq => hid (Option.some.inj heq), fun hnone => ?_,
        fun tuple' htuple' => ?_⟩
      · cases hnone
      · rw [← Option.some.inj htuple']
        exact ⟨hparent, hold⟩

omit [OrderBot Ver] in
theorem applied_frame {next : GetNextVersion Ver} {tasks : List PregelTaskWrites}
    (h : t.apply g next tasks = .ok t') : t'.saved = t.saved ∧ t'.parent = t.parent := by
  unfold UpdateTarget.apply at h
  simp only at h
  split at h
  · cases h
  · rw [← Except.ok.inj h]
    exact ⟨rfl, rfl⟩

omit [BaseChannel C] [LinearOrder Ver] [OrderBot Ver] in
theorem step_congr (h : t'.saved = t.saved) : t'.step = t.step := by
  rw [UpdateTarget.step, h, UpdateTarget.step]

omit [BaseChannel C] [LinearOrder Ver] [OrderBot Ver] in
theorem Placed.congr (h : t.Placed s newId) (hframe : t'.saved = t.saved ∧ t'.parent = t.parent) :
    t'.Placed s newId := by
  obtain ⟨hsaved, hparent⟩ := hframe
  have hstep := step_congr hsaved
  refine ⟨hstep ▸ h.least, ?_, hparent ▸ h.other, ?_, ?_⟩
  · rw [hparent, hstep]
    exact h.parent
  · rw [hsaved, hparent]
    exact h.input
  · rw [hsaved, hstep]
    exact h.copied

theorem Placed.save (h : t.Placed s newId) (source : String) (post : List (SaverCall Ver))
    {step : Int} (hafter : s.After t.parent step) (hleast : -2 ≤ step) (hpost : RowsOnly post) :
    Filed s newId (t.save newId source step :: post) :=
  Or.inr ⟨[], t.parent, _, _, _, post, rowsOnly_nil, hpost, rfl, h.other, hafter, hleast, rfl⟩

theorem filed_clear {nextNull next : GetNextVersion Ver} (h : t.Placed s newId)
    {calls : List (SaverCall Ver)} (hc : t.clear g nextNull next newId = .ok calls) :
    Filed s newId calls := by
  have hleast : -2 ≤ t.step + 1 := le_trans h.least (le_of_lt (Int.lt_succ _))
  unfold clear at hc
  cases hs : t.saved with
  | none =>
    rw [hs] at hc
    rw [← Except.ok.inj hc]
    exact h.save "update" [] h.parent hleast rowsOnly_nil
  | some saved =>
    rw [hs] at hc
    obtain ⟨t₁, h₁, hc⟩ := ok_of_bind hc
    obtain ⟨t₂, h₂, hc⟩ := ok_of_bind hc
    rw [← Except.ok.inj hc]
    have hnulled : t₁.saved = t.saved ∧ t₁.parent = t.parent := by
      unfold applyNull at h₁
      split at h₁
      · rw [← Except.ok.inj h₁]
        exact ⟨rfl, rfl⟩
      · exact applied_frame h₁
    have hplaced := (h.congr hnulled).congr (applied_frame h₂)
    have hparent : t₂.parent = t.parent := (applied_frame h₂).2.trans hnulled.2
    exact hplaced.save "update" [] (hparent ▸ h.parent) hleast rowsOnly_nil

theorem filed_asInput {inputKeys : InputKeys} {next : GetNextVersion Ver} {values : Value}
    (h : t.Placed s newId) {calls : List (SaverCall Ver)}
    (hc : t.asInput g inputKeys next newId values = .ok calls) : Filed s newId calls := by
  unfold asInput at hc
  split at hc
  · cases hc
  · obtain ⟨t₁, h₁, hc⟩ := ok_of_bind hc
    rw [← Except.ok.inj hc]
    have hplaced := h.congr (applied_frame h₁)
    refine hplaced.save "input" _ ?_ ?_ (rowsOnly_single _ _ _ _)
    · split_ifs with hsaved
      · exact hplaced.parent
      · exact hplaced.input (by simpa using hsaved) _
    · split_ifs
      · exact le_trans hplaced.least (le_of_lt (Int.lt_succ _))
      · decide

omit [LinearOrder Ver] [OrderBot Ver] in
theorem filed_copy (h : t.Placed s newId) {calls : List (SaverCall Ver)}
    (hc : t.copy newId = .ok calls) : Filed s newId calls := by
  unfold copy at hc
  cases hs : t.saved with
  | none =>
    rw [hs] at hc
    cases hc
  | some saved =>
    rw [hs] at hc
    rw [← Except.ok.inj hc]
    obtain ⟨hafter, hother⟩ := h.copied saved hs
    exact Or.inr ⟨[], saved.parent, _, _, _, [], rowsOnly_nil, rowsOnly_nil, rfl, hother, hafter,
      le_trans h.least (le_of_lt (Int.lt_succ _)), rfl⟩

omit [LinearOrder Ver] [OrderBot Ver] in
theorem step_plan (channels : Dict String C) (updated : Finset String) (step : Int)
    (saved : Option CheckpointMetadata) :
    (createCheckpointPlanForUpdateStateApi channels updated step saved).2.step = step := by
  cases saved <;> rfl

theorem filed_asNodes {next nextSnapshot : GetNextVersion Ver} (h : t.Placed s newId)
    (updates : List NodeUpdate) :
    Filed s newId (t.asNodes g next nextSnapshot newId updates).1 := by
  have hrows := rowsOnly_nodeCalls (t := t)
    (assignTaskIds g t.checkpoint.id (t.nodeTaskIds g) updates)
  unfold asNodes
  simp only
  split
  · exact Or.inl hrows
  · rename_i t₁ h₁
    have hplaced := h.congr (applied_frame h₁)
    have hcreated : ∃ checkpoint metadata newVersions, checkpoint.id = newId ∧
        metadata.step = t₁.step + 1 ∧
        t₁.saveNodes nextSnapshot newId (getUpdatedChannelsFromTasks (updates.map runTask)) =
          .put t₁.parent checkpoint metadata newVersions := by
      refine ⟨_, _, _, ?_, step_plan _ _ _ _, rfl⟩
      split <;> rfl
    obtain ⟨checkpoint, metadata, newVersions, hid, hstep, hput⟩ := hcreated
    rw [hput]
    refine Or.inr ⟨_, t₁.parent, checkpoint, metadata, newVersions, [], hrows, rowsOnly_nil, hid,
      hplaced.other, ?_, ?_, rfl⟩
    · rw [hstep]
      exact hplaced.parent
    · rw [hstep]
      exact le_trans hplaced.least (le_of_lt (Int.lt_succ _))

end UpdateTarget

section UpdateState

variable [BaseChannel C] [LinearOrder Ver] [OrderBot Ver] {s : InMemorySaver Ver}
  {newId : String} {checkpointId : Option String}

theorem filed_updateState (g : Graph C) (freshId : String) (inputKeys : InputKeys)
    (nextNull next : GetNextVersion Ver) (hs : s.Descending) (hnew : s.Unnamed newId)
    (hne : checkpointId ≠ some newId) (update : StateUpdate) :
    Filed s newId
      (updateState g inputKeys nextNull next freshId newId checkpointId update s).1 := by
  have hexcept (r : Except LoopError (List (SaverCall Ver)))
      (h : ∀ calls, r = .ok calls → Filed s newId calls) : Filed s newId (exceptCalls r).1 := by
    cases r with
    | error e => exact Or.inl rowsOnly_nil
    | ok calls => exact h calls rfl
  unfold updateState
  split
  · exact Or.inl rowsOnly_nil
  · rename_i t hload
    have hplaced := UpdateTarget.placed_load hs hnew hne hload
    cases update with
    | clear => exact hexcept _ (fun calls hc => UpdateTarget.filed_clear hplaced hc)
    | input values => exact hexcept _ (fun calls hc => UpdateTarget.filed_asInput hplaced hc)
    | copy => exact hexcept _ (fun calls hc => UpdateTarget.filed_copy hplaced hc)
    | nodes updates => exact UpdateTarget.filed_asNodes hplaced updates

end UpdateState

namespace Thread

variable [BaseChannel C] [LinearOrder Ver] [OrderBot Ver]

def Vacant (th : Thread C Ver) (id : String) : Prop :=
  th.saver.Unnamed id ∧ ∀ l, th.loop = some l → l.checkpointConfigId ≠ some id

-- A new id is one that nothing stored and nothing running refers to.
def FreshIds (th : Thread C Ver) : Event Ver → Prop
  | .first _ _ _ _ newId => th.Vacant newId
  | .afterTick _ newId => th.Vacant newId
  | .exit _ => ∀ l, th.loop = some l → l.config.durability = .exit →
      (l.hasPersistedParent = false → th.Vacant l.checkpointIdSaved) ∧
        (l.checkpoint.id ≠ l.checkpointIdSaved → th.Vacant l.checkpoint.id)
  | .updateState _ _ _ _ newId checkpointId =>
      th.saver.Unnamed newId ∧ checkpointId ≠ some newId
  | _ => True

instance (th : Thread C Ver) (id : String) : Decidable (th.Vacant id) :=
  inferInstanceAs (Decidable (_ ∧ ∀ l ∈ th.loop, l.checkpointConfigId ≠ some id))

instance (th : Thread C Ver) : (e : Event Ver) → Decidable (th.FreshIds e)
  | .first _ _ _ _ newId => inferInstanceAs (Decidable (th.Vacant newId))
  | .afterTick _ newId => inferInstanceAs (Decidable (th.Vacant newId))
  | .exit _ => inferInstanceAs (Decidable (∀ l ∈ th.loop, l.config.durability = .exit →
      (l.hasPersistedParent = false → th.Vacant l.checkpointIdSaved) ∧
        (l.checkpoint.id ≠ l.checkpointIdSaved → th.Vacant l.checkpoint.id)))
  | .updateState _ _ _ _ newId checkpointId =>
      inferInstanceAs (Decidable (th.saver.Unnamed newId ∧ checkpointId ≠ some newId))
  | .enter _ _ _ _ => isTrue trivial
  | .tick => isTrue trivial
  | .matchCachedWrites => isTrue trivial
  | .taskWrites _ _ => isTrue trivial
  | .commit _ _ => isTrue trivial
  | .putWrites _ _ => isTrue trivial

structure Lineage (th : Thread C Ver) : Prop where
  descending : th.saver.Descending
  idle : ∀ l, th.loop = some l → l.submitted = []
  loop : ∀ l, th.loop = some l → l.trail.Holds th.saver

variable {g : Graph C} {inputKeys : InputKeys} {th : Thread C Ver} {l : PregelLoop C Ver}

omit [BaseChannel C] [OrderBot Ver] in
theorem lineage_proceed (h : l.trail.Holds th.saver) : (th.proceed l).Lineage := by
  refine ⟨h.descending, fun l' hl' => ?_, fun l' hl' => ?_⟩
  · rw [← Option.some.inj hl']
  · rw [← Option.some.inj hl']
    exact ⟨h.descending, h.least, h.config, h.exiting⟩

omit [BaseChannel C] [OrderBot Ver] in
theorem lineage_close (h : (th.saver.execAll l.submitted).Descending) : (th.close l).Lineage :=
  ⟨h, fun _ hl' => (by cases hl'), fun _ hl' => (by cases hl')⟩

omit [BaseChannel C] [OrderBot Ver] in
theorem Lineage.free (h : th.Lineage) (hl : th.loop = some l) {id : String}
    (hid : th.Vacant id) : l.trail.Free th.saver id := by
  have hidle : l.trail.calls = [] := h.idle l hl
  refine ⟨?_, hid.2 l hl⟩
  rw [hidle]
  exact hid.1

omit [OrderBot Ver] in
theorem holds_enter {config : LoopConfig} {cache : Option WritesCache} {freshId : String}
    {checkpointId : Option String} {s : InMemorySaver Ver} (hs : s.Descending)
    (h : PregelLoop.enter g config cache freshId checkpointId s = .ok l) : l.trail.Holds s := by
  unfold PregelLoop.enter at h
  simp only at h
  split at h
  · cases h
  · rw [← Except.ok.inj h]
    cases htuple : s.getTuple checkpointId with
    | none =>
      exact ⟨hs, (by decide : (-1 : Int) ≤ -2 + 1), InMemorySaver.after_missing htuple _,
        fun _ hid => absurd rfl hid⟩
    | some tuple =>
      obtain ⟨hleast, hafter, -⟩ := hs.loaded htuple
      exact ⟨hs, (by omega : -1 ≤ tuple.metadata.step + 1), hafter, fun _ hid => absurd rfl hid⟩

theorem Lineage.step (h : th.Lineage) {e : Event Ver} (he : th.FreshIds e) :
    (th.step g inputKeys e).Lineage := by
  cases hl : th.loop with
  | none =>
    cases e with
    | enter config cache freshId checkpointId =>
      simp only [Thread.step, hl]
      split
      · rename_i l henter
        exact lineage_proceed (holds_enter h.descending henter)
      · exact h
    | updateState update nextNull next freshId newId checkpointId =>
      simp only [Thread.step, hl]
      obtain ⟨hnew, hne⟩ := he
      have hfiled := filed_updateState g freshId inputKeys nextNull next h.descending hnew
        hne update
      have hnone (l : PregelLoop C Ver) (calls : List (SaverCall Ver))
          (heq : (th.exec calls).loop = some l) : False := by
        rw [show (th.exec calls).loop = th.loop from rfl, hl] at heq
        cases heq
      exact ⟨hfiled.descending h.descending hnew, fun l heq => (hnone l _ heq).elim,
        fun l heq => (hnone l _ heq).elim⟩
    | _ => simpa only [Thread.step, hl] using h
  | some l =>
    have hholds := h.loop l hl
    cases e with
    | enter config cache freshId checkpointId => simpa only [Thread.step, hl] using h
    | updateState update nextNull next freshId newId checkpointId =>
      simpa only [Thread.step, hl] using h
    | first input sameRun nextNull next newId =>
      have hfirst := PregelLoop.holds_first g hholds (h.free hl he) inputKeys input sameRun
        nextNull next
      simp only [Thread.step, hl]
      split
      · rename_i heq
        rw [heq] at hfirst
        exact lineage_proceed hfirst
      · rename_i heq
        rw [heq] at hfirst
        exact lineage_close hfirst.descending
    | tick =>
      simp only [Thread.step, hl]
      exact lineage_proceed (PregelLoop.trail_tick g l ▸ hholds)
    | matchCachedWrites =>
      simp only [Thread.step, hl]
      exact lineage_proceed (PregelLoop.trail_matchCachedWrites l ▸ hholds)
    | taskWrites taskId writes =>
      simp only [Thread.step, hl]
      exact lineage_proceed (l := l.setTaskWrites taskId writes) hholds
    | commit taskId attempt =>
      simp only [Thread.step, hl]
      exact lineage_proceed (hholds.rows (PregelLoop.trail_commit g taskId attempt l))
    | putWrites taskId writes =>
      simp only [Thread.step, hl]
      exact lineage_proceed (hholds.rows (PregelLoop.trail_putWrites g taskId writes l))
    | afterTick next newId =>
      have hafter := PregelLoop.holds_afterTick g hholds (h.free hl he) next
      simp only [Thread.step, hl]
      split
      · rename_i heq
        rw [heq] at hafter
        exact lineage_proceed hafter
      · rename_i heq
        rw [heq] at hafter
        split_ifs
        · exact lineage_proceed hafter
        · exact lineage_close hafter.descending
    | exit next =>
      simp only [Thread.step, hl]
      refine lineage_close (PregelLoop.descending_suppressInterrupt hholds (fun hexit => ?_))
      obtain ⟨hanchor, hlast⟩ := he l hl hexit
      exact ⟨fun hp => h.free hl (hanchor hp), fun hne => h.free hl (hlast hne)⟩

omit [BaseChannel C] [OrderBot Ver] in
theorem lineage_fresh : (Thread.fresh : Thread C Ver).Lineage := by
  refine ⟨⟨fun id entry h => ?_, fun id entry h => ?_, fun id entry h => ?_⟩, fun l hl => ?_,
    fun l hl => ?_⟩
  · cases h
  · cases h
  · cases h
  · cases hl
  · cases hl

-- In every state of every run the history of a stored checkpoint ends, and the steps of its
-- checkpoints fall from each one to the one before it.
theorem histories_descend (g : Graph C) (inputKeys : InputKeys) (events : List (Event Ver))
    (h : EachStep (Thread.step g inputKeys) FreshIds (Thread.fresh : Thread C Ver) events) :
    Always (Thread.step g inputKeys)
      (fun th => ∀ id entry, th.saver.storage.get? id = some entry →
        ∃ l, th.saver.Ancestors entry.parent l ∧
          (entry.metadata.step :: th.saver.stepsOf l).Pairwise (· > ·))
      (Thread.fresh : Thread C Ver) events := by
  intro p hp id entry hentry
  have hstep : ∀ (th : Thread C Ver) (e : Event Ver), th.Lineage → th.FreshIds e →
      (th.step g inputKeys e).Lineage := fun _ _ hth he => hth.step he
  have hlineage := always_of_eachStep hstep events lineage_fresh h
  exact (hlineage p hp).descending.ancestors hentry

def historyGraph : Graph Channel :=
  { Graph.ofSpecs (Dict.ofList [("i", .lastValue ⟨"i", none⟩), ("o", .lastValue ⟨"o", none⟩),
      (Key.tasks, .topic ⟨false, []⟩)]) with
    nodes := Dict.ofList [("w", ⟨.single "i", ["i"], none, none, none, none, true⟩)]
    triggerToNodes := Dict.ofList [("i", ["w"])] }

def historyEvents : List (Event Nat) :=
  [.enter (LoopConfig.plain .sync) none "0" none,
    .first (.value (.int 7)) false successor successor "1", .tick,
    .commit "1w0w__pregel_pulli" ⟨[("o", .int 5)], none⟩, .afterTick successor "2",
    .exit successor, .updateState (.nodes [⟨"w", [("o", .int 3)], none⟩]) successor successor
      "f" "3" none, .enter (LoopConfig.plain .sync) none "0" (some "1"),
    .first .none false successor successor "4", .exit successor]

theorem histories_descend_fork :
    Always (Thread.step historyGraph (.single "i"))
      (fun th => ∀ id entry, th.saver.storage.get? id = some entry →
        ∃ l, th.saver.Ancestors entry.parent l ∧
          (entry.metadata.step :: th.saver.stepsOf l).Pairwise (· > ·))
      (Thread.fresh : Thread Channel Nat) historyEvents :=
  histories_descend historyGraph (.single "i") historyEvents (by decide +kernel)

end Thread

end LangGraph

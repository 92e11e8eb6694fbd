import LangGraph.Pregel.Thread
import LangGraph.Pregel.UntrackedLoop

namespace LangGraph

open Collections Transition PregelLoop

variable {Ver : Type} [LinearOrder Ver] {g : Graph Channel} {channels : Dict String Channel}

section Load

variable {saver : Option (InMemorySaver Ver)} {checkpoint : Checkpoint Ver}

theorem load_startClean (hg : g.Compiled)
    (h : channelsFromCheckpoint g.specs saver checkpoint = .ok channels)
    (hv : ValuesClean g.specs checkpoint.channelValues) :
    Holds (StartClean g.specs) channels := by
  intro k c hc hk e he v hval
  subst hk
  obtain ⟨spec, hs⟩ := hg.start
  obtain ⟨c', hhyd, hget⟩ := get?_channelsFromCheckpoint h hs
  rw [hc, Option.some.injEq] at hget
  have hplain : ¬ isDelta (Channel.ephemeralValue spec) := by
    intro hd
    cases hd
  have heq := hydrate_of_not_delta hplain hhyd
  rw [← hget, he] at heq
  have he' : e = spec.fromCheckpoint (checkpoint.channelValues.get? Key.start) :=
    Channel.ephemeralValue.inj heq
  rw [he'] at hval
  cases hb : checkpoint.channelValues.get? Key.start with
  | none => simp [hb, EphemeralValue.fromCheckpoint] at hval
  | some b =>
    have hclean := hv _ b hb
    cases b with
    | value w =>
      have hw : w = v := by simpa [hb, EphemeralValue.fromCheckpoint] using hval
      simp only [blobLeaks, Blob.parts, partLeaks_start, Bool.or_eq_false_iff] at hclean
      simpa [hw] using hclean.2
    | _ => simp [hb, EphemeralValue.fromCheckpoint] at hval

theorem load_tasksClean (hg : g.Compiled)
    (h : channelsFromCheckpoint g.specs saver checkpoint = .ok channels)
    (hv : ValuesClean g.specs checkpoint.channelValues) :
    Holds (TasksClean g.specs) channels := by
  intro k c hc hk t ht v hmem
  subst hk
  obtain ⟨spec, hs⟩ := hg.tasks
  obtain ⟨c', hhyd, hget⟩ := get?_channelsFromCheckpoint h hs
  rw [hc, Option.some.injEq] at hget
  have hplain : ¬ isDelta (Channel.topic spec) := by
    intro hd
    cases hd
  have heq := hydrate_of_not_delta hplain hhyd
  rw [← hget, ht] at heq
  have ht' : t = spec.fromCheckpoint (checkpoint.channelValues.get? Key.tasks) :=
    Channel.topic.inj heq
  rw [ht'] at hmem
  cases hb : checkpoint.channelValues.get? Key.tasks with
  | none => simp [hb, Topic.fromCheckpoint] at hmem
  | some b =>
    have hclean := hv _ b hb
    simp only [blobLeaks, partLeaks_tasks, Bool.or_eq_false_iff, List.any_eq_false] at hclean
    cases b with
    | values vs => simpa using hclean.2 v (by simpa [hb, Topic.fromCheckpoint, Blob.parts] using hmem)
    | legacyValues vs => simpa using hclean.2 v (by simpa [hb, Topic.fromCheckpoint, Blob.parts] using hmem)
    | _ => simp [hb, Topic.fromCheckpoint] at hmem

end Load

theorem valuesClean_empty {specs : Dict String Channel} : ValuesClean specs ∅ := by
  intro k b hb
  cases hb

theorem saved_values {specs : Dict String Channel} {s : InMemorySaver Ver} (hs : s.Clean specs)
    (id : Option String) (freshId : String) :
    ValuesClean specs (((s.getTuple id).map CheckpointTuple.checkpoint).getD
      (emptyCheckpoint freshId)).channelValues := by
  cases ht : s.getTuple id with
  | none => exact valuesClean_empty
  | some t => exact (hs.getTuple ht).values

theorem saved_pending {specs : Dict String Channel} {s : InMemorySaver Ver} (hs : s.Clean specs)
    (id : Option String) :
    ∀ w ∈ ((s.getTuple id).map CheckpointTuple.pendingWrites).getD [],
      writeLeaks specs w.write = false := by
  cases ht : s.getTuple id with
  | none =>
    intro w hw
    cases hw
  | some t => exact (hs.getTuple ht).pending

theorem PregelLoop.Clean.enter (hg : g.Compiled) {s : InMemorySaver Ver} (hs : s.Clean g.specs)
    {config : LoopConfig} {cache : Option WritesCache} {freshId : String} {id : Option String}
    {l : PregelLoop Channel Ver} (h : PregelLoop.enter g config cache freshId id s = .ok l) :
    l.Clean g config.durability := by
  unfold PregelLoop.enter at h
  cases hload : channelsFromCheckpoint g.specs (some s)
      (((s.getTuple id).map CheckpointTuple.checkpoint).getD (emptyCheckpoint freshId)) with
  | error e => simp [hload] at h
  | ok channels =>
    simp only [hload, Except.ok.injEq] at h
    rw [← h]
    have hvalues := saved_values hs id freshId
    refine ⟨rfl, Declared.load hload, ?_, ?_, fun _ => load_startClean hg hload hvalues,
      fun _ w hw => escapes_of_clean (saved_pending hs id w hw), callsClean_nil⟩
    · intro k hk
      cases hk
    · intro w hw
      have hnil : (if config.durability = .exit then some ([] : List ExitDeltaWrite)
          else none).getD [] = [] := by
        split
        · rfl
        · rfl
      have hw' : w ∈ (if config.durability = .exit then some ([] : List ExitDeltaWrite)
          else none).getD [] := hw
      rw [hnil] at hw'
      cases hw'

structure UpdateTarget.Clean (g : Graph Channel) (t : UpdateTarget Channel Ver) : Prop where
  declared : Declared g.specs t.channels
  start : Holds (StartClean g.specs) t.channels
  tasks : Holds (TasksClean g.specs) t.channels
  pending : ∀ w ∈ t.pendingWrites, writeLeaks g.specs w.write = false

namespace UpdateTarget

variable [OrderBot Ver] {t : UpdateTarget Channel Ver}

omit [OrderBot Ver] in
theorem Clean.apply (h : t.Clean g) {next : GetNextVersion Ver} {tasks : List PregelTaskWrites}
    (hw : ∀ w ∈ tasks.flatMap PregelTaskWrites.writes, valueLeaks g.specs w = false)
    {t' : UpdateTarget Channel Ver} (ht : t.apply g next tasks = .ok t') : t'.Clean g := by
  have hstart (v : Value) (hv : (Key.start, v) ∈ tasks.flatMap PregelTaskWrites.writes) :
      carriesUntracked g.specs v = false := by
    rw [← valueLeaks_start]
    exact hw _ hv
  unfold UpdateTarget.apply at ht
  simp only at ht
  split at ht
  · cases ht
  · rw [← Except.ok.inj ht]
    exact ⟨h.declared.applyWrites _ _ _ _, holds_applyWrites (preserves_start hstart) h.start,
      holds_applyWrites (preserves_tasks (fun v hv => hw _ hv)) h.tasks, h.pending⟩

theorem Clean.save (hg : g.Compiled) (h : t.Clean g) (newId source : String) (step : Int) :
    (t.save newId source step).leaks g.specs = false := by
  rw [UpdateTarget.save, put_clean_iff]
  refine checkpointValues_clean hg (fun k hk => ?_) h.declared h.start h.tasks _
  cases hk

theorem mem_finishedTasks {w : Write}
    (h : w ∈ (t.finishedTasks g).flatMap PregelTaskWrites.writes) :
    ∃ p ∈ t.pendingWrites, p.write = w := by
  obtain ⟨task, htask, hw⟩ := List.mem_flatMap.mp h
  obtain ⟨task', htask', rfl⟩ := List.mem_map.mp htask
  obtain ⟨id, hid⟩ := Dict.mem_values.mp htask'
  rw [Dict.get?_mapValues, Option.map_eq_some_iff] at hid
  obtain ⟨base, hbase, rfl⟩ := hid
  have hnil : base.writes = [] :=
    Graph.writes_prepareNextTasks (Dict.mem_values.mpr ⟨id, hbase⟩)
  have hmem : w ∈ base.writes ++ (taskWritesOf base.id t.pendingWrites).filter
      (fun w => w.1 ≠ Key.error ∧ w.1 ≠ Key.interrupt) := hw
  rw [hnil, List.nil_append] at hmem
  exact mem_taskWritesOf (List.mem_filter.mp hmem).1

omit [LinearOrder Ver] [OrderBot Ver] in
theorem mem_nullTasks {w : Write} (h : w ∈ t.nullTasks.flatMap PregelTaskWrites.writes) :
    ∃ p ∈ t.pendingWrites, p.write = w := by
  unfold nullTasks at h
  split at h
  · cases h
  · have hw : w ∈ taskWritesOf nullTaskId t.pendingWrites := by simpa using h
    exact mem_taskWritesOf hw

theorem valueLeaks_of_writeLeaks {specs : Dict String Channel} {w : Write}
    (h : writeLeaks specs w = false) : valueLeaks specs w = false := by
  rw [writeLeaks, Bool.or_eq_false_iff] at h
  exact h.2

theorem Clean.clear (hg : g.Compiled) (h : t.Clean g) {nextNull next : GetNextVersion Ver}
    {newId : String} {calls : List (SaverCall Ver)}
    (hc : t.clear g nextNull next newId = .ok calls) : CallsClean g.specs calls := by
  have hsingle {t' : UpdateTarget Channel Ver} (ht' : t'.Clean g) (step : Int) :
      CallsClean g.specs [t'.save newId "update" step] := by
    intro c hmem
    rw [List.mem_singleton.mp hmem]
    exact ht'.save hg _ _ _
  have hpending (ws : List Write) (hws : ∀ w ∈ ws, ∃ p ∈ t.pendingWrites, p.write = w) :
      ∀ w ∈ ws, valueLeaks g.specs w = false := by
    intro w hw
    obtain ⟨p, hp, rfl⟩ := hws w hw
    exact valueLeaks_of_writeLeaks (h.pending p hp)
  have hfinished := hpending ((t.finishedTasks g).flatMap PregelTaskWrites.writes)
    (fun w hw => mem_finishedTasks hw)
  have hnull := hpending (t.nullTasks.flatMap PregelTaskWrites.writes)
    (fun w hw => mem_nullTasks hw)
  unfold UpdateTarget.clear at hc
  cases hs : t.saved with
  | none =>
    rw [hs] at hc
    rw [← Except.ok.inj hc]
    exact hsingle h _
  | some saved =>
    rw [hs] at hc
    obtain ⟨t₁, h₁, hc⟩ := ok_of_bind hc
    obtain ⟨t₂, h₂, hc⟩ := ok_of_bind hc
    have hclean₁ : t₁.Clean g := by
      unfold applyNull at h₁
      split at h₁
      · rw [← Except.ok.inj h₁]
        exact h
      · exact h.apply hnull h₁
    rw [← Except.ok.inj hc]
    exact hsingle (hclean₁.apply hfinished h₂) _

theorem Clean.asInput (hg : g.Compiled) (h : t.Clean g) {inputKeys : InputKeys}
    {next : GetNextVersion Ver} {newId : String} {values : Value} {calls : List (SaverCall Ver)}
    (hw : ∀ w ∈ mapInput inputKeys values, writeLeaks g.specs w = false)
    (hc : t.asInput g inputKeys next newId values = .ok calls) : CallsClean g.specs calls := by
  unfold UpdateTarget.asInput at hc
  split at hc
  · cases hc
  · obtain ⟨t', happly, hc⟩ := ok_of_bind hc
    have hvalues : ∀ w ∈ [(⟨[], Key.input, mapInput inputKeys values, []⟩ :
        PregelTaskWrites)].flatMap PregelTaskWrites.writes, valueLeaks g.specs w = false := by
      intro w hmem
      exact valueLeaks_of_writeLeaks (hw w (by simpa using hmem))
    rw [← Except.ok.inj hc]
    intro c hmem
    rcases List.mem_cons.mp hmem with rfl | hmem
    · exact (h.apply hvalues happly).save hg _ _ _
    · rw [List.mem_singleton.mp hmem, putWrites_clean_iff]
      exact hw

omit [LinearOrder Ver] [OrderBot Ver] in
theorem Clean.copy {newId : String} {calls : List (SaverCall Ver)}
    (hv : ValuesClean g.specs t.checkpoint.channelValues)
    (hc : t.copy newId = .ok calls) : CallsClean g.specs calls := by
  unfold UpdateTarget.copy at hc
  split at hc
  · cases hc
  · rw [← Except.ok.inj hc]
    intro c hmem
    rw [List.mem_singleton.mp hmem, put_clean_iff]
    exact hv

theorem deltaOnly_plan (h : Declared g.specs channels) (updated : Finset String) (step : Int)
    (saved : Option CheckpointMetadata) :
    DeltaOnly g.specs (createCheckpointPlanForUpdateStateApi channels updated step saved).1 := by
  cases saved with
  | some saved => exact deltaOnly_snapshot h _
  | none =>
    intro k hk
    have hk' : k ∈ (channels.filter
        (fun _ ch => decide (isDelta ch) && BaseChannel.isAvailable ch)).keys :=
      List.mem_toFinset.mp hk
    obtain ⟨c, hc, hp⟩ := Dict.mem_keys_filter.mp hk'
    rw [Bool.and_eq_true, decide_eq_true_eq] at hp
    exact (deltaKey_of_kind (h.kinds k c hc)).mpr hp.1

theorem Clean.saveNodes (hg : g.Compiled) (h : t.Clean g) (next : GetNextVersion Ver)
    (newId : String) (updated : Finset String) :
    (t.saveNodes next newId updated).leaks g.specs = false := by
  unfold UpdateTarget.saveNodes
  rw [put_clean_iff]
  split
  · refine checkpointValues_clean hg (fun k hk => ?_) h.declared h.start h.tasks _
    cases hk
  · exact checkpointValues_clean hg (deltaOnly_plan h.declared _ _ _) h.declared h.start h.tasks _

theorem mem_assignTaskIds {checkpointId : String} {ids : Dict String (List String)}
    {updates : List NodeUpdate} {u : String × NodeUpdate}
    (h : u ∈ assignTaskIds g checkpointId ids updates) : u.2 ∈ updates := by
  induction updates generalizing ids with
  | nil => cases h
  | cons v updates ih =>
    rcases List.mem_cons.mp h with rfl | h
    · exact List.mem_cons_self
    · exact List.mem_cons_of_mem v (ih h)

omit [LinearOrder Ver] [OrderBot Ver] in
theorem nodeCalls_clean (t : UpdateTarget Channel Ver) (updates : List (String × NodeUpdate))
    (hw : t.saved.isSome = true → ∀ u ∈ updates, ∀ w ∈ u.2.writes,
      writeLeaks g.specs w = false) : CallsClean g.specs (t.nodeCalls updates) := by
  unfold nodeCalls
  cases hs : t.saved with
  | none => exact callsClean_nil
  | some saved =>
    intro c hc
    obtain ⟨u, hu, hsome⟩ := List.mem_filterMap.mp hc
    split at hsome
    · cases hsome
    · rw [← Option.some.inj hsome, putWrites_clean_iff]
      intro w hmem
      exact hw (hs ▸ rfl) u hu w (List.mem_filter.mp hmem).1

theorem Clean.asNodes (hg : g.Compiled) (h : t.Clean g) {next nextSnapshot : GetNextVersion Ver}
    {newId : String} {updates : List NodeUpdate}
    (hv : ∀ u ∈ updates, ∀ w ∈ u.writes, valueLeaks g.specs w = false)
    (hw : t.saved.isSome = true → ∀ u ∈ updates, ∀ w ∈ u.writes, writeLeaks g.specs w = false) :
    CallsClean g.specs (t.asNodes g next nextSnapshot newId updates).1 := by
  have hcalls := t.nodeCalls_clean (assignTaskIds g t.checkpoint.id (t.nodeTaskIds g) updates)
    (fun hs u hu w hmem => hw hs u.2 (mem_assignTaskIds hu) w hmem)
  have hvalues : ∀ w ∈ (updates.map runTask).flatMap PregelTaskWrites.writes,
      valueLeaks g.specs w = false := by
    intro w hmem
    obtain ⟨task, htask, hw⟩ := List.mem_flatMap.mp hmem
    obtain ⟨u, hu, rfl⟩ := List.mem_map.mp htask
    exact hv u hu w hw
  unfold UpdateTarget.asNodes
  simp only
  split
  · exact hcalls
  · rename_i t' happly
    refine callsClean_append.mpr ⟨hcalls, fun c hc => ?_⟩
    rw [List.mem_singleton.mp hc]
    exact (h.apply hvalues happly).saveNodes hg _ _ _

omit [OrderBot Ver] in
theorem load_clean (hg : g.Compiled) {s : InMemorySaver Ver} (hs : s.Clean g.specs)
    {freshId : String} {id : Option String} (h : UpdateTarget.load g freshId id s = .ok t) :
    t.Clean g ∧ ValuesClean g.specs t.checkpoint.channelValues ∧ t.saved = s.getTuple id := by
  have hvalues := saved_values hs id freshId
  unfold UpdateTarget.load at h
  simp only at h
  split at h
  · cases h
  · rename_i channels hload
    rw [← Except.ok.inj h]
    exact ⟨⟨Declared.load hload, load_startClean hg hload hvalues,
      load_tasksClean hg hload hvalues, saved_pending hs id⟩, hvalues, rfl⟩

end UpdateTarget

def StateUpdate.contained (specs : Dict String Channel) (inputKeys : InputKeys) (stored : Bool) :
    StateUpdate → Bool
  | .input values => (mapInput inputKeys values).all (fun w => !writeLeaks specs w)
  | .nodes updates => updates.all (fun u => u.writes.all (fun w =>
      !valueLeaks specs w && (!stored || !untrackedKey specs w.1)))
  | _ => true

omit [LinearOrder Ver] in
theorem exceptCalls_clean {specs : Dict String Channel}
    {r : Except LoopError (List (SaverCall Ver))}
    (h : ∀ calls, r = .ok calls → CallsClean specs calls) : CallsClean specs (exceptCalls r).1 := by
  cases r with
  | error e => exact callsClean_nil
  | ok calls => exact h calls rfl

theorem updateState_clean [OrderBot Ver] (hg : g.Compiled) {s : InMemorySaver Ver}
    (hs : s.Clean g.specs) {inputKeys : InputKeys} (nextNull next : GetNextVersion Ver)
    (freshId newId : String) (id : Option String) {update : StateUpdate}
    (hu : update.contained g.specs inputKeys (s.getTuple id).isSome = true) :
    CallsClean g.specs (updateState g inputKeys nextNull next freshId newId id update s).1 := by
  unfold updateState
  split
  · exact callsClean_nil
  · rename_i t hload
    obtain ⟨ht, hvalues, hsaved⟩ := UpdateTarget.load_clean hg hs hload
    cases update with
    | clear => exact exceptCalls_clean (fun calls hc => ht.clear hg hc)
    | copy => exact exceptCalls_clean (fun calls hc => UpdateTarget.Clean.copy hvalues hc)
    | input values =>
      have hw : ∀ w ∈ mapInput inputKeys values, writeLeaks g.specs w = false := by
        simpa [StateUpdate.contained] using hu
      exact exceptCalls_clean (fun calls hc => ht.asInput hg hw hc)
    | nodes updates =>
      have hw : ∀ u ∈ updates, ∀ w ∈ u.writes, valueLeaks g.specs w = false ∧
          ((s.getTuple id).isSome = true → untrackedKey g.specs w.1 = false) := by
        intro u hmem w hwmem
        have h := List.all_eq_true.mp (List.all_eq_true.mp hu u hmem) w hwmem
        cases hstored : (s.getTuple id).isSome <;> simp_all
      refine ht.asNodes hg (fun u hmem w hwmem => (hw u hmem w hwmem).1)
        (fun hstored u hmem w hwmem => ?_)
      obtain ⟨hv, hkey⟩ := hw u hmem w hwmem
      rw [writeLeaks, hv, hkey (hsaved ▸ hstored)]
      rfl

namespace PregelLoop

def startClean (specs : Dict String Channel) (l : PregelLoop Channel Ver) : Bool :=
  ((l.channels.get? Key.start).bind Channel.get).all (fun v => !carriesUntracked specs v)

def flushContained (specs : Dict String Channel) (l : PregelLoop Channel Ver) : Bool :=
  l.checkpointPendingWrites.all (fun w => !writeLeaks specs w.write) &&
    (l.checkpoint.id = l.checkpointIdSaved || l.startClean specs)

def writesContained (specs : Dict String Channel) (writes : List Write)
    (l : PregelLoop Channel Ver) : Bool :=
  l.config.durability = .exit || writes.all (fun w => !escapes specs w)

def tasksContained (specs : Dict String Channel) (l : PregelLoop Channel Ver) : Bool :=
  l.config.durability = .exit ||
    (l.liveTasks.flatMap PregelTask.writes).all
      (fun w => w.1 ≠ Key.start || !carriesUntracked specs w.2)

omit [LinearOrder Ver] in
theorem holds_start {specs : Dict String Channel} {l : PregelLoop Channel Ver}
    (h : l.startClean specs = true) : Holds (StartClean specs) l.channels := by
  intro k c hc hk e he v hv
  subst hk
  subst he
  have hget : Channel.get (.ephemeralValue e) = some v := hv
  simpa [startClean, hc, hget] using h

end PregelLoop

theorem escapes_savedWrites {specs : Dict String Channel} {name : String} {a : Attempt}
    (h : ∀ w ∈ a.writes, escapes specs w = false) :
    ∀ w ∈ a.savedWrites g name, escapes specs w = false := by
  have hcontrol (k : String) (v : Value) (hs : k ≠ Key.start) (ht : k ≠ Key.tasks) :
      escapes specs (k, v) = false := by
    simp [escapes, hs, ht]
  have hno := hcontrol Key.noWrites Value.none (by decide) (by decide)
  have herr (exc : Value) := hcontrol Key.error exc (by decide) (by decide)
  have hsource := hcontrol Key.errorSourceNode (.str name) (by decide) (by decide)
  have hint (v : Value) := hcontrol Key.interrupt v (by decide) (by decide)
  intro w hw
  unfold Attempt.savedWrites Attempt.taskWrites at hw
  rcases hr : a.raised with _ | (exc | exc | interrupts | _)
  · grind
  · grind
  · grind
  · grind
  · grind

omit [LinearOrder Ver] in
theorem PregelLoop.Clean.commit {d : Durability} {l : PregelLoop Channel Ver} (h : l.Clean g d)
    {taskId : String} {a : Attempt}
    (ha : d ≠ .exit → ∀ w ∈ a.writes, escapes g.specs w = false) :
    (l.commit g taskId a).Clean g d := by
  unfold PregelLoop.commit
  split
  · exact h
  · exact (h.retask _).putWrites (fun hd => escapes_savedWrites (ha hd))

namespace Thread

variable [OrderBot Ver]

def contained (g : Graph Channel) (inputKeys : InputKeys) (t : Thread Channel Ver)
    (e : Event Ver) : Bool :=
  match e, t.loop with
  | .putWrites _ writes, some l => l.writesContained g.specs writes
  | .commit _ attempt, some l => l.writesContained g.specs attempt.writes
  | .first input _ _ _ _, some l => l.writesContained g.specs (input.writes inputKeys)
  | .afterTick _ _, some l => l.tasksContained g.specs
  | .exit _, some l => l.config.durability ≠ .exit || l.flushContained g.specs
  | .updateState update _ _ _ _ id, none =>
      update.contained g.specs inputKeys (t.saver.getTuple id).isSome
  | _, _ => true

def LogClean (g : Graph Channel) (t : Thread Channel Ver) : Prop := CallsClean g.specs t.log

instance (g : Graph Channel) (t : Thread Channel Ver) : Decidable (t.LogClean g) :=
  inferInstanceAs (Decidable (∀ c ∈ t.log, c.leaks g.specs = false))

structure Sealed (g : Graph Channel) (t : Thread Channel Ver) : Prop where
  log : t.LogClean g
  saver : t.saver.Clean g.specs
  loop : ∀ l, t.loop = some l → ∃ d, l.Clean g d

omit [OrderBot Ver] in
theorem Sealed.exec {t : Thread Channel Ver} (h : t.Sealed g) {calls : List (SaverCall Ver)}
    (hc : CallsClean g.specs calls) : (t.exec calls).Sealed g :=
  ⟨callsClean_append.mpr ⟨h.log, hc⟩, h.saver.execAll hc, h.loop⟩

omit [OrderBot Ver] in
theorem Sealed.proceed {t : Thread Channel Ver} (h : t.Sealed g) {d : Durability}
    {l : PregelLoop Channel Ver} (hl : l.Clean g d) : (t.proceed l).Sealed g := by
  have hexec := h.exec hl.submitted
  refine ⟨hexec.log, hexec.saver, fun m hm => ?_⟩
  rw [← Option.some.inj hm]
  exact ⟨d, hl.durability, hl.declared, hl.overwrites, hl.exitWrites, hl.start, hl.pending,
    callsClean_nil⟩

omit [OrderBot Ver] in
theorem Sealed.close {t : Thread Channel Ver} (h : t.Sealed g) {d : Durability}
    {l : PregelLoop Channel Ver} (hl : l.Clean g d) : (t.close l).Sealed g := by
  have hexec := h.exec hl.submitted
  refine ⟨hexec.log, hexec.saver, fun m hm => ?_⟩
  cases hm

omit [LinearOrder Ver] [OrderBot Ver] in
theorem escapes_of_contained {specs : Dict String Channel} {writes : List Write} {d : Durability}
    {l : PregelLoop Channel Ver} (hd : l.config.durability = d)
    (h : l.writesContained specs writes = true) :
    d ≠ .exit → ∀ w ∈ writes, escapes specs w = false := by
  intro hne
  simpa [writesContained, hd, hne] using h

omit [OrderBot Ver] in
theorem sealed_fresh : (Thread.fresh : Thread Channel Ver).Sealed g := by
  refine ⟨callsClean_nil, ⟨fun id e he => ?_, fun k ver b hb => ?_⟩, fun l hl => ?_⟩
  · cases he
  · cases hb
  · cases hl

theorem step_sealed (hg : g.Compiled) {inputKeys : InputKeys} (t : Thread Channel Ver)
    (e : Event Ver) (h : t.Sealed g) (he : t.contained g inputKeys e = true) :
    (t.step g inputKeys e).Sealed g := by
  cases hloop : t.loop with
  | none =>
    cases e with
    | enter config cache freshId id =>
      simp only [Thread.step, hloop]
      split
      · rename_i l hl
        exact h.proceed (PregelLoop.Clean.enter hg h.saver hl)
      · exact h
    | updateState update nextNull next freshId newId id =>
      simp only [Thread.contained, hloop] at he
      simp only [Thread.step, hloop]
      exact h.exec (updateState_clean hg h.saver nextNull next freshId newId id he)
    | _ => simpa only [Thread.step, hloop] using h
  | some l =>
    obtain ⟨d, hl⟩ := h.loop l hloop
    cases e with
    | enter config cache freshId id => simpa only [Thread.step, hloop] using h
    | updateState update nextNull next freshId newId id =>
      simpa only [Thread.step, hloop] using h
    | first input sameRun nextNull next newId =>
      simp only [Thread.contained, hloop] at he
      have hclean := @PregelLoop.Clean.first _ _ _ _ _ hg _ hl inputKeys input sameRun nextNull next
        newId (escapes_of_contained hl.durability he)
      simp only [Thread.step, hloop]
      split
      · rename_i m hm
        exact h.proceed (hm ▸ hclean)
      · rename_i m err hm
        exact h.close (hm ▸ hclean)
    | tick =>
      simp only [Thread.step, hloop]
      refine h.proceed (d := d) ?_
      unfold PregelLoop.tick
      split
      · exact hl
      · simp only
        split
        · exact hl.retask _
        · split
          · exact hl.retask _
          · exact hl.retask _
    | matchCachedWrites =>
      simp only [Thread.step, hloop]
      refine h.proceed (d := d) ?_
      unfold PregelLoop.matchCachedWrites
      split
      · exact hl.retask _
      · exact hl
    | taskWrites taskId writes =>
      simp only [Thread.step, hloop]
      exact h.proceed (hl.retask _)
    | putWrites taskId writes =>
      simp only [Thread.contained, hloop] at he
      simp only [Thread.step, hloop]
      exact h.proceed (hl.putWrites (escapes_of_contained hl.durability he))
    | commit taskId attempt =>
      simp only [Thread.contained, hloop] at he
      simp only [Thread.step, hloop]
      exact h.proceed (hl.commit (escapes_of_contained hl.durability he))
    | afterTick next newId =>
      simp only [Thread.contained, hloop] at he
      simp only [Thread.step, hloop]
      have hticked : (l.afterTick g next newId).1.Clean g d := by
        refine hl.afterTick hg next newId (fun hd task htask v hv => ?_)
        have hall : ∀ t ∈ l.liveTasks, ∀ k v, (k, v) ∈ t.writes →
            ¬ k = Key.start ∨ carriesUntracked g.specs v = false := by
          simpa [tasksContained, hl.durability, hd] using he
        exact (hall task htask Key.start v hv).resolve_left (not_not.mpr rfl)
      revert hticked
      obtain ⟨l', raised⟩ := l.afterTick g next newId
      intro hticked
      cases raised with
      | none => exact h.proceed hticked
      | some error =>
        simp only
        split
        · exact h.proceed hticked
        · exact h.close hticked
    | exit next =>
      simp only [Thread.contained, hloop] at he
      simp only [Thread.step, hloop]
      have hflush (hd : d = .exit) : l.flushContained g.specs = true := by
        simpa [hl.durability, hd] using he
      refine h.close (hl.suppressInterrupt hg next (fun hd hid => ?_) (fun hd w hw => ?_))
      · have hstart := hflush hd
        simp only [flushContained, Bool.and_eq_true, Bool.or_eq_true, decide_eq_true_eq] at hstart
        exact holds_start (hstart.2.resolve_left hid)
      · have hpending := hflush hd
        simp only [flushContained, Bool.and_eq_true, List.all_eq_true] at hpending
        simpa using hpending.1 w hw

section Runs

def secretGraph : Graph Channel :=
  Graph.ofSpecs (Dict.ofList
    [("a", .lastValue ⟨"a", none⟩), ("u", .untrackedValue ⟨"u", true, none⟩),
      (Key.tasks, .topic ⟨false, []⟩), (Key.start, .ephemeralValue ⟨Key.start, true, none⟩)])

theorem secretGraph_compiled : secretGraph.Compiled :=
  ⟨⟨⟨false, []⟩, rfl⟩, ⟨⟨Key.start, true, none⟩, rfl⟩⟩

end Runs

end Thread

end LangGraph

import LangGraph.Pregel.Declared
import LangGraph.Pregel.PendingWrites

namespace LangGraph

open Collections

section Leaks

variable (specs : Dict String Channel)

def carriesUntracked : Value → Bool
  | .dict items => items.any (fun i => untrackedKey specs i.1)
  | _ => false

def sendLeaks : Value → Bool
  | .send _ arg => carriesUntracked specs arg
  | _ => false

def partLeaks (k : String) (v : Value) : Bool :=
  (k = Key.tasks && sendLeaks specs v) || (k = Key.start && carriesUntracked specs v)

def carried (k : String) (v : Value) : List Value := if k = Key.tasks then flatten [v] else [v]

def valueLeaks (w : Write) : Bool := (carried w.1 w.2).any (partLeaks specs w.1)

def writeLeaks (w : Write) : Bool := untrackedKey specs w.1 || valueLeaks specs w

def Blob.parts : Blob → List Value
  | .value v | .finished v _ | .deltaSnapshot v => [v]
  | .values vs | .legacyValues vs => vs
  | .seen _ | .seenFinished _ _ => []

def blobLeaks (k : String) (b : Blob) : Bool :=
  untrackedKey specs k || b.parts.any (partLeaks specs k)

def SaverCall.leaks {Ver : Type} : SaverCall Ver → Bool
  | .put _ checkpoint _ _ => checkpoint.channelValues.items.any (fun e => blobLeaks specs e.1 e.2)
  | .putWrites _ writes _ _ => writes.any (writeLeaks specs)

-- What the sanitiser of `put_writes` does not look into.
def escapes (w : Write) : Bool :=
  (w.1 = Key.start && carriesUntracked specs w.2) ||
    (w.1 = Key.tasks &&
      match w.2 with
      | .list vs => vs.any (sendLeaks specs)
      | _ => false)

end Leaks

structure Graph.Compiled (g : Graph Channel) : Prop where
  tasks : ∃ t, g.specs.get? Key.tasks = some (.topic t)
  start : ∃ e, g.specs.get? Key.start = some (.ephemeralValue e)

variable {specs channels : Dict String Channel} {Ver : Type}

theorem untrackedKey_eq (h : KindsAgree specs channels) (k : String) :
    untrackedKey channels k = untrackedKey specs k := by
  have hk := congrArg (Option.map (fun kind => decide (kind = ChannelKind.untrackedValue))) (h k)
  rw [Option.map_map, Option.map_map] at hk
  exact congrArg (fun o => Option.getD o false) hk

theorem untrackedKey_of_any (h : anyUntracked channels = false) (k : String) :
    untrackedKey channels k = false := by
  rw [untrackedKey]
  cases hc : channels.get? k with
  | none => rfl
  | some c =>
    have hmem : c ∈ channels.values := Dict.mem_values.mpr ⟨k, hc⟩
    have hno := List.any_eq_false.mp h c hmem
    simpa using hno

theorem carries_of_tracked (h : ∀ k, untrackedKey specs k = false) (v : Value) :
    carriesUntracked specs v = false := by
  cases v with
  | dict items => simp [carriesUntracked, h]
  | _ => rfl

theorem sendLeaks_of_tracked (h : ∀ k, untrackedKey specs k = false) (v : Value) :
    sendLeaks specs v = false := by
  cases v with
  | send node arg => exact carries_of_tracked h arg
  | _ => rfl

theorem partLeaks_of_tracked (h : ∀ k, untrackedKey specs k = false) (k : String) (v : Value) :
    partLeaks specs k v = false := by
  simp [partLeaks, carries_of_tracked h, sendLeaks_of_tracked h]

theorem writeLeaks_of_tracked (h : ∀ k, untrackedKey specs k = false) (w : Write) :
    writeLeaks specs w = false := by
  simp [writeLeaks, valueLeaks, h, partLeaks_of_tracked h]

theorem sendLeaks_sanitized (h : KindsAgree specs channels) (v : Value) :
    sendLeaks specs (sanitizeUntrackedValuesInSend channels v) = false := by
  rcases v with _ | _ | _ | ⟨node, _ | _ | items | _ | _⟩ | _
  case send.dict =>
    simp only [sanitizeUntrackedValuesInSend, sendLeaks, carriesUntracked, List.any_eq_false]
    intro i hi
    have hkeep := (List.mem_filter.mp hi).2
    rw [untrackedKey_eq h] at hkeep
    simpa using hkeep
  all_goals rfl

theorem flatten_single (v : Value) :
    flatten [v] = match v with
      | .list vs => vs
      | v => [v] := by
  cases v <;> simp [flatten]

theorem start_ne_tasks : Key.start ≠ Key.tasks := by decide

theorem partLeaks_start : partLeaks specs Key.start = carriesUntracked specs := by
  funext v
  simp [partLeaks, start_ne_tasks]

theorem partLeaks_tasks : partLeaks specs Key.tasks = sendLeaks specs := by
  funext v
  simp [partLeaks, start_ne_tasks.symm]

theorem partLeaks_of_ne {k : String} (ht : k ≠ Key.tasks) (hs : k ≠ Key.start) (v : Value) :
    partLeaks specs k v = false := by
  simp [partLeaks, ht, hs]

theorem valueLeaks_of_ne {w : Write} (ht : w.1 ≠ Key.tasks) (hs : w.1 ≠ Key.start) :
    valueLeaks specs w = false := by
  simp [valueLeaks, carried, partLeaks_of_ne ht hs]

theorem valueLeaks_start (v : Value) :
    valueLeaks specs (Key.start, v) = carriesUntracked specs v := by
  simp [valueLeaks, carried, partLeaks_start, start_ne_tasks]

theorem valueLeaks_tasks (v : Value) :
    valueLeaks specs (Key.tasks, v) = (flatten [v]).any (sendLeaks specs) := by
  simp [valueLeaks, carried, partLeaks_tasks]

theorem escapes_start (v : Value) :
    escapes specs (Key.start, v) = carriesUntracked specs v := by
  simp [escapes, start_ne_tasks]

theorem escapes_list (vs : List Value) :
    escapes specs (Key.tasks, .list vs) = vs.any (sendLeaks specs) := by
  simp [escapes, start_ne_tasks.symm]

theorem sanitizeWrite_clean (h : KindsAgree specs channels) {w : Write}
    (hw : escapes specs w = false) : valueLeaks specs (sanitizeWrite channels w) = false := by
  obtain ⟨k, v⟩ := w
  by_cases ht : k = Key.tasks
  · subst ht
    simp only [sanitizeWrite, if_true, valueLeaks_tasks]
    cases v with
    | list vs =>
      rw [escapes_list] at hw
      simpa [sanitizeUntrackedValuesInSend, flatten_single] using hw
    | send node arg =>
      have hclean := sendLeaks_sanitized h (.send node arg)
      cases arg <;> simpa [sanitizeUntrackedValuesInSend, flatten_single] using hclean
    | _ => rfl
  · by_cases hs : k = Key.start
    · subst hs
      rw [escapes_start] at hw
      rwa [sanitizeWrite, if_neg ht, valueLeaks_start]
    · simp only [sanitizeWrite, if_neg ht]
      exact valueLeaks_of_ne ht hs

theorem sanitizeWrites_clean (h : KindsAgree specs channels) {ws : List Write}
    (hws : ∀ w ∈ ws, escapes specs w = false) :
    ∀ w ∈ sanitizeWrites specs channels ws, writeLeaks specs w = false := by
  intro w hw
  rw [sanitizeWrites] at hw
  cases ha : anyUntracked channels with
  | false =>
    have htracked (k : String) : untrackedKey specs k = false := by
      rw [← untrackedKey_eq h]
      exact untrackedKey_of_any ha k
    exact writeLeaks_of_tracked htracked w
  | true =>
    rw [if_pos ha] at hw
    obtain ⟨v, hv, rfl⟩ := List.mem_map.mp hw
    obtain ⟨hmem, hkey⟩ := List.mem_filter.mp hv
    have hclean := sanitizeWrite_clean h (hws v hmem)
    have hfst := sanitizeWrite_fst channels v
    rw [writeLeaks, hclean, hfst]
    simpa using hkey

def StartClean (specs : Dict String Channel) (k : String) (c : Channel) : Prop :=
  k = Key.start → ∀ e, c = .ephemeralValue e → ∀ v, e.value = some v →
    carriesUntracked specs v = false

def TasksClean (specs : Dict String Channel) (k : String) (c : Channel) : Prop :=
  k = Key.tasks → ∀ t, c = .topic t → ∀ v ∈ t.values, sendLeaks specs v = false

theorem preserves_start {ws : List Write}
    (hws : ∀ v, (Key.start, v) ∈ ws → carriesUntracked specs v = false) :
    Preserves (StartClean specs) ws where
  consume k c h hk e he := by
    cases c with
    | ephemeralValue c => exact h hk e he
    | lastValueAfterFinish c => cases he
    | namedBarrierValue c => cases he
    | namedBarrierValueAfterFinish c => cases he
    | _ => cases he
  finish k c h hk e he := by
    cases c with
    | ephemeralValue c => exact h hk e he
    | _ => cases he
  update k c vs hvs h hk e he v hv := by
    subst hk
    cases c with
    | ephemeralValue c =>
      have he' : e = (c.update vs).1 := (Channel.ephemeralValue.inj he).symm
      rw [he'] at hv
      rcases EphemeralValue.value_update hv with hold | hnew
      · exact h rfl c rfl v hold
      · exact hws v (hvs v hnew)
    | _ => cases he

theorem preserves_tasks {ws : List Write}
    (hws : ∀ v, (Key.tasks, v) ∈ ws → valueLeaks specs (Key.tasks, v) = false) :
    Preserves (TasksClean specs) ws where
  consume k c h hk t ht := by
    cases c with
    | topic c => exact h hk t ht
    | _ => cases ht
  finish k c h hk t ht := by
    cases c with
    | topic c => exact h hk t ht
    | _ => cases ht
  update k c vs hvs h hk t ht v hv := by
    subst hk
    cases c with
    | topic c =>
      have ht' : t = (c.update vs).1 := (Channel.topic.inj ht).symm
      rw [ht'] at hv
      rcases Topic.mem_update hv with hold | hnew
      · exact h rfl c rfl v hold
      · obtain ⟨x, hx, hmem⟩ := mem_flatten hnew
        have hclean := hws x (hvs x hx)
        rw [valueLeaks_tasks, List.any_eq_false] at hclean
        simpa using hclean v hmem
    | _ => cases ht

theorem kind_tasks {g : Graph Channel} (hg : g.Compiled) {c : Channel}
    (h : HasKind g.specs Key.tasks c) : ∃ t, c = .topic t := by
  obtain ⟨t, ht⟩ := hg.tasks
  obtain ⟨spec, hs, hk⟩ := h
  rw [ht, Option.some.injEq] at hs
  subst hs
  exact Channel.topic_of_kind hk

theorem kind_start {g : Graph Channel} (hg : g.Compiled) {c : Channel}
    (h : HasKind g.specs Key.start c) : ∃ e, c = .ephemeralValue e := by
  obtain ⟨e, he⟩ := hg.start
  obtain ⟨spec, hs, hk⟩ := h
  rw [he, Option.some.injEq] at hs
  subst hs
  exact Channel.ephemeral_of_kind hk

theorem checkpointValue_clean {g : Graph Channel} (hg : g.Compiled) {snapshot : Finset String}
    (hsnap : DeltaOnly g.specs snapshot) {k : String} {c : Channel} (hkind : HasKind g.specs k c)
    (hstart : StartClean g.specs k c) (htasks : TasksClean g.specs k c) {b : Blob}
    (hb : checkpointValue snapshot k c = some b) : blobLeaks g.specs k b = false := by
  have hkey : untrackedKey g.specs k = false := by
    cases hu : untrackedKey g.specs k with
    | false => rfl
    | true =>
      obtain ⟨u, rfl⟩ := Channel.untracked_of_kind ((untrackedKey_of_kind hkind).mp hu)
      rw [checkpointValue] at hb
      split at hb
      · rename_i hk
        have hdelta := (deltaKey_of_kind hkind).mp (hsnap k hk)
        cases hdelta
      · cases hb
  have hparts : b.parts.any (partLeaks g.specs k) = false := by
    rw [List.any_eq_false]
    intro v hv
    by_cases ht : k = Key.tasks
    · subst ht
      obtain ⟨t, rfl⟩ := kind_tasks hg hkind
      have hno : Key.tasks ∉ snapshot := by
        intro hk
        have hdelta := (deltaKey_of_kind hkind).mp (hsnap _ hk)
        cases hdelta
      rw [checkpointValue, if_neg hno] at hb
      cases hb
      rw [partLeaks_tasks]
      simpa using htasks rfl t rfl v hv
    · by_cases hs : k = Key.start
      · subst hs
        obtain ⟨e, rfl⟩ := kind_start hg hkind
        have hno : Key.start ∉ snapshot := by
          intro hk
          have hdelta := (deltaKey_of_kind hkind).mp (hsnap _ hk)
          cases hdelta
        rw [checkpointValue, if_neg hno] at hb
        obtain ⟨w, hw, rfl⟩ := Option.map_eq_some_iff.mp hb
        rw [partLeaks_start, List.mem_singleton.mp hv]
        simpa using hstart rfl e rfl w hw
      · simp [partLeaks_of_ne ht hs]
  rw [blobLeaks, hkey, hparts]
  rfl

theorem get?_checkpointValues {versions : ChannelVersions Ver} {snapshot : Finset String}
    {k : String} {b : Blob} (h : (checkpointValues channels versions snapshot).get? k = some b) :
    ∃ c, channels.get? k = some c ∧ checkpointValue snapshot k c = some b := by
  rw [checkpointValues, Dict.get?_filterMap, Option.bind_eq_some_iff] at h
  obtain ⟨c, hc, hb⟩ := h
  split at hb
  · exact ⟨c, hc, hb⟩
  · cases hb

def ValuesClean (specs : Dict String Channel) (values : Dict String Blob) : Prop :=
  ∀ k b, values.get? k = some b → blobLeaks specs k b = false

theorem checkpointValues_clean {g : Graph Channel} (hg : g.Compiled)
    {snapshot : Finset String} (hsnap : DeltaOnly g.specs snapshot)
    (hd : Declared g.specs channels) (hstart : Holds (StartClean g.specs) channels)
    (htasks : Holds (TasksClean g.specs) channels) (versions : ChannelVersions Ver) :
    ValuesClean g.specs (checkpointValues channels versions snapshot) := by
  intro k b hb
  obtain ⟨c, hc, hv⟩ := get?_checkpointValues hb
  exact checkpointValue_clean hg hsnap (hd.kinds k c hc) (hstart k c hc) (htasks k c hc) hv

theorem tasks_values {g : Graph Channel} (hg : g.Compiled) {snapshot : Finset String}
    (hsnap : DeltaOnly g.specs snapshot) (hd : Declared g.specs channels)
    {versions : ChannelVersions Ver} {b : Blob}
    (hb : (checkpointValues channels versions snapshot).get? Key.tasks = some b) :
    ∃ vs, b = .values vs := by
  obtain ⟨c, hc, hv⟩ := get?_checkpointValues hb
  have hkind := hd.kinds _ c hc
  obtain ⟨t, rfl⟩ := kind_tasks hg hkind
  have hno : Key.tasks ∉ snapshot := by
    intro hk
    have hdelta := (deltaKey_of_kind hkind).mp (hsnap _ hk)
    cases hdelta
  rw [checkpointValue, if_neg hno] at hv
  exact ⟨t.values, (Option.some.inj hv).symm⟩

theorem blobLeaks_of_tracked (h : ∀ k, untrackedKey specs k = false) (k : String) (b : Blob) :
    blobLeaks specs k b = false := by
  simp [blobLeaks, h, partLeaks_of_tracked h]

theorem tasks_tracked {g : Graph Channel} (hg : g.Compiled) :
    untrackedKey g.specs Key.tasks = false := by
  obtain ⟨t, ht⟩ := hg.tasks
  simp only [untrackedKey, ht, Option.map_some, Option.getD_some, decide_eq_false_iff_not]
  intro h
  cases h

theorem sanitizeTasks_clean {g : Graph Channel} (hg : g.Compiled) {snapshot : Finset String}
    (hsnap : DeltaOnly g.specs snapshot) (hd : Declared g.specs channels)
    (hstart : Holds (StartClean g.specs) channels) (versions : ChannelVersions Ver) :
    ValuesClean g.specs
      (sanitizeTasks channels (checkpointValues channels versions snapshot)) := by
  intro k b hb
  have hother (hk : k ≠ Key.tasks)
      (hb : (checkpointValues channels versions snapshot).get? k = some b) :
      blobLeaks g.specs k b = false := by
    obtain ⟨c, hc, hv⟩ := get?_checkpointValues hb
    exact checkpointValue_clean hg hsnap (hd.kinds k c hc) (hstart k c hc)
      (fun e => absurd e hk) hv
  cases ha : anyUntracked channels with
  | false =>
    have htracked (k : String) : untrackedKey g.specs k = false := by
      rw [← untrackedKey_eq hd.agree]
      exact untrackedKey_of_any ha k
    exact blobLeaks_of_tracked htracked k b
  | true =>
    rw [sanitizeTasks, if_pos ha] at hb
    cases hv : (checkpointValues channels versions snapshot).get? Key.tasks with
    | none =>
      simp only [hv] at hb
      have hk : k ≠ Key.tasks := by
        rintro rfl
        rw [hv] at hb
        cases hb
      exact hother hk hb
    | some stored =>
      obtain ⟨vs, rfl⟩ := tasks_values hg hsnap hd hv
      simp only [hv, Dict.get?_set] at hb
      split at hb
      · rename_i hk
        subst hk
        have hclean (v : Value) (hmem : v ∈ vs.map (sanitizeUntrackedValuesInSend channels)) :
            sendLeaks g.specs v = false := by
          obtain ⟨w, -, rfl⟩ := List.mem_map.mp hmem
          exact sendLeaks_sanitized hd.agree w
        have hnone : (vs.map (sanitizeUntrackedValuesInSend channels)).any
            (sendLeaks g.specs) = false := by
          rw [List.any_eq_false]
          intro v hmem
          simp [hclean v hmem]
        rw [← Option.some.inj hb, blobLeaks, tasks_tracked hg, partLeaks_tasks]
        exact hnone
      · rename_i hk
        exact hother hk hb

end LangGraph

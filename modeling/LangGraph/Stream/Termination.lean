import LangGraph.Stream.Mux
import LangGraph.Transition.Run

namespace LangGraph

open Transition

namespace Stream

variable {ε : Type}

-- `reported`: the pump said the run is exhausted; `raised`: an error of the finalization.
structure Terminates (mux : StreamMux ε) (reported : Bool) (raised : Option ε) : Prop where
  ended : reported = true → mux.events.closed = true ∧ ∀ ch ∈ mux.channels, ch.closed = true
  once : ∀ t ∈ mux.transformers, t.finalized + t.failed ≤ 1
  reaches : ∀ e, raised = some e → mux.events.atEnd true = .raises e ∧
    ∀ ch ∈ mux.channels, ch.own = false → ch.atEnd true = .raises e

namespace StreamMux

variable {m : StreamMux ε}

structure Opened (m : StreamMux ε) : Prop where
  closed : m.events.closed = false
  error : m.events.error = none

structure Fresh (m : StreamMux ε) : Prop where
  opened : m.Opened
  unused : ∀ t ∈ m.transformers, t.finalized = 0 ∧ t.failed = 0

structure Ended (m : StreamMux ε) : Prop where
  closed : m.events.closed = true
  channels : ∀ ch ∈ m.channels, ch.closed = true
  once : ∀ t ∈ m.transformers, t.finalized + t.failed ≤ 1

-- The hooks of the transformers before `k` have run, one each.
structure Ran (k : Nat) (m : StreamMux ε) : Prop where
  opened : m.Opened
  once : ∀ t ∈ m.transformers, t.finalized + t.failed ≤ 1
  unused : ∀ i t, m.transformers[i]? = some t → k ≤ i → t.finalized = 0 ∧ t.failed = 0

theorem fresh_init (channels transformers : Nat) :
    (init channels transformers : StreamMux ε).Fresh where
  opened := ⟨rfl, rfl⟩
  unused t ht := by
    rw [List.eq_of_mem_replicate ht]
    exact ⟨rfl, rfl⟩

theorem Fresh.ran (h : m.Fresh) : m.Ran 0 where
  opened := h.opened
  once t ht := by
    obtain ⟨hfinalized, hfailed⟩ := h.unused t ht
    omega
  unused i t hget _ := h.unused t (List.mem_of_getElem? hget)

theorem Ran.modify {k : Nat} {hook : StreamTransformer → StreamTransformer} (h : m.Ran k)
    (hhook : ∀ t, (hook t).finalized + (hook t).failed = t.finalized + t.failed + 1) :
    ({ m with transformers := m.transformers.modify k hook }).Ran (k + 1) where
  opened := ⟨h.opened.closed, h.opened.error⟩
  once t ht := by
    obtain ⟨i, hget⟩ := List.mem_iff_getElem?.mp ht
    rw [List.getElem?_modify] at hget
    obtain ⟨t', hget', heq⟩ := Option.map_eq_some_iff.mp hget
    rcases eq_or_ne k i with rfl | hne
    · obtain ⟨hfinalized, hfailed⟩ := h.unused k t' hget' (Nat.le_refl k)
      have heq : hook t' = t := by simpa using heq
      have hcount := hhook t'
      rw [heq] at hcount
      omega
    · have heq : t' = t := by simpa [hne] using heq
      rw [← heq]
      exact h.once t' (List.mem_of_getElem? hget')
  unused i t hget hle := by
    rw [List.getElem?_modify] at hget
    obtain ⟨t', hget', heq⟩ := Option.map_eq_some_iff.mp hget
    have hne : k ≠ i := by omega
    have heq : t' = t := by simpa [hne] using heq
    rw [← heq]
    exact h.unused i t' hget' (by omega)

theorem once_map {hook : StreamTransformer → StreamTransformer} (h : m.Fresh)
    (hhook : ∀ t, (hook t).finalized + (hook t).failed = t.finalized + t.failed + 1) :
    ∀ t ∈ m.transformers.map hook, t.finalized + t.failed ≤ 1 := by
  intro t ht
  obtain ⟨t', ht', rfl⟩ := List.mem_map.mp ht
  obtain ⟨hfinalized, hfailed⟩ := h.unused t' ht'
  have hcount := hhook t'
  omega

theorem finalize_count (t : StreamTransformer) :
    t.finalize.finalized + t.finalize.failed = t.finalized + t.failed + 1 := by
  simp only [StreamTransformer.finalize]
  omega

theorem fail_count (t : StreamTransformer) :
    t.fail.finalized + t.fail.failed = t.finalized + t.failed + 1 := by
  simp only [StreamTransformer.fail]
  omega

theorem ended_closeChannels (h : ∀ t ∈ m.transformers, t.finalized + t.failed ≤ 1) :
    m.closeChannels.Ended where
  closed := rfl
  channels ch hch := by
    obtain ⟨ch', -, rfl⟩ := List.mem_map.mp hch
    split
    · assumption
    · rfl
  once := h

theorem ended_failChannels {e : ε} (h : ∀ t ∈ m.transformers, t.finalized + t.failed ≤ 1) :
    (m.failChannels e).Ended where
  closed := rfl
  channels ch hch := by
    obtain ⟨ch', -, rfl⟩ := List.mem_map.mp hch
    split
    · assumption
    · rfl
  once := h

theorem ended_afailChannels {e : ε} (h : ∀ t ∈ m.transformers, t.finalized + t.failed ≤ 1) :
    (m.afailChannels e).Ended where
  closed := by
    simp only [afailChannels]
    split
    · assumption
    · rfl
  channels := (ended_failChannels h).channels
  once := h

theorem closed_settle (err : Option ε) (ch : StreamChannel ε) :
    (ch.settle err).closed = true := by
  cases err <;> rfl

theorem Ended.settle (h : m.Ended) (i : Nat) (err : Option ε) : (m.settle i err).Ended where
  closed := h.closed
  channels ch hch := by
    obtain ⟨j, hget⟩ := List.mem_iff_getElem?.mp hch
    simp only [StreamMux.settle, List.getElem?_modify] at hget
    obtain ⟨ch', hget', rfl⟩ := Option.map_eq_some_iff.mp hget
    split
    · exact closed_settle err ch'
    · exact h.channels ch' (List.mem_of_getElem? hget')
  once := h.once

theorem Ended.terminates (h : m.Ended) (reported : Bool) : Terminates m reported none where
  ended _ := ⟨h.closed, h.channels⟩
  once := h.once
  reaches e he := by cases he

theorem terminates_unreported (h : ∀ t ∈ m.transformers, t.finalized + t.failed ≤ 1) :
    Terminates m false none where
  ended hreported := by cases hreported
  once := h
  reaches e he := by cases he

theorem Fresh.terminates (h : m.Fresh) : Terminates m false none :=
  terminates_unreported h.ran.once

theorem not_terminates_open (h : m.events.closed = false) (raised : Option ε) :
    ¬ Terminates m true raised := by
  intro ht
  rw [(ht.ended rfl).1] at h
  cases h

theorem not_terminates_lost (h : m.events.error = none) {reported : Bool} {e : ε} :
    ¬ Terminates m reported (some e) := by
  intro ht
  have hend := (ht.reaches e rfl).1
  simp only [StreamChannel.atEnd, h] at hend
  split at hend <;> cases hend

end StreamMux

namespace GraphRunStream

variable {s : GraphRunStream ε}

def Good (s : GraphRunStream ε) : Prop := Terminates s.mux s.reported s.raised

-- No transformer's `finalize` raises when the graph has ended.
def Quiet (s : GraphRunStream ε) : RunEvent ε → Prop
  | .pump .stop finals =>
      s.exhausted = false → ∀ k, k < s.mux.transformers.length → finals k = none
  | _ => True

structure Tracked (s : GraphRunStream ε) : Prop where
  raised : s.raised = none
  running : s.exhausted = false → s.mux.Fresh ∧ s.reported = false
  ended : s.exhausted = true → s.mux.Ended

theorem tracked_init (channels transformers : Nat) :
    (init channels transformers : GraphRunStream ε).Tracked where
  raised := rfl
  running _ := ⟨StreamMux.fresh_init channels transformers, rfl⟩
  ended h := by cases h

theorem Tracked.good (h : s.Tracked) : s.Good := by
  simp only [Good, h.raised]
  cases he : s.exhausted with
  | false =>
    obtain ⟨hfresh, hreported⟩ := h.running he
    rw [hreported]
    exact hfresh.terminates
  | true => exact (h.ended he).terminates s.reported

theorem firstError_none {m : StreamMux ε} {finals : Nat → Option ε} :
    m.firstError finals = none ↔ ∀ k, k < m.transformers.length → finals k = none := by
  simp [StreamMux.firstError, List.findSome?_eq_none_iff]

theorem pumpNext_exhausted {pull : Pull ε} {finals : Nat → Option ε} (he : s.exhausted = true) :
    s.pumpNext pull finals = { s with reported := true } :=
  if_pos he

theorem pumpNext_stop {finals : Nat → Option ε} (he : s.exhausted = false) :
    s.pumpNext .stop finals = s.finishClose (s.mux.close finals) := by
  simp [pumpNext, he]

theorem tracked_ended {mux : StreamMux ε} (h : mux.Ended) :
    (⟨mux, true, true, none⟩ : GraphRunStream ε).Tracked where
  raised := rfl
  running he := by cases he
  ended _ := h

theorem Tracked.pumpNext {pull : Pull ε} {finals : Nat → Option ε} (h : s.Tracked)
    (hok : s.Quiet (.pump pull finals)) : (s.pumpNext pull finals).Tracked := by
  cases he : s.exhausted with
  | true =>
    rw [pumpNext_exhausted he, he, h.raised]
    exact tracked_ended (h.ended he)
  | false =>
    have hfresh : s.mux.Fresh := (h.running he).1
    cases pull with
    | part => simpa [GraphRunStream.pumpNext, he] using h
    | stop =>
      have hnone : s.mux.firstError finals = none := firstError_none.mpr (hok he)
      simp only [pumpNext_stop he, StreamMux.close, hnone, finishClose, h.raised]
      exact tracked_ended
        (StreamMux.ended_closeChannels (StreamMux.once_map hfresh StreamMux.finalize_count))
    | raised e exception =>
      cases exception with
      | false => simpa [GraphRunStream.pumpNext, he] using h
      | true =>
        simp only [GraphRunStream.pumpNext, he, h.raised, Bool.false_eq_true, if_false]
        exact tracked_ended
          (StreamMux.ended_failChannels (StreamMux.once_map hfresh StreamMux.fail_count))

theorem Tracked.settle (h : s.Tracked) (i : Nat) (err : Option ε) :
    ({ s with mux := s.mux.settle i err }).Tracked where
  raised := h.raised
  running he := by
    obtain ⟨hfresh, hreported⟩ := h.running he
    exact ⟨⟨⟨hfresh.opened.closed, hfresh.opened.error⟩, hfresh.unused⟩, hreported⟩
  ended he := (h.ended he).settle i err

theorem Tracked.step (e : RunEvent ε) (h : s.Tracked) (hok : s.Quiet e) : (s.step e).Tracked := by
  cases e with
  | pump pull finals => exact h.pumpNext hok
  | settle i err => exact h.settle i err

theorem quiet_of_good (e : RunEvent ε) (h : s.Tracked) (hgood : (s.step e).Good) : s.Quiet e := by
  cases e with
  | settle i err => trivial
  | pump pull finals =>
    cases pull with
    | part => trivial
    | raised e exception => trivial
    | stop =>
      intro he
      have hopened : s.mux.Opened := (h.running he).1.opened
      refine firstError_none.mp ?_
      cases hfirst : s.mux.firstError finals with
      | none => rfl
      | some e =>
        simp only [GraphRunStream.step, pumpNext_stop he, StreamMux.close, hfirst,
          finishClose] at hgood
        refine absurd hgood (StreamMux.not_terminates_lost ?_)
        exact hopened.error

theorem terminates_iff (channels transformers : Nat) (es : List (RunEvent ε)) :
    Always GraphRunStream.step Good (init channels transformers) es ↔
      EachStep GraphRunStream.step Quiet (init channels transformers) es :=
  have hinit : (init channels transformers : GraphRunStream ε).Tracked :=
    tracked_init channels transformers
  @always_iff_eachStep _ _ GraphRunStream.step Tracked Good Quiet
    (fun _ e h _ => ⟨quiet_of_good e h, fun hok => (h.step e hok).good⟩)
    (fun _ e h _ hgood => h.step e (quiet_of_good e h hgood)) es _ hinit hinit.good

end GraphRunStream

namespace AsyncGraphRunStream

variable {s : AsyncGraphRunStream ε}

def Good (s : AsyncGraphRunStream ε) : Prop := Terminates s.mux s.reported s.raised

-- No consumer asks for more or wakes up while the run is being closed or failed, no scheduled
-- task joined by the closing raises, and when the last `afinalize` returns none has raised.
def Quiet (s : AsyncGraphRunStream ε) : AsyncRunEvent ε → Prop
  | .ask => s.exhausted = true → s.phase.isIdle = true
  | .wake => 0 < s.woken → s.exhausted = true → s.phase.isIdle = true
  | .joined err => s.phase = .joining → err = none
  | .finalized err => ∀ k first, s.phase = .finalizing k first →
      s.mux.transformers.length ≤ k + 1 → first = none ∧ err = none
  | _ => True

def Stage (mux : StreamMux ε) (exhausted reported : Bool) : PumpPhase ε → Prop
  | .idle => (exhausted = true ∧ mux.Ended) ∨ (exhausted = false ∧ reported = false ∧ mux.Fresh)
  | .pulling => exhausted = false ∧ reported = false ∧ mux.Fresh
  | .joining => exhausted = true ∧ reported = false ∧ mux.Fresh
  | .cancelling _ => exhausted = true ∧ reported = false ∧ mux.Fresh
  | .finalizing k _ => exhausted = true ∧ reported = false ∧ mux.Ran k
  | .failing k _ => exhausted = true ∧ reported = false ∧ mux.Ran k

structure Tracked (s : AsyncGraphRunStream ε) : Prop where
  raised : s.raised = none
  stage : Stage s.mux s.exhausted s.reported s.phase

theorem tracked_init (channels transformers : Nat) :
    (init channels transformers : AsyncGraphRunStream ε).Tracked where
  raised := rfl
  stage := .inr ⟨rfl, rfl, StreamMux.fresh_init channels transformers⟩

-- Before the run has ended nothing has been reported and the main log is open.
theorem Stage.cases {mux : StreamMux ε} {exhausted reported : Bool} {phase : PumpPhase ε}
    (h : Stage mux exhausted reported phase) :
    (exhausted = true ∧ phase.isIdle = true ∧ mux.Ended) ∨
      (reported = false ∧ ∃ k, mux.Ran k) := by
  cases phase with
  | idle =>
    rcases h with ⟨hexhausted, hended⟩ | ⟨-, hreported, hfresh⟩
    · exact .inl ⟨hexhausted, rfl, hended⟩
    · exact .inr ⟨hreported, 0, hfresh.ran⟩
  | pulling => exact .inr ⟨h.2.1, 0, h.2.2.ran⟩
  | joining => exact .inr ⟨h.2.1, 0, h.2.2.ran⟩
  | cancelling e => exact .inr ⟨h.2.1, 0, h.2.2.ran⟩
  | finalizing k first => exact .inr ⟨h.2.1, k, h.2.2⟩
  | failing k e => exact .inr ⟨h.2.1, k, h.2.2⟩

theorem Tracked.good (h : s.Tracked) : s.Good := by
  simp only [Good, h.raised]
  rcases h.stage.cases with ⟨-, -, hended⟩ | ⟨hreported, k, hran⟩
  · exact hended.terminates s.reported
  · rw [hreported]
    exact StreamMux.terminates_unreported hran.once

theorem Tracked.running (h : s.Tracked) (he : s.exhausted = false) :
    s.reported = false ∧ s.mux.Fresh := by
  have hstage := h.stage
  rw [he] at hstage
  cases hp : s.phase <;> rw [hp] at hstage <;> simp [Stage] at hstage <;> exact hstage

theorem tracked_finalizeFrom {k : Nat} {first : Option ε} (hraised : s.raised = none)
    (he : s.exhausted = true) (hreported : s.reported = false) (hran : s.mux.Ran k)
    (hfirst : s.mux.transformers.length ≤ k → first = none) : (s.finalizeFrom k first).Tracked := by
  simp only [finalizeFrom]
  split
  · exact ⟨hraised, he, hreported, hran⟩
  · rename_i hle
    rw [hfirst (by omega)]
    exact ⟨hraised, .inl ⟨he, StreamMux.ended_closeChannels hran.once⟩⟩

theorem tracked_failFrom {k : Nat} {e : ε} (hraised : s.raised = none)
    (he : s.exhausted = true) (hreported : s.reported = false) (hran : s.mux.Ran k) :
    (s.failFrom k e).Tracked := by
  simp only [failFrom]
  split
  · exact ⟨hraised, he, hreported, hran⟩
  · exact ⟨hraised, .inl ⟨he, StreamMux.ended_afailChannels hran.once⟩⟩

theorem phase_idle {phase : PumpPhase ε} (h : phase.isIdle = true) : phase = .idle := by
  cases phase <;> first | rfl | cases h

theorem Tracked.ended (h : s.Tracked) (he : s.exhausted = true) (hidle : s.phase.isIdle = true) :
    s.mux.Ended := by
  have hstage := h.stage
  rw [phase_idle hidle] at hstage
  rcases hstage with ⟨-, hended⟩ | ⟨hnot, -⟩
  · exact hended
  · rw [he] at hnot
    cases hnot

theorem tracked_over (hraised : s.raised = none) (he : s.exhausted = true)
    (hidle : s.phase.isIdle = true) (hended : s.mux.Ended) : s.Tracked := by
  refine ⟨hraised, ?_⟩
  rw [phase_idle hidle]
  exact .inl ⟨he, hended⟩

theorem Tracked.opened (h : s.Tracked) (hbusy : ¬ s.phase.isIdle = true) :
    s.reported = false ∧ ∃ k, s.mux.Ran k := by
  rcases h.stage.cases with ⟨-, hidle, -⟩ | hrunning
  · exact absurd hidle hbusy
  · exact hrunning

theorem Tracked.ask (h : s.Tracked) (hok : s.Quiet .ask) : s.ask.Tracked := by
  simp only [AsyncGraphRunStream.ask]
  split
  · rename_i he
    exact tracked_over h.raised he (hok he) (h.ended he (hok he))
  · rename_i he
    have he : s.exhausted = false := Bool.eq_false_iff.mpr he
    obtain ⟨hreported, hfresh⟩ := h.running he
    split
    · exact ⟨h.raised, he, hreported, hfresh⟩
    · exact ⟨h.raised, h.stage⟩

theorem Tracked.wake (h : s.Tracked) (hok : s.Quiet .wake) : s.wake.Tracked := by
  simp only [AsyncGraphRunStream.wake]
  split
  · rename_i hwoken
    rcases eq_or_ne s.exhausted true with he | he
    · exact tracked_over h.raised he (hok hwoken he) (h.ended he (hok hwoken he))
    · have hstage := h.stage
      exact ⟨h.raised, by simpa [Bool.eq_false_iff.mpr he] using hstage⟩
  · exact h

theorem Tracked.pulled (h : s.Tracked) (pull : Pull ε) : (s.pulled pull).Tracked := by
  cases hp : s.phase with
  | pulling =>
    have hstage := h.stage
    rw [hp] at hstage
    obtain ⟨he, hreported, hfresh⟩ := hstage
    have hrelease : s.release.Tracked := ⟨h.raised, .inr ⟨he, hreported, hfresh⟩⟩
    cases pull with
    | part => simpa [AsyncGraphRunStream.pulled, hp] using hrelease
    | stop =>
      simp only [AsyncGraphRunStream.pulled, hp, aclose]
      split
      · exact ⟨h.raised, rfl, hreported, hfresh⟩
      · exact tracked_finalizeFrom h.raised rfl hreported hfresh.ran fun _ => rfl
    | raised e exception =>
      cases exception with
      | false => simpa [AsyncGraphRunStream.pulled, hp] using hrelease
      | true =>
        simp only [AsyncGraphRunStream.pulled, hp, afail]
        split
        · exact ⟨h.raised, rfl, hreported, hfresh⟩
        · exact tracked_failFrom h.raised rfl hreported hfresh.ran
  | _ => simpa [AsyncGraphRunStream.pulled, hp] using h

theorem Tracked.joined (h : s.Tracked) {err : Option ε} (hok : s.Quiet (.joined err)) :
    (s.joined err).Tracked := by
  cases hp : s.phase with
  | joining =>
    have hstage := h.stage
    rw [hp] at hstage
    obtain ⟨he, hreported, hfresh⟩ := hstage
    rw [hok hp]
    simp only [AsyncGraphRunStream.joined, hp]
    exact tracked_finalizeFrom h.raised he hreported hfresh.ran fun _ => rfl
  | _ => simpa [AsyncGraphRunStream.joined, hp] using h

theorem Tracked.finalized (h : s.Tracked) {err : Option ε} (hok : s.Quiet (.finalized err)) :
    (s.finalized err).Tracked := by
  cases hp : s.phase with
  | finalizing k first =>
    have hstage := h.stage
    rw [hp] at hstage
    obtain ⟨he, hreported, hran⟩ := hstage
    simp only [AsyncGraphRunStream.finalized, hp]
    refine tracked_finalizeFrom h.raised he hreported (hran.modify StreamMux.finalize_count) ?_
    intro hle
    have hlast : s.mux.transformers.length ≤ k + 1 := by
      simpa [StreamMux.finalizeAt] using hle
    obtain ⟨rfl, rfl⟩ := hok k first hp hlast
    rfl
  | _ => simpa [AsyncGraphRunStream.finalized, hp] using h

theorem Tracked.cancelled (h : s.Tracked) : s.cancelled.Tracked := by
  cases hp : s.phase with
  | cancelling e =>
    have hstage := h.stage
    rw [hp] at hstage
    obtain ⟨he, hreported, hfresh⟩ := hstage
    simp only [AsyncGraphRunStream.cancelled, hp]
    exact tracked_failFrom h.raised he hreported hfresh.ran
  | _ => simpa [AsyncGraphRunStream.cancelled, hp] using h

theorem Tracked.failed (h : s.Tracked) : s.failed.Tracked := by
  cases hp : s.phase with
  | failing k e =>
    have hstage := h.stage
    rw [hp] at hstage
    obtain ⟨he, hreported, hran⟩ := hstage
    simp only [AsyncGraphRunStream.failed, hp]
    exact tracked_failFrom h.raised he hreported (hran.modify StreamMux.fail_count)
  | _ => simpa [AsyncGraphRunStream.failed, hp] using h

theorem Stage.map {mux mux' : StreamMux ε} {exhausted reported : Bool} {phase : PumpPhase ε}
    (h : Stage mux exhausted reported phase) (hfresh : mux.Fresh → mux'.Fresh)
    (hran : ∀ k, mux.Ran k → mux'.Ran k) (hended : mux.Ended → mux'.Ended) :
    Stage mux' exhausted reported phase := by
  cases phase with
  | idle =>
    exact h.imp (fun ⟨he, hm⟩ => ⟨he, hended hm⟩) fun ⟨he, hr, hm⟩ => ⟨he, hr, hfresh hm⟩
  | pulling => exact ⟨h.1, h.2.1, hfresh h.2.2⟩
  | joining => exact ⟨h.1, h.2.1, hfresh h.2.2⟩
  | cancelling e => exact ⟨h.1, h.2.1, hfresh h.2.2⟩
  | finalizing k first => exact ⟨h.1, h.2.1, hran k h.2.2⟩
  | failing k e => exact ⟨h.1, h.2.1, hran k h.2.2⟩

theorem Tracked.settle (h : s.Tracked) (i : Nat) (err : Option ε) :
    ({ s with mux := s.mux.settle i err }).Tracked where
  raised := h.raised
  stage := by
    refine h.stage.map (fun hf => ?_) (fun k hr => ?_) fun he => he.settle i err
    · exact ⟨⟨hf.opened.closed, hf.opened.error⟩, hf.unused⟩
    · exact ⟨⟨hr.opened.closed, hr.opened.error⟩, hr.once, hr.unused⟩

theorem Tracked.step (e : AsyncRunEvent ε) (h : s.Tracked) (hok : s.Quiet e) :
    (s.step e).Tracked := by
  cases e with
  | ask => exact h.ask hok
  | wake => exact h.wake hok
  | pulled pull => exact h.pulled pull
  | joined err => exact h.joined hok
  | finalized err => exact h.finalized hok
  | cancelled => exact h.cancelled
  | failed => exact h.failed
  | schedule => exact ⟨h.raised, h.stage⟩
  | taskDone => exact ⟨h.raised, h.stage⟩
  | settle i err => exact h.settle i err

theorem quiet_of_good (e : AsyncRunEvent ε) (h : s.Tracked) (hgood : (s.step e).Good) :
    s.Quiet e := by
  cases e with
  | ask =>
    intro he
    by_contra hbusy
    obtain ⟨-, k, hran⟩ := h.opened hbusy
    simp only [AsyncGraphRunStream.step, AsyncGraphRunStream.ask, he, if_true] at hgood
    exact StreamMux.not_terminates_open hran.opened.closed s.raised hgood
  | wake =>
    intro hwoken he
    by_contra hbusy
    obtain ⟨-, k, hran⟩ := h.opened hbusy
    simp only [AsyncGraphRunStream.step, AsyncGraphRunStream.wake, if_pos hwoken, he,
      Bool.or_true] at hgood
    exact StreamMux.not_terminates_open hran.opened.closed s.raised hgood
  | joined err =>
    intro hp
    have hstage := h.stage
    rw [hp] at hstage
    cases err with
    | none => rfl
    | some e =>
      simp only [AsyncGraphRunStream.step, AsyncGraphRunStream.joined, hp] at hgood
      exact absurd hgood (StreamMux.not_terminates_lost hstage.2.2.opened.error)
  | finalized err =>
    intro k first hp hlast
    have hstage := h.stage
    rw [hp] at hstage
    have hle : ¬ k + 1 < (s.mux.finalizeAt k).transformers.length := by
      simp [StreamMux.finalizeAt]
      omega
    cases hfirst : first.or err with
    | none => simpa [Option.or_eq_none_iff] using hfirst
    | some e =>
      simp only [AsyncGraphRunStream.step, AsyncGraphRunStream.finalized, hp, finalizeFrom,
        if_neg hle, hfirst, finishClose] at hgood
      refine absurd hgood (StreamMux.not_terminates_lost ?_)
      exact hstage.2.2.opened.error
  | _ => trivial

theorem terminates_iff (channels transformers : Nat) (es : List (AsyncRunEvent ε)) :
    Always AsyncGraphRunStream.step Good (init channels transformers) es ↔
      EachStep AsyncGraphRunStream.step Quiet (init channels transformers) es :=
  have hinit : (init channels transformers : AsyncGraphRunStream ε).Tracked :=
    tracked_init channels transformers
  @always_iff_eachStep _ _ AsyncGraphRunStream.step Tracked Good Quiet
    (fun _ e h _ => ⟨quiet_of_good e h, fun hok => (h.step e hok).good⟩)
    (fun _ e h _ hgood => h.step e (quiet_of_good e h hgood)) es _ hinit hinit.good

end AsyncGraphRunStream

theorem streams_terminate_iff (channels transformers : Nat) :
    (∀ es : List (RunEvent ε),
      Always GraphRunStream.step GraphRunStream.Good (.init channels transformers) es ↔
        EachStep GraphRunStream.step GraphRunStream.Quiet (.init channels transformers) es) ∧
    ∀ es : List (AsyncRunEvent ε),
      Always AsyncGraphRunStream.step AsyncGraphRunStream.Good (.init channels transformers) es ↔
        EachStep AsyncGraphRunStream.step AsyncGraphRunStream.Quiet
          (.init channels transformers) es :=
  ⟨GraphRunStream.terminates_iff channels transformers,
    AsyncGraphRunStream.terminates_iff channels transformers⟩

-- A `finalize` that raises lets the next pump finalize again; a scheduled task that raises
-- leaves everything open although the pump then reports the end.
theorem finalization_error_lost :
    (¬ ∀ (channels transformers : Nat) (es : List (RunEvent Nat)),
      Always GraphRunStream.step GraphRunStream.Good (.init channels transformers) es) ∧
    ¬ ∀ (channels transformers : Nat) (es : List (AsyncRunEvent Nat)),
      Always AsyncGraphRunStream.step AsyncGraphRunStream.Good
        (.init channels transformers) es := by
  constructor
  · intro h
    have hgood := h 1 1 [.pump .stop (fun _ => some 0), .pump .stop (fun _ => none)] _
      (List.prefix_refl _)
    exact absurd (hgood.once ⟨2, 0⟩ List.mem_cons_self) (by decide)
  · intro h
    have hgood := h 1 1 [.ask, .schedule, .pulled .stop, .joined (some 0), .ask] _
      (List.prefix_refl _)
    exact absurd (hgood.ended rfl).1 (by decide)

end Stream

end LangGraph

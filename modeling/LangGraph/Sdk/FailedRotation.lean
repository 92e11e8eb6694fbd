import LangGraph.Sdk.Controller

namespace LangGraph

open Transition

namespace Sdk

def FanoutPhase.opened : FanoutPhase → Option Nat
  | .reconnecting _ _ opened => opened
  | _ => none

namespace StreamController

variable {cfg : ControllerConfig} {s s' : StreamController}

def pending (s : StreamController) : Option Nat := s.fanout.opened

inductive Moves (s s' : StreamController) : Prop where
  | still (length : s'.handles.length = s.handles.length)
      (shared : s'.sharedStream = s.sharedStream)
      (pending : s'.pending = s.pending ∨ s'.pending = none)
  | rotated (length : s'.handles.length = s.handles.length + 1)
      (shared : s'.sharedStream = some s.handles.length) (pending : s'.pending = s.pending)
  | reopened (length : s'.handles.length = s.handles.length + 1)
      (shared : s'.sharedStream = s.sharedStream) (pending : s'.pending = some s.handles.length)
  | reconnected (j : Nat) (length : s'.handles.length = s.handles.length)
      (opened : s.pending = some j) (shared : s'.sharedStream = some j) (pending : s'.pending = none)

structure Still (s s' : StreamController) : Prop where
  length : s'.handles.length = s.handles.length
  shared : s'.sharedStream = s.sharedStream
  pending : s'.pending = s.pending ∨ s'.pending = none

theorem Still.refl (s : StreamController) : Still s s := ⟨rfl, rfl, .inl rfl⟩

theorem Still.moves (h : Still s s') : Moves s s' := .still h.length h.shared h.pending

theorem Still.trans {s'' : StreamController} (h : Still s s') (h' : Still s' s'') : Still s s'' where
  length := h'.length.trans h.length
  shared := h'.shared.trans h.shared
  pending := by
    rcases h'.pending with heq | hnone
    · rw [heq]
      exact h.pending
    · exact .inr hnone

theorem Moves.still_after {s'' : StreamController} (h : Moves s s') (h' : Still s' s'')
    (hpending : s''.pending = s'.pending) : Moves s s'' := by
  cases h with
  | still length shared pending =>
    exact .still (h'.length.trans length) (h'.shared.trans shared) (by rwa [hpending])
  | rotated length shared pending =>
    exact .rotated (h'.length.trans length) (h'.shared.trans shared) (hpending.trans pending)
  | reopened length shared pending =>
    exact .reopened (h'.length.trans length) (h'.shared.trans shared) (hpending.trans pending)
  | reconnected j length opened shared pending =>
    exact .reconnected j (h'.length.trans length) opened (h'.shared.trans shared)
      (hpending.trans pending)

theorem pending_ensureFanoutRunning (s : StreamController) :
    s.ensureFanoutRunning.pending = s.pending := by
  cases hf : s.fanout with
  | idle =>
    cases hs : s.sharedStream with
    | none => simp [ensureFanoutRunning, hf, hs]
    | some i => simp [ensureFanoutRunning, pending, hf, hs, FanoutPhase.opened]
  | consuming i => simp [ensureFanoutRunning, hf]
  | awaiting i => simp [ensureFanoutRunning, hf]
  | reconnecting base n opened => simp [ensureFanoutRunning, hf]

theorem still_ensureFanoutRunning (s : StreamController) : Still s s.ensureFanoutRunning := by
  refine ⟨?_, ?_, .inl (pending_ensureFanoutRunning s)⟩
  · simp only [ensureFanoutRunning]
    split <;> rfl
  · simp only [ensureFanoutRunning]
    split <;> rfl

theorem still_setStatus (s : StreamController) (i : Nat) (status : StreamStatus) :
    Still s (s.setStatus i status) :=
  ⟨List.length_modify _ _ _, rfl, .inl rfl⟩

theorem still_closeHandle (s : StreamController) (i : Nat) : Still s (s.closeHandle i) :=
  ⟨List.length_modify _ _ _, rfl, .inl rfl⟩

theorem still_closeShared (s : StreamController) : Still s s.closeShared := by
  simp only [closeShared]
  split
  · exact Still.refl s
  · exact still_closeHandle s _

theorem still_leaveHandle (s : StreamController) (i : Nat) : Still s (s.leaveHandle i) := by
  simp only [leaveHandle]
  split
  · exact ⟨rfl, rfl, .inr rfl⟩
  · split
    · exact ⟨rfl, rfl, .inr rfl⟩
    · exact ⟨rfl, rfl, .inr rfl⟩

theorem still_terminate (cfg : ControllerConfig) (s : StreamController) :
    Still s (s.terminate cfg) :=
  ⟨rfl, rfl, .inr rfl⟩

theorem still_consume (cfg : ControllerConfig) (s : StreamController) (i : Nat) (x : LogEvent) :
    Still s (s.consume cfg i x) := by
  simp only [consume]
  split
  · exact ⟨List.length_modify _ _ _, rfl, .inl rfl⟩
  · split
    · refine Still.trans ?_ (still_leaveHandle _ i)
      exact ⟨List.length_modify _ _ _, rfl, .inl rfl⟩
    · exact ⟨List.length_modify _ _ _, rfl, .inl rfl⟩

theorem moves_attempt (cfg : ControllerConfig) (s : StreamController) (base : SubscribeParams)
    (n : Nat) : Moves s (s.attempt cfg base n) := by
  simp only [attempt]
  split
  · exact .reopened (by simp [openEventStream]) rfl rfl
  · exact (still_terminate cfg s).moves

theorem Still.moves_after {s'' : StreamController} (h : Still s s') (hp : s'.pending = s.pending)
    (h' : Moves s' s'') : Moves s s'' := by
  cases h' with
  | still length shared pending =>
    exact .still (length.trans h.length) (shared.trans h.shared) (by rwa [hp] at pending)
  | rotated length shared pending =>
    rw [h.length] at length shared
    exact .rotated length shared (pending.trans hp)
  | reopened length shared pending =>
    rw [h.length] at length pending
    exact .reopened length (shared.trans h.shared) pending
  | reconnected j length opened shared pending =>
    exact .reconnected j (length.trans h.length) (hp ▸ opened) shared pending

theorem pending_closeShared (s : StreamController) : s.closeShared.pending = s.pending := by
  simp only [closeShared]
  split <;> rfl

theorem moves_resolve (cfg : ControllerConfig) (s : StreamController) :
    Moves s (s.resolve cfg) := by
  simp only [resolve]
  split
  · split
    · split
      · exact (still_closeShared s).moves_after (pending_closeShared s) (moves_attempt cfg _ _ 0)
      · exact ((still_closeShared s).trans (still_terminate cfg _)).moves
    · exact (still_terminate cfg s).moves
    · exact (still_terminate cfg s).moves
    · exact (Still.refl s).moves
  · exact (Still.refl s).moves

theorem moves_readyReconnect (s : StreamController) (i : Nat) : Moves s (s.readyReconnect i) := by
  simp only [readyReconnect]
  split
  · rename_i base n opened hf
    split
    · rename_i heq
      exact .reconnected i rfl (by simp [pending, hf, FanoutPhase.opened, heq]) rfl rfl
    · exact (Still.refl s).moves
  · exact (Still.refl s).moves

theorem still_readyRotation (s : StreamController) (i : Nat) :
    Still s (s.readyRotation i) ∧ (s.readyRotation i).pending = s.pending := by
  simp only [readyRotation]
  split
  · exact ⟨Still.refl s, rfl⟩
  · rename_i o ho
    have hclose : Still s
        ({ s with openings := s.openings.filter (fun o => o.handle ≠ i) }.closeAfter o) ∧
        ({ s with openings := s.openings.filter (fun o => o.handle ≠ i) }.closeAfter o).pending =
          s.pending := by
      simp only [closeAfter]
      split <;> exact ⟨⟨rfl, rfl, .inl rfl⟩, rfl⟩
    exact ⟨hclose.1.trans (still_ensureFanoutRunning _),
      (pending_ensureFanoutRunning _).trans hclose.2⟩

theorem moves_ready (s : StreamController) (i : Nat) : Moves s (s.ready i) := by
  simp only [ready]
  split
  · obtain ⟨hstill, hpending⟩ := still_readyRotation ((s.readyReconnect i).setStatus i .ready) i
    have hstatus : Moves s ((s.readyReconnect i).setStatus i .ready) :=
      (moves_readyReconnect s i).still_after (still_setStatus _ i .ready) rfl
    exact hstatus.still_after hstill hpending
  · exact (Still.refl s).moves

theorem still_fail (s : StreamController) (i : Nat) : Still s (s.fail i) := by
  simp only [fail]
  split
  · have hrotation : Still s (s.failRotation i) := by
      simp only [failRotation]
      split
      · exact Still.refl s
      · exact ⟨rfl, rfl, .inl rfl⟩
    have hreconnect : ∀ r : StreamController, Still r (r.failReconnect i) := by
      intro r
      simp only [failReconnect]
      split
      · split
        · exact ⟨rfl, rfl, .inr rfl⟩
        · exact Still.refl r
      · exact Still.refl r
    exact (hrotation.trans (still_setStatus _ i .dropped)).trans (hreconnect _)
  · exact Still.refl s

theorem moves_subscribe (s : StreamController) (params : SubscribeParams) :
    Moves s (s.subscribe params) := by
  simp only [subscribe]
  split
  · have hregister : Still s (s.register params) := ⟨rfl, rfl, .inl rfl⟩
    exact (hregister.trans (still_ensureFanoutRunning _)).moves
  · exact .rotated (by simp [rotate, openEventStream, register]) rfl rfl

theorem still_fromReady (s : StreamController) (i : Nat) (status : StreamStatus) :
    Still s (s.fromReady i status) := by
  simp only [fromReady]
  split
  · exact still_setStatus s i status
  · exact Still.refl s

theorem still_get (s : StreamController) (id : Nat) : Still s (s.get id) := by
  simp only [get]
  split
  · exact Still.refl s
  · split
    · exact Still.refl s
    · split
      · exact Still.refl s
      · exact ⟨rfl, rfl, .inl rfl⟩
      · exact ⟨rfl, rfl, .inl rfl⟩

theorem step_moves (cfg : ControllerConfig) (s : StreamController) (e : ControllerEvent) :
    Moves s (s.step cfg e) := by
  cases e with
  | subscribe params => exact moves_subscribe s params
  | unsubscribe id => exact .still rfl rfl (.inl rfl)
  | ready i => exact moves_ready s i
  | fail i => exact (still_fail s i).moves
  | drop i => exact (still_fromReady s i .dropped).moves
  | serverEnd i => exact (still_fromReady s i .ended).moves
  | closed i =>
    simp only [step, closed]
    split
    · exact .still (still_closeHandle s i).length rfl (.inl rfl)
    · exact (Still.refl s).moves
  | read =>
    simp only [step, read]
    split
    · exact (still_consume cfg s _ _).moves
    · exact (Still.refl s).moves
  | exhausted =>
    simp only [step, exhausted]
    split
    · split
      · exact (Still.refl s).moves
      · exact (still_leaveHandle s _).moves
    · exact (Still.refl s).moves
  | resolve => exact moves_resolve cfg s
  | retry =>
    simp only [step, retry]
    split
    · exact moves_attempt cfg s _ _
    · exact (Still.refl s).moves
  | get id => exact (still_get s id).moves
  | observe seq => exact .still rfl rfl (.inl rfl)

structure Apart (s : StreamController) : Prop where
  sharedBound : ∀ i, s.sharedStream = some i → i < s.handles.length
  pendingBound : ∀ i, s.pending = some i → i < s.handles.length
  apart : ∀ i, s.pending = some i → s.sharedStream ≠ some i

theorem apart_init : Apart init where
  sharedBound i hi := by cases hi
  pendingBound i hi := by cases hi
  apart i hi := by cases hi

theorem Apart.moves (h : Apart s) (hm : Moves s s') : Apart s' := by
  cases hm with
  | still length shared pending =>
    refine ⟨fun i hi => ?_, fun i hi => ?_, fun i hi => ?_⟩
    · rw [length]
      exact h.sharedBound i (shared ▸ hi)
    · rcases pending with heq | hnone
      · rw [length]
        exact h.pendingBound i (heq ▸ hi)
      · rw [hnone] at hi
        cases hi
    · rcases pending with heq | hnone
      · rw [shared]
        exact h.apart i (heq ▸ hi)
      · rw [hnone] at hi
        cases hi
  | rotated length shared pending =>
    refine ⟨fun i hi => ?_, fun i hi => ?_, fun i hi heq => ?_⟩
    · rw [shared] at hi
      cases hi
      omega
    · have hlt := h.pendingBound i (pending ▸ hi)
      omega
    · have hlt := h.pendingBound i (pending ▸ hi)
      rw [shared] at heq
      cases heq
      omega
  | reopened length shared pending =>
    refine ⟨fun i hi => ?_, fun i hi => ?_, fun i hi heq => ?_⟩
    · have hlt := h.sharedBound i (shared ▸ hi)
      omega
    · rw [pending] at hi
      cases hi
      omega
    · rw [pending] at hi
      cases hi
      have hlt := h.sharedBound _ (shared ▸ heq)
      omega
  | reconnected j length opened shared pending =>
    refine ⟨fun i hi => ?_, fun i hi => ?_, fun i hi => ?_⟩
    · rw [shared] at hi
      cases hi
      rw [length]
      exact h.pendingBound _ opened
    · rw [pending] at hi
      cases hi
    · rw [pending] at hi
      cases hi

-- The stream `old` is neither shared any more nor going to be.
structure LeftBehind (old : Option Nat) (s : StreamController) : Prop where
  bound : ∀ i, old = some i → i < s.handles.length
  shared : s.sharedStream ≠ old
  pending : ∀ i, s.pending = some i → some i ≠ old

theorem LeftBehind.moves {old : Option Nat} (h : LeftBehind old s) (hm : Moves s s') :
    LeftBehind old s' := by
  have hnew : some s.handles.length ≠ old := by
    intro heq
    have hlt := h.bound _ heq.symm
    omega
  cases hm with
  | still length shared pending =>
    refine ⟨fun i hi => ?_, shared ▸ h.shared, fun i hi => ?_⟩
    · rw [length]
      exact h.bound i hi
    · rcases pending with heq | hnone
      · exact h.pending i (heq ▸ hi)
      · rw [hnone] at hi
        cases hi
  | rotated length shared pending =>
    refine ⟨fun i hi => ?_, shared ▸ hnew, fun i hi => h.pending i (pending ▸ hi)⟩
    have hlt := h.bound i hi
    omega
  | reopened length shared pending =>
    refine ⟨fun i hi => ?_, shared ▸ h.shared, fun i hi => ?_⟩
    · have hlt := h.bound i hi
      omega
    · rw [pending] at hi
      exact hi ▸ hnew
  | reconnected j length opened shared pending =>
    refine ⟨fun i hi => ?_, shared ▸ h.pending j opened, fun i hi => ?_⟩
    · rw [length]
      exact h.bound i hi
    · rw [pending] at hi
      cases hi

theorem leftBehind_subscribe {params : SubscribeParams} (h : Apart s)
    (huncovered : s.covered params = false) :
    LeftBehind s.sharedStream (s.subscribe params) := by
  have hrotate : s.subscribe params = (s.register params).rotate s.nextSubscriptionId params := by
    simp [subscribe, huncovered]
  rw [hrotate]
  refine ⟨fun i hi => ?_, fun heq => ?_, fun i hi heq => h.apart i hi heq.symm⟩
  · have hlt := h.sharedBound i hi
    have hlength : ((s.register params).rotate s.nextSubscriptionId params).handles.length =
        s.handles.length + 1 := by
      simp [rotate, openEventStream, register]
    omega
  · have hlt := h.sharedBound s.handles.length heq.symm
    omega

structure RolledBack (s s' : StreamController) : Prop where
  shared : s'.sharedStream = s.sharedStream
  filter : s'.sharedStreamFilter = s.sharedStreamFilter

theorem statusOf_failRotation (s : StreamController) (i j : Nat) :
    (s.failRotation i).statusOf j = s.statusOf j := by
  simp only [failRotation]
  split <;> rfl

theorem statusOf_failReconnect (s : StreamController) (i j : Nat) :
    (s.failReconnect i).statusOf j = s.statusOf j := by
  simp only [failReconnect]
  split
  · split <;> rfl
  · rfl

theorem statusOf_setStatus {i : Nat} {old : StreamStatus} (status : StreamStatus)
    (h : s.statusOf i = some old) : (s.setStatus i status).statusOf i = some status := by
  simp only [statusOf, setStatus, List.getElem?_modify, Option.map_eq_some_iff] at h ⊢
  obtain ⟨hd, hget, -⟩ := h
  exact ⟨{ hd with status := status }, by simp [hget], rfl⟩

theorem dropped_fail {i : Nat}
    (h : s.statusOf i = some .connecting ∨ s.statusOf i = some .closed) :
    (s.fail i).statusOf i = some .dropped := by
  simp only [fail, if_pos h, statusOf_failReconnect]
  rcases h with h | h
  · exact statusOf_setStatus .dropped ((statusOf_failRotation s i i).trans h)
  · exact statusOf_setStatus .dropped ((statusOf_failRotation s i i).trans h)

-- Whatever happens before the new stream fails, the old one is not shared again, and the
-- failed one stays installed if it was.
theorem never_rolledBack (cfg : ControllerConfig) (before between : List ControllerEvent)
    (params : SubscribeParams)
    (huncovered : (run (step cfg) init before).covered params = false) :
    let s := run (step cfg) init before
    let new := s.handles.length
    let s' := run (step cfg) (s.step cfg (.subscribe params)) between
    let s'' := s'.step cfg (.fail new)
    s'.statusOf new = some .connecting ∨ s'.statusOf new = some .closed →
      ¬ RolledBack s s'' ∧ (s'.sharedStream = some new →
        s''.sharedStream = some new ∧ s''.statusOf new = some .dropped) := by
  intro s new s' s'' hfails
  have hapart : Apart s :=
    run_invariant (fun r e hr => Apart.moves hr (step_moves cfg r e)) before apart_init
  have hleft : LeftBehind s.sharedStream s' :=
    run_invariant (fun r e hr => LeftBehind.moves hr (step_moves cfg r e)) between
      (leftBehind_subscribe hapart huncovered)
  refine ⟨fun hback => ?_, fun hshared => ⟨?_, dropped_fail hfails⟩⟩
  · exact (hleft.moves (step_moves cfg s' (.fail new))).shared hback.shared
  · exact (still_fail s' new).shared.trans hshared

theorem never_rolledBack_second_subscribe :
    let cfg : ControllerConfig := ⟨⟨[], List.nodup_nil, List.Pairwise.nil⟩, 1024, 10000, 5⟩
    let s := run (step cfg) init [.subscribe ⟨["values"], none, none⟩, .ready 0]
    let s' := s.step cfg (.subscribe ⟨["messages"], none, none⟩)
    let s'' := s'.step cfg (.fail 1)
    ¬ RolledBack s s'' ∧ (s'.sharedStream = some 1 →
      s''.sharedStream = some 1 ∧ s''.statusOf 1 = some .dropped) := by
  intro cfg s s' s''
  exact never_rolledBack cfg [.subscribe ⟨["values"], none, none⟩, .ready 0] []
    ⟨["messages"], none, none⟩ (by decide +kernel) (.inl (by decide +kernel))

theorem failed_rotation_installed :
    ¬ ∀ (cfg : ControllerConfig) (before between : List ControllerEvent) (params : SubscribeParams),
      let s := run (step cfg) init before
      let s' := run (step cfg) (s.step cfg (.subscribe params)) between
      s.covered params = false →
      s'.statusOf s.handles.length = some .connecting ∨
          s'.statusOf s.handles.length = some .closed →
        RolledBack s (s'.step cfg (.fail s.handles.length)) := by
  intro h
  have hback := h ⟨⟨[], List.nodup_nil, List.Pairwise.nil⟩, 1024, 10000, 5⟩
    [.subscribe ⟨["values"], none, none⟩, .ready 0] [] ⟨["messages"], none, none⟩
    (by decide +kernel) (.inl (by decide +kernel))
  exact absurd hback.shared (by decide +kernel)

end StreamController

end Sdk

end LangGraph

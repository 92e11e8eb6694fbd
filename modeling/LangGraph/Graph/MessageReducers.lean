import LangGraph.Graph.Messages

namespace LangGraph

open Collections Tombstones

def holds (mid : String) (ms : List Message) : Prop := ∃ a ∈ ms, a.id = some mid

instance (mid : String) (ms : List Message) : Decidable (holds mid ms) :=
  inferInstanceAs (Decidable (∃ a ∈ ms, a.id = some mid))

-- What one message does to a list of messages.
def upsert (ms : List Message) (m : Message) : List Message :=
  match m.id with
  | none => ms ++ [m]
  | some mid =>
      if m.remove then without Message.id mid ms
      else if holds mid ms then replaced Message.id mid m ms
      else ms ++ [m]

variable {state : List Message} {m : Message}

theorem absent_of_not_holds {mid : String} {ms : List Message} (h : ¬ holds mid ms) :
    ∀ a ∈ ms, a.id ≠ some mid :=
  fun a ha hid => h ⟨a, ha, hid⟩

section Delta

namespace DeltaMerge

variable {s : DeltaMerge}

def Ok (s : DeltaMerge) : Prop := Indexed Message.id s.result s.index

theorem ok_step (h : s.Ok) (m : Message) :
    (s.step m).Ok ∧ live (s.step m).result = upsert (live s.result) m := by
  unfold step upsert
  cases hid : m.id with
  | none => exact ⟨h.append_none hid, live_append _ _⟩
  | some mid =>
    cases hk : s.index.get? mid with
    | none =>
      have habsent : ¬ holds mid (live s.result) := by
        intro hholds
        obtain ⟨i, hi⟩ := h.mem_iff.mp hholds
        rw [hk] at hi
        cases hi
      cases m.remove with
      | true =>
        simp only [hk, if_true]
        exact ⟨h, (without_of_absent (absent_of_not_holds habsent)).symm⟩
      | false =>
        simp only [hk, Bool.false_eq_true, if_false, if_neg habsent]
        exact ⟨h.append_fresh hk hid, live_append _ _⟩
    | some i =>
      have hholds : holds mid (live s.result) := h.mem_iff.mpr ⟨i, hk⟩
      cases m.remove with
      | true =>
        simp only [hk, if_true]
        exact ⟨h.clear hk, h.live_clear hk⟩
      | false =>
        simp only [hk, Bool.false_eq_true, if_false, if_pos hholds]
        exact ⟨h.replace hk hid, h.live_replace hk m⟩

theorem ok_foldl (h : s.Ok) (msgs : List Message) :
    (msgs.foldl step s).Ok ∧ live (msgs.foldl step s).result = msgs.foldl upsert (live s.result) := by
  induction msgs generalizing s with
  | nil => exact ⟨h, rfl⟩
  | cons m msgs ih =>
    obtain ⟨hstep, hlive⟩ := ok_step h m
    rw [List.foldl_cons, List.foldl_cons, ← hlive]
    exact ih hstep

end DeltaMerge

theorem mergeDelta_eq (h : Distinct Message.id state) (msgs : List Message) :
    mergeDelta state msgs = msgs.foldl upsert state ∧
      Distinct Message.id (mergeDelta state msgs) := by
  have hstart : (DeltaMerge.start state).Ok := indexed_indexOf h
  obtain ⟨hok, hlive⟩ := DeltaMerge.ok_foldl hstart msgs
  have hstate : live (DeltaMerge.start state).result = state := live_map_some state
  rw [hstate] at hlive
  exact ⟨hlive, hok.distinct⟩

theorem mergeDelta_append (h : Distinct Message.id state) (xs ys : List Message) :
    mergeDelta (mergeDelta state xs) ys = mergeDelta state (xs ++ ys) := by
  obtain ⟨hxs, hdistinct⟩ := mergeDelta_eq h xs
  rw [(mergeDelta_eq hdistinct ys).1, hxs, (mergeDelta_eq h (xs ++ ys)).1, List.foldl_append]

variable (env : MessageTypes)

theorem mapM_typedOrNoId (state : List Message) :
    (state.map MessageLike.typed).mapM typedOrNoId = .ok state := by
  induction state with
  | nil => rfl
  | cons m state ih =>
    rw [List.map_cons, List.mapM_cons, ih]
    rfl

theorem messagesDeltaReducer_typed (state : List Message) (writes : List Messages) :
    messagesDeltaReducer env (state.map .typed) writes =
      (env.convertToMessages (flatWrites writes)).map (mergeDelta state) := by
  have hrun (start : Except MessageError (List MessageLike))
      (hstart : start = .ok (state.map .typed)) :
      (start >>= fun stateMsgs => env.convertToMessages (flatWrites writes) >>= fun msgs =>
        stateMsgs.mapM typedOrNoId >>= fun stateMsgs => .ok (mergeDelta stateMsgs msgs)) =
        (env.convertToMessages (flatWrites writes)).map (mergeDelta state) := by
    rw [hstart]
    change (env.convertToMessages (flatWrites writes) >>= fun msgs =>
      (state.map MessageLike.typed).mapM typedOrNoId >>= fun stateMsgs =>
        .ok (mergeDelta stateMsgs msgs)) = _
    rw [mapM_typedOrNoId]
    cases env.convertToMessages (flatWrites writes) with
    | error e => rfl
    | ok msgs => rfl
  cases state with
  | nil => exact hrun _ rfl
  | cons m state => exact hrun _ rfl

-- Reducing in two batches is reducing in one.
theorem messagesDeltaReducer_append (h : Distinct Message.id state) (xs ys : List Messages) :
    messagesDeltaReducer env (state.map .typed) (xs ++ ys) =
        (messagesDeltaReducer env (state.map .typed) xs >>= fun reduced =>
          messagesDeltaReducer env (reduced.map .typed) ys) ∧
      ∀ reduced, messagesDeltaReducer env (state.map .typed) xs = .ok reduced →
        Distinct Message.id reduced := by
  have hflat : flatWrites (xs ++ ys) = flatWrites xs ++ flatWrites ys := List.flatMap_append
  have happend : env.convertToMessages (flatWrites (xs ++ ys)) =
      (env.convertToMessages (flatWrites xs) >>= fun us =>
        env.convertToMessages (flatWrites ys) >>= fun vs => .ok (us ++ vs)) := by
    rw [hflat, MessageTypes.convertToMessages, List.mapM_append]
    rfl
  rw [messagesDeltaReducer_typed, messagesDeltaReducer_typed, happend]
  cases env.convertToMessages (flatWrites xs) with
  | error e => exact ⟨rfl, nofun⟩
  | ok us =>
    obtain ⟨-, hdistinct⟩ := mergeDelta_eq h us
    constructor
    · change (env.convertToMessages (flatWrites ys) >>= fun vs => .ok (us ++ vs)).map
          (mergeDelta state) = messagesDeltaReducer env ((mergeDelta state us).map .typed) ys
      rw [messagesDeltaReducer_typed]
      cases env.convertToMessages (flatWrites ys) with
      | error e => rfl
      | ok vs => exact congrArg Except.ok (mergeDelta_append h us vs).symm
    · intro reduced hreduced
      rw [← Except.ok.inj hreduced]
      exact hdistinct

-- Message classes that coerce nothing.
def typedOnly : MessageTypes where
  convert v := .error (.conversion v)
  ofChunk m := { m with chunk := false }
  uuid4 n := toString n
  formatMessages ms := ms

def message (id text : String) : Message := ⟨some id, false, false, .str text⟩

def removeMessage (id : String) : Message := ⟨some id, true, false, .str ""⟩

theorem messagesDeltaReducer_append_removed :
    Distinct Message.id [message "a" "hi", message "b" "hello"] ∧
      messagesDeltaReducer typedOnly ([message "a" "hi", message "b" "hello"].map .typed)
          [.one (.typed (removeMessage "a")), .one (.typed (message "a" "again"))] =
        (messagesDeltaReducer typedOnly ([message "a" "hi", message "b" "hello"].map .typed)
            [.one (.typed (removeMessage "a"))] >>= fun reduced =>
          messagesDeltaReducer typedOnly (reduced.map .typed)
            [.one (.typed (message "a" "again"))]) :=
  have h : Distinct Message.id [message "a" "hi", message "b" "hello"] := by
    unfold Distinct
    decide
  ⟨h, (messagesDeltaReducer_append typedOnly h [.one (.typed (removeMessage "a"))]
    [.one (.typed (message "a" "again"))]).1⟩

end Delta

end LangGraph

import LangGraph.Graph.MessageReducers

namespace LangGraph

open Collections Tombstones

variable {m : Message} {mid : String} {ms ms' state batch : List Message}

theorem holds_perm (h : ms.Perm ms') : holds mid ms ↔ holds mid ms' := by
  constructor
  · rintro ⟨a, ha, hid⟩
    exact ⟨a, h.mem_iff.mp ha, hid⟩
  · rintro ⟨a, ha, hid⟩
    exact ⟨a, h.mem_iff.mpr ha, hid⟩

theorem upsert_perm (h : ms.Perm ms') (m : Message) : (upsert ms m).Perm (upsert ms' m) := by
  unfold upsert
  cases m.id with
  | none => exact h.append_right [m]
  | some mid =>
    cases m.remove with
    | true => exact h.filter _
    | false =>
      by_cases hh : holds mid ms
      · simp only [Bool.false_eq_true, if_false, if_pos hh, if_pos ((holds_perm h).mp hh)]
        exact h.map _
      · simp only [Bool.false_eq_true, if_false, if_neg hh, if_neg (mt (holds_perm h).mpr hh)]
        exact h.append_right [m]

theorem foldl_upsert_perm (h : ms.Perm ms') (batch : List Message) :
    (batch.foldl upsert ms).Perm (batch.foldl upsert ms') := by
  induction batch generalizing ms ms' with
  | nil => exact h
  | cons m batch ih => exact ih (upsert_perm h m)

namespace AddMerge

variable {s s' : AddMerge}

def Knows (s : AddMerge) (mid : String) : Prop := ∃ i, s.mergedById.get? mid = some i

structure Ok (s : AddMerge) : Prop where
  indexed : Indexed Message.id (s.merged.map some) s.mergedById
  removed : ∀ mid ∈ s.idsToRemove, s.Knows mid

theorem keeps_eq_true : s.keeps m = true ↔ ∀ mid, m.id = some mid → mid ∉ s.idsToRemove := by
  unfold keeps
  cases m.id with
  | none => simp
  | some mid => simp

theorem Ok.knows_iff (h : s.Ok) : s.Knows mid ↔ holds mid s.merged := by
  have hmem := h.indexed.mem_iff (k := mid)
  rw [live_map_some] at hmem
  exact hmem.symm

theorem Ok.holds_result (h : s.Ok) :
    holds mid s.result ↔ s.Knows mid ∧ mid ∉ s.idsToRemove := by
  rw [h.knows_iff]
  constructor
  · rintro ⟨a, ha, hid⟩
    obtain ⟨ha, hkeeps⟩ := List.mem_filter.mp ha
    exact ⟨⟨a, ha, hid⟩, keeps_eq_true.mp hkeeps mid hid⟩
  · rintro ⟨⟨a, ha, hid⟩, hkept⟩
    refine ⟨a, List.mem_filter.mpr ⟨ha, keeps_eq_true.mpr (fun mid' hid' => ?_)⟩, hid⟩
    obtain rfl := Option.some.inj (hid.symm.trans hid')
    exact hkept

theorem result_remove (s : AddMerge) (mid : String) :
    { s with idsToRemove := insert mid s.idsToRemove }.result =
      without Message.id mid s.result := by
  unfold result without
  rw [List.filter_filter]
  refine List.filter_congr (fun a _ => Bool.eq_iff_iff.mpr ?_)
  rw [Bool.and_eq_true, keeps_eq_true, keeps_eq_true, decide_eq_true_iff]
  constructor
  · intro h
    refine ⟨fun hid => ?_, fun mid' hid hmem => ?_⟩
    · exact h mid hid (Finset.mem_insert_self mid _)
    · exact h mid' hid (Finset.mem_insert_of_mem hmem)
  · rintro ⟨hne, hkept⟩ mid' hid hmem
    rcases Finset.mem_insert.mp hmem with rfl | hmem
    · exact hne hid
    · exact hkept mid' hid hmem

theorem result_append (h : s.Ok) (hid : m.id = some mid) (hknown : ¬ s.Knows mid)
    (index : Dict String Nat) :
    AddMerge.result ⟨s.merged ++ [m], index, s.idsToRemove⟩ = s.result ++ [m] := by
  have hkeeps : s.keeps m = true := by
    refine keeps_eq_true.mpr (fun mid' hid' hmem => ?_)
    obtain rfl := Option.some.inj (hid.symm.trans hid')
    exact hknown (h.removed mid hmem)
  change (s.merged ++ [m]).filter s.keeps = _
  rw [List.filter_append, List.filter_cons_of_pos hkeeps, List.filter_nil, result]

theorem result_replace {existing : Nat} (h : s.Ok) (hid : m.id = some mid)
    (hk : s.mergedById.get? mid = some existing) :
    { s with merged := s.merged.set existing m }.result = replaced Message.id mid m s.result := by
  have hset : s.merged.set existing m = replaced Message.id mid m s.merged := by
    have hlive := h.indexed.live_replace hk m
    rwa [← List.map_set, live_map_some, live_map_some] at hlive
  change (s.merged.set existing m).filter s.keeps = _
  rw [hset, replaced, List.filter_map, result, replaced]
  refine congrArg (List.map _) (List.filter_congr (fun a _ => Bool.eq_iff_iff.mpr ?_))
  rw [Function.comp_apply, keeps_eq_true, keeps_eq_true]
  by_cases ha : a.id = some mid
  · rw [if_pos ha, ha, hid]
  · rw [if_neg ha]

-- An id that was removed keeps its place when it is added again.
theorem result_readd {existing : Nat} (h : s.Ok) (hid : m.id = some mid)
    (hk : s.mergedById.get? mid = some existing) (hremoved : mid ∈ s.idsToRemove) :
    (AddMerge.result ⟨s.merged.set existing m, s.mergedById, s.idsToRemove.erase mid⟩).Perm
      (s.result ++ [m]) := by
  obtain ⟨pre, a, post, hslots, hlength, hkey, hpre, hpost⟩ := h.indexed.split hk
  have hlive (b : Message) : live (pre ++ some b :: post) = live pre ++ b :: live post :=
    live_append pre (some b :: post)
  have hmerged : s.merged = live pre ++ a :: live post := by
    rw [← hlive, ← hslots, live_map_some]
  have hset : s.merged.set existing m = live pre ++ m :: live post := by
    rw [← hlive, ← set_split (x := some a) hlength, ← hslots, ← List.map_set, live_map_some]
  have hothers {ms : List Message} (hms : ∀ b ∈ ms, b.id ≠ some mid) :
      ms.filter (AddMerge.keeps ⟨s.merged.set existing m, s.mergedById, s.idsToRemove.erase mid⟩) =
        ms.filter s.keeps := by
    refine List.filter_congr (fun b hb => Bool.eq_iff_iff.mpr ?_)
    rw [keeps_eq_true, keeps_eq_true]
    refine forall₂_congr (fun mid' hid' => not_congr ?_)
    have hne : mid' ≠ mid := fun heq => hms b hb (hid'.trans (congrArg some heq))
    rw [Finset.mem_erase, and_iff_right hne]
  have hdropped : ¬ s.keeps a = true := fun hkeeps => keeps_eq_true.mp hkeeps mid hkey hremoved
  have hadded : AddMerge.keeps
      ⟨s.merged.set existing m, s.mergedById, s.idsToRemove.erase mid⟩ m = true := by
    refine keeps_eq_true.mpr (fun mid' hid' => ?_)
    obtain rfl := Option.some.inj (hid.symm.trans hid')
    exact Finset.notMem_erase _ _
  have hresult : s.result = (live pre).filter s.keeps ++ (live post).filter s.keeps := by
    rw [result, hmerged, List.filter_append, List.filter_cons_of_neg hdropped]
  have hreadded :
      AddMerge.result ⟨s.merged.set existing m, s.mergedById, s.idsToRemove.erase mid⟩ =
        (live pre).filter s.keeps ++ m :: (live post).filter s.keeps := by
    rw [← hothers hpre, ← hothers hpost, result]
    nth_rewrite 2 [hset]
    rw [List.filter_append, List.filter_cons_of_pos hadded]
  rw [hreadded, hresult]
  exact List.perm_middle.trans (List.perm_append_singleton m _).symm

-- What merging a message leaves behind.
structure Follows (s : AddMerge) (mid : String) (m : Message) (s' : AddMerge) : Prop where
  ok : s'.Ok
  known : ∀ k, k = mid ∨ s.Knows k → s'.Knows k
  removed : ∀ k ∈ s'.idsToRemove, k ∈ s.idsToRemove ∨ m.remove = true ∧ k = mid
  perm : s'.result.Perm (upsert s.result m)
  same : (m.remove = false → mid ∉ s.idsToRemove) → s'.result = upsert s.result m

theorem follows_remove (h : s.Ok) (hid : m.id = some mid) (hremove : m.remove = true)
    (hknown : s.Knows mid) : s.Follows mid m { s with idsToRemove := insert mid s.idsToRemove } := by
  have hresult : { s with idsToRemove := insert mid s.idsToRemove }.result = upsert s.result m := by
    simp only [upsert, hid, hremove, if_true, result_remove]
  refine ⟨⟨h.indexed, fun k hk => ?_⟩, fun k hk => ?_, fun k hk => ?_, hresult ▸ .rfl,
    fun _ => hresult⟩
  · rcases Finset.mem_insert.mp hk with rfl | hk
    · exact hknown
    · exact h.removed k hk
  · rcases hk with rfl | hk
    · exact hknown
    · exact hk
  · rcases Finset.mem_insert.mp hk with rfl | hk
    · exact Or.inr ⟨hremove, rfl⟩
    · exact Or.inl hk

theorem follows_replace {existing : Nat} (h : s.Ok) (hid : m.id = some mid)
    (hremove : m.remove = false) (hk : s.mergedById.get? mid = some existing) :
    s.Follows mid m ⟨s.merged.set existing m, s.mergedById, s.idsToRemove.erase mid⟩ := by
  have hindexed := h.indexed.replace hk hid
  rw [← List.map_set] at hindexed
  have hknown : s.Knows mid := ⟨existing, hk⟩
  have hkept (hmem : mid ∉ s.idsToRemove) :
      AddMerge.result ⟨s.merged.set existing m, s.mergedById, s.idsToRemove.erase mid⟩ =
        upsert s.result m := by
    have hholds : holds mid s.result := h.holds_result.mpr ⟨hknown, hmem⟩
    simp only [upsert, hid, hremove, Bool.false_eq_true, if_false, if_pos hholds]
    rw [Finset.erase_eq_of_notMem hmem]
    exact result_replace h hid hk
  refine ⟨⟨hindexed, fun k hmem => h.removed k (Finset.mem_of_mem_erase hmem)⟩, fun k hk => ?_,
    fun k hmem => Or.inl (Finset.mem_of_mem_erase hmem), ?_, fun hmem => hkept (hmem hremove)⟩
  · rcases hk with rfl | hk
    · exact hknown
    · exact hk
  · by_cases hmem : mid ∈ s.idsToRemove
    · have habsent : ¬ holds mid s.result := fun hholds => (h.holds_result.mp hholds).2 hmem
      simp only [upsert, hid, hremove, Bool.false_eq_true, if_false, if_neg habsent]
      exact result_readd h hid hk hmem
    · rw [hkept hmem]

theorem follows_append (h : s.Ok) (hid : m.id = some mid) (hremove : m.remove = false)
    (hk : s.mergedById.get? mid = none) :
    s.Follows mid m
      ⟨s.merged ++ [m], s.mergedById.set mid s.merged.length, s.idsToRemove⟩ := by
  have hunknown : ¬ s.Knows mid := by
    rintro ⟨i, hi⟩
    rw [hk] at hi
    cases hi
  have hindexed := h.indexed.append_fresh hk hid
  rw [List.length_map] at hindexed
  have hknown (k : String) (hk : k = mid ∨ s.Knows k) :
      Knows ⟨s.merged ++ [m], s.mergedById.set mid s.merged.length, s.idsToRemove⟩ k := by
    unfold Knows
    rw [Dict.get?_set]
    rcases hk with rfl | ⟨i, hi⟩
    · exact ⟨_, if_pos rfl⟩
    · split
      · exact ⟨_, rfl⟩
      · exact ⟨i, hi⟩
  have hresult :
      AddMerge.result ⟨s.merged ++ [m], s.mergedById.set mid s.merged.length, s.idsToRemove⟩ =
        upsert s.result m := by
    have habsent : ¬ holds mid s.result := fun hholds => hunknown (h.holds_result.mp hholds).1
    simp only [upsert, hid, hremove, Bool.false_eq_true, if_false, if_neg habsent]
    exact result_append h hid hunknown _
  refine ⟨⟨?_, fun k hmem => hknown k (Or.inr (h.removed k hmem))⟩, hknown,
    fun k hmem => Or.inl hmem, hresult ▸ .rfl, fun _ => hresult⟩
  rwa [List.map_append]

theorem follows_step (h : s.Ok) (hid : m.id = some mid) (hexists : m.remove = true → s.Knows mid) :
    ∃ s', s.step m = .ok s' ∧ s.Follows mid m s' := by
  unfold step
  simp only [hid]
  cases hk : s.mergedById.get? mid with
  | some existing =>
    cases hremove : m.remove with
    | true => exact ⟨_, rfl, follows_remove h hid hremove ⟨existing, hk⟩⟩
    | false => exact ⟨_, rfl, follows_replace h hid hremove hk⟩
  | none =>
    cases hremove : m.remove with
    | true =>
      obtain ⟨i, hi⟩ := hexists hremove
      rw [hk] at hi
      cases hi
    | false => exact ⟨_, rfl, follows_append h hid hremove hk⟩

end AddMerge

-- Whether a message adds what an earlier one removed.
def readds (m m' : Message) : Prop := m.remove = true ∧ m'.remove = false ∧ m'.id = m.id

def Identified (ms : List Message) : Prop := ∀ m ∈ ms, m.id ≠ none ∧ m.chunk = false

def RemovesExisting (state batch : List Message) : Prop :=
  ∀ pre m post, batch = pre ++ m :: post → m.remove = true → ∃ a ∈ state ++ pre, a.id = m.id

namespace AddMerge

variable {s : AddMerge}

theorem foldlM_step (h : s.Ok) (hids : Identified batch)
    (hexists : ∀ pre m post, batch = pre ++ m :: post → m.remove = true →
      ∀ mid, m.id = some mid → s.Knows mid ∨ ∃ a ∈ pre, a.id = some mid) :
    ∃ s', batch.foldlM step s = .ok s' ∧ s'.result.Perm (batch.foldl upsert s.result) ∧
      ((∀ m ∈ batch, m.remove = false → ∀ mid, m.id = some mid → mid ∉ s.idsToRemove) →
        batch.Pairwise (fun m m' => ¬ readds m m') →
        s'.result = batch.foldl upsert s.result) := by
  induction batch generalizing s with
  | nil => exact ⟨s, rfl, .rfl, fun _ _ => rfl⟩
  | cons m batch ih =>
    obtain ⟨mid, hid⟩ := Option.ne_none_iff_exists'.mp (hids m List.mem_cons_self).1
    have hhead : m.remove = true → s.Knows mid := by
      intro hremove
      rcases hexists [] m batch rfl hremove mid hid with hknown | ⟨a, ha, -⟩
      · exact hknown
      · cases ha
    obtain ⟨s₁, hstep, hfollows⟩ := follows_step h hid hhead
    have htail : ∀ pre m' post, batch = pre ++ m' :: post → m'.remove = true →
        ∀ k, m'.id = some k → s₁.Knows k ∨ ∃ a ∈ pre, a.id = some k := by
      intro pre m' post hsplit hremove k hk
      rcases hexists (m :: pre) m' post (congrArg (m :: ·) hsplit) hremove k hk with
        hknown | ⟨a, ha, hak⟩
      · exact Or.inl (hfollows.known k (Or.inr hknown))
      · rcases List.mem_cons.mp ha with rfl | ha
        · exact Or.inl (hfollows.known k (Or.inl (Option.some.inj (hak.symm.trans hid))))
        · exact Or.inr ⟨a, ha, hak⟩
    obtain ⟨s', hrun, hperm, hsame⟩ :=
      ih hfollows.ok (fun m' hm' => hids m' (List.mem_cons_of_mem m hm')) htail
    refine ⟨s', ?_, ?_, fun hkept hpairwise => ?_⟩
    · rw [List.foldlM_cons, hstep]
      exact hrun
    · rw [List.foldl_cons]
      exact hperm.trans (foldl_upsert_perm hfollows.perm batch)
    · obtain ⟨hreadds, hrest⟩ := List.pairwise_cons.mp hpairwise
      have hhead : s₁.result = upsert s.result m :=
        hfollows.same (fun hremove => hkept m List.mem_cons_self hremove mid hid)
      rw [List.foldl_cons, ← hhead]
      refine hsame (fun m' hm' hremove' k hk hmem => ?_) hrest
      rcases hfollows.removed k hmem with hmem | ⟨hremove, rfl⟩
      · exact hkept m' (List.mem_cons_of_mem m hm') hremove' k hk hmem
      · exact hreadds m' hm' ⟨hremove, hremove', hk.trans hid.symm⟩

end AddMerge

section Agreement

variable (env : MessageTypes)

theorem convertToMessages_typed (ms : List Message) :
    env.convertToMessages (ms.map .typed) = .ok ms := by
  induction ms with
  | nil => rfl
  | cons m ms ih =>
    unfold MessageTypes.convertToMessages at ih ⊢
    rw [List.map_cons, List.mapM_cons, ih]
    rfl

theorem chunkToMessage_identified (h : Identified ms) :
    ms.map env.messageChunkToMessage = ms := by
  refine (List.map_congr_left (fun m hm => ?_)).trans (List.map_id ms)
  exact if_neg (by rw [(h m hm).2]; exact Bool.false_ne_true)

theorem assignIds_identified (uuid4 : Nat → String) (n : Nat) (h : Identified ms) :
    assignIds uuid4 n ms = (ms, n) := by
  induction ms with
  | nil => rfl
  | cons m ms ih =>
    obtain ⟨mid, hid⟩ := Option.ne_none_iff_exists'.mp (h m List.mem_cons_self).1
    simp only [assignIds, hid, ih (fun m' hm' => h m' (List.mem_cons_of_mem m hm'))]

theorem afterRemoveAll_eq_none (h : ∀ m ∈ ms, removesAll m = false) :
    afterRemoveAll ms = none := by
  induction ms with
  | nil => rfl
  | cons m ms ih =>
    simp only [afterRemoveAll, ih (fun m' hm' => h m' (List.mem_cons_of_mem m hm')),
      h m List.mem_cons_self, Bool.false_eq_true, if_false]

theorem addMessages_identified (hstate : Identified state) (hbatch : Identified batch)
    (hall : ∀ m ∈ batch, removesAll m = false) :
    addMessages env (.many (state.map .typed)) (.many (batch.map .typed)) none =
      (batch.foldlM AddMerge.step (AddMerge.start state)).map AddMerge.result := by
  simp only [addMessages, coerceToList, convertToMessages_typed, bind, Except.bind,
    chunkToMessage_identified env hstate, chunkToMessage_identified env hbatch,
    assignIds_identified _ _ hstate, assignIds_identified _ _ hbatch, afterRemoveAll_eq_none hall]
  cases batch.foldlM AddMerge.step (AddMerge.start state) with
  | error e => rfl
  | ok s => rfl

theorem ok_start (hdistinct : Distinct Message.id state) : (AddMerge.start state).Ok :=
  ⟨indexed_indexOf hdistinct, fun _ hmem => absurd hmem (Finset.notMem_empty _)⟩

theorem result_start (state : List Message) : (AddMerge.start state).result = state := by
  refine List.filter_eq_self.mpr (fun m _ => AddMerge.keeps_eq_true.mpr (fun mid _ => ?_))
  exact Finset.notMem_empty mid

theorem addMessages_messagesDelta (hstate : Identified state) (hbatch : Identified batch)
    (hdistinct : Distinct Message.id state) (hall : ∀ m ∈ batch, removesAll m = false)
    (hexisting : RemovesExisting state batch) :
    ∃ added reduced,
      addMessages env (.many (state.map .typed)) (.many (batch.map .typed)) none = .ok added ∧
      messagesDeltaReducer env (state.map .typed) [.many (batch.map .typed)] = .ok reduced ∧
      added.Perm reduced ∧
      (batch.Pairwise (fun m m' => ¬ readds m m') → added = reduced) := by
  have hok := ok_start hdistinct
  obtain ⟨s', hrun, hperm, hsame⟩ := AddMerge.foldlM_step hok hbatch (by
    intro pre m post hsplit hremove mid hid
    obtain ⟨a, ha, hak⟩ := hexisting pre m post hsplit hremove
    rcases List.mem_append.mp ha with ha | ha
    · exact Or.inl (hok.knows_iff.mpr ⟨a, ha, hak.trans hid⟩)
    · exact Or.inr ⟨a, ha, hak.trans hid⟩)
  rw [result_start] at hperm hsame
  refine ⟨s'.result, batch.foldl upsert state, ?_, ?_, hperm, hsame (fun _ _ _ _ _ => ?_)⟩
  · rw [addMessages_identified env hstate hbatch hall, hrun]
    rfl
  · have hflat : flatWrites [.many (batch.map .typed)] = batch.map .typed :=
      List.flatMap_singleton _ _
    rw [messagesDeltaReducer_typed, hflat, convertToMessages_typed]
    exact congrArg Except.ok (mergeDelta_eq hdistinct batch).1
  · exact Finset.notMem_empty _

theorem removesExisting_of_state (h : ∀ m ∈ batch, m.remove = true → ∃ a ∈ state, a.id = m.id) :
    RemovesExisting state batch := by
  rintro pre m post rfl hremove
  obtain ⟨a, ha, hid⟩ := h m (List.mem_append_right pre List.mem_cons_self) hremove
  exact ⟨a, List.mem_append_left pre ha, hid⟩

theorem identified_of_forall (h : ∀ m ∈ ms, m.id.isSome = true ∧ m.chunk = false) :
    Identified ms :=
  fun m hm => ⟨Option.isSome_iff_ne_none.mp (h m hm).1, (h m hm).2⟩

theorem addMessages_messagesDelta_removed :
    ∃ added reduced,
      addMessages typedOnly (.many ([message "a" "hi", message "b" "hello"].map .typed))
          (.many ([message "b" "hey", removeMessage "a", message "c" "bye"].map .typed)) none =
        .ok added ∧
      messagesDeltaReducer typedOnly ([message "a" "hi", message "b" "hello"].map .typed)
          [.many ([message "b" "hey", removeMessage "a", message "c" "bye"].map .typed)] =
        .ok reduced ∧
      added.Perm reduced ∧
      ([message "b" "hey", removeMessage "a", message "c" "bye"].Pairwise
        (fun m m' => ¬ readds m m') → added = reduced) := by
  have hstate : Identified [message "a" "hi", message "b" "hello"] :=
    identified_of_forall (by decide)
  have hbatch : Identified [message "b" "hey", removeMessage "a", message "c" "bye"] :=
    identified_of_forall (by decide)
  have hdistinct : Distinct Message.id [message "a" "hi", message "b" "hello"] := by
    unfold Distinct
    decide
  exact addMessages_messagesDelta typedOnly hstate hbatch hdistinct (by decide)
    (removesExisting_of_state (by decide))

-- `add_messages` puts a message that is added again where it stood, the delta reducer at the end.
theorem addMessages_keeps_place :
    (Identified [message "a" "hi", message "b" "hello"] ∧
      Identified [removeMessage "a", message "a" "again"] ∧
      Distinct Message.id [message "a" "hi", message "b" "hello"] ∧
      (∀ m ∈ [removeMessage "a", message "a" "again"], removesAll m = false) ∧
      RemovesExisting [message "a" "hi", message "b" "hello"]
        [removeMessage "a", message "a" "again"]) ∧
    addMessages typedOnly (.many ([message "a" "hi", message "b" "hello"].map .typed))
        (.many ([removeMessage "a", message "a" "again"].map .typed)) none =
      .ok [message "a" "again", message "b" "hello"] ∧
    messagesDeltaReducer typedOnly ([message "a" "hi", message "b" "hello"].map .typed)
        [.many ([removeMessage "a", message "a" "again"].map .typed)] =
      .ok [message "b" "hello", message "a" "again"] := by
  have hdistinct : Distinct Message.id [message "a" "hi", message "b" "hello"] := by
    unfold Distinct
    decide
  exact ⟨⟨identified_of_forall (by decide), identified_of_forall (by decide), hdistinct,
    by decide, removesExisting_of_state (by decide)⟩, by decide +kernel, by decide +kernel⟩

end Agreement

end LangGraph

import LangGraph.Pregel.DeltaReads
import LangGraph.Pregel.Loop

namespace LangGraph

open Collections

variable {Ver : Type}

namespace InMemorySaver

section Threaded

variable [DecidableEq Ver]

structure Threaded (s : InMemorySaver Ver) : Prop where
  keyed : ∀ id entry, s.storage.get? id = some entry → entry.checkpoint.id = id
  ends : ∀ cursor, ∃ l, s.Ancestors cursor l

end Threaded

section Spec

variable [DecidableEq Ver] {s : InMemorySaver Ver} {d c : DeltaChannel} {k id : String}

theorem fromCheckpoint_readDelta (h : s.readDelta d k id = .ok c) (b : Option Blob) :
    c.fromCheckpoint b = d.fromCheckpoint b := by
  have hplain (b' : Option Blob) : (d.fromCheckpoint b').fromCheckpoint b = d.fromCheckpoint b := by
    rcases b' with _ | b'
    · exact d.fromCheckpoint_value _ b
    · cases b' <;> exact d.fromCheckpoint_value _ b
  rw [readDelta] at h
  cases hb : s.blobAt k id with
  | some b' =>
    rw [hb] at h
    rw [← Except.ok.inj h]
    exact hplain _
  | none =>
    rw [hb] at h
    obtain ⟨v, hv⟩ := Option.isSome_iff_exists.mp
      (d.isSome_fromCheckpoint (s.walk k (s.chain id)).seed)
    obtain ⟨w, -, rfl⟩ := DeltaChannel.value_replayWrites hv h
    exact (DeltaChannel.fromCheckpoint_value _ _ b).trans (hplain _)

end Spec

section Calls

def RowsAt (id : Option String) (calls : List (SaverCall Ver)) : Prop :=
  ∀ call ∈ calls, ∃ cid ws taskId path, call = .putWrites cid ws taskId path ∧ some cid = id

variable [DecidableEq Ver] {s : InMemorySaver Ver} {parent : Option String}
  {checkpoint : Checkpoint Ver} {metadata : CheckpointMetadata} {newVersions : ChannelVersions Ver}
  {k : String}

theorem execAll_rowsAt {target : Option String} {calls : List (SaverCall Ver)}
    (h : RowsAt target calls) (s : InMemorySaver Ver) :
    (s.execAll calls).storage = s.storage ∧ (s.execAll calls).blobs = s.blobs ∧
      ∀ id, some id ≠ target → (s.execAll calls).rows id = s.rows id := by
  induction calls generalizing s with
  | nil => exact ⟨rfl, rfl, fun _ _ => rfl⟩
  | cons call calls ih =>
    obtain ⟨hcall, hrest⟩ := List.forall_mem_cons.mp h
    obtain ⟨cid, ws, taskId, path, rfl, hcid⟩ := hcall
    obtain ⟨hstorage, hblobs, hrows⟩ := ih hrest (s.putWrites cid ws taskId path)
    have hput : (s.putWrites cid ws taskId path).storage = s.storage ∧
        (s.putWrites cid ws taskId path).blobs = s.blobs := by
      cases ws <;> exact ⟨rfl, rfl⟩
    refine ⟨hstorage.trans hput.1, hblobs.trans hput.2, fun id hid => (hrows id hid).trans ?_⟩
    exact rows_putWrites_ne s (fun he => hid ((congrArg some he).trans hcid)) ws taskId path

theorem files_of_calls {pre post : List (SaverCall Ver)} (hpre : RowsAt parent pre)
    (hpost : RowsAt (some checkpoint.id) post) :
    s.Files (((s.execAll pre).put parent checkpoint metadata newVersions).execAll post)
      checkpoint.id parent := by
  obtain ⟨hstorage, -, hrows⟩ := execAll_rowsAt hpre s
  obtain ⟨hstorage', -, hrows'⟩ := execAll_rowsAt hpost
    ((s.execAll pre).put parent checkpoint metadata newVersions)
  refine ⟨fun id hid => ?_, ?_, fun id hid hother => ?_⟩
  · rw [hstorage', put, hstorage]
    exact Dict.get?_set_ne _ hid _
  · rw [hstorage']
    exact ⟨_, Dict.get?_set_self _ _ _, rfl⟩
  · rw [hrows' id (fun he => hid (Option.some.inj he))]
    exact hrows id hother

theorem blobAt_put_self (s : InMemorySaver Ver) (parent : Option String)
    (checkpoint : Checkpoint Ver) (metadata : CheckpointMetadata)
    (newVersions : ChannelVersions Ver) (k : String) :
    (s.put parent checkpoint metadata newVersions).blobAt k checkpoint.id =
      (checkpoint.channelVersions.get? k).bind (fun v =>
        if newVersions.get? k = some v then checkpoint.channelValues.get? k
        else (s.blobs.get? (k, v)).join) := by
  rw [blobAt, put, Dict.get?_set_self]
  cases hv : checkpoint.channelVersions.get? k with
  | none => simp [hv]
  | some v =>
    have hblobs := get?_putBlobs checkpoint.channelValues newVersions s.blobs k v
    simp only [Option.bind_eq_bind, Option.bind_some, hv, hblobs]
    split_ifs <;> rfl

theorem blobAt_put_ne {id : String} (hid : id ≠ checkpoint.id)
    (hnone : checkpoint.channelValues.get? k = none)
    (hfresh : ∀ v, newVersions.get? k = some v → (k, v) ∉ s.blobs.keys) :
    (s.put parent checkpoint metadata newVersions).blobAt k id = s.blobAt k id := by
  rw [blobAt, blobAt, put, Dict.get?_set_ne _ hid]
  cases s.storage.get? id with
  | none => rfl
  | some entry =>
    cases hv : entry.checkpoint.channelVersions.get? k with
    | none => simp [hv]
    | some v =>
      have hblobs := get?_putBlobs checkpoint.channelValues newVersions s.blobs k v
      simp only [Option.bind_eq_bind, Option.bind_some, hv, hblobs]
      split_ifs with hnew
      · rw [hnone, Dict.get?_eq_none.mpr (hfresh v hnew)]
        rfl
      · rfl

theorem blobAt_congr {s' : InMemorySaver Ver} (hstorage : s'.storage = s.storage)
    (hblobs : s'.blobs = s.blobs) (k id : String) : s'.blobAt k id = s.blobAt k id := by
  rw [blobAt, blobAt, hstorage, hblobs]

end Calls

end InMemorySaver

variable [LinearOrder Ver] [OrderBot Ver]

theorem get?_getNewChannelVersions (previous current : ChannelVersions Ver) (k : String) :
    (getNewChannelVersions previous current).get? k =
      (current.get? k).filter
        (fun v => decide (previous.items = [] ∨ previous.getD k ⊥ < v)) := by
  rw [getNewChannelVersions]
  split_ifs with h
  · cases current.get? k <;> simp [h, Option.filter]
  · rw [Dict.get?_filter]
    cases current.get? k <;> simp [h]

namespace InMemorySaver

-- How a call takes the version `o` of a channel to `o'`.
structure Advance (s : InMemorySaver Ver) (k : String) (moved : Prop) (o o' : Option Ver) :
    Prop where
  drawn : moved → ∃ w, o' = some w ∧ (∀ v, o = some v → v < w) ∧ ⊥ < w ∧ (k, w) ∉ s.blobs.keys
  kept : ¬ moved → o' = o

theorem Advance.trans {k : String} {m m' : Prop} {o o' o'' : Option Ver}
    (h : Advance s k m o o') (h' : Advance s k m' o' o'') : Advance s k (m ∨ m') o o'' := by
  constructor
  · intro hm
    by_cases hm' : m'
    · obtain ⟨w, hw, hlt, hbot, hfresh⟩ := h'.drawn hm'
      refine ⟨w, hw, fun v hv => ?_, hbot, hfresh⟩
      by_cases hfirst : m
      · obtain ⟨w', hw', hlt', -, -⟩ := h.drawn hfirst
        exact (hlt' v hv).trans (hlt w' hw')
      · exact hlt v ((h.kept hfirst).trans hv)
    · rw [h'.kept hm']
      exact h.drawn (hm.resolve_right hm')
  · intro hm
    rw [h'.kept (fun h => hm (Or.inr h)), h.kept (fun h => hm (Or.inl h))]

variable {s : InMemorySaver Ver} {parent : Option String} {checkpoint : Checkpoint Ver}
  {metadata : CheckpointMetadata} {previous : ChannelVersions Ver} {k : String}
  {pre post : List (SaverCall Ver)} {moved : Prop} {d c : DeltaChannel}

-- The saver after a call that files rows, puts a checkpoint and files rows at that.
def called (s : InMemorySaver Ver) (pre : List (SaverCall Ver)) (parent : Option String)
    (checkpoint : Checkpoint Ver) (metadata : CheckpointMetadata)
    (previous : ChannelVersions Ver) (post : List (SaverCall Ver)) : InMemorySaver Ver :=
  ((s.execAll pre).put parent checkpoint metadata
    (getNewChannelVersions previous checkpoint.channelVersions)).execAll post

theorem Advance.new_version
    (h : Advance s k moved (previous.get? k) (checkpoint.channelVersions.get? k)) {v : Ver} :
    (getNewChannelVersions previous checkpoint.channelVersions).get? k = some v ↔
      moved ∧ checkpoint.channelVersions.get? k = some v := by
  rw [get?_getNewChannelVersions, Option.filter_eq_some_iff, decide_eq_true_eq]
  constructor
  · rintro ⟨hv, hnew⟩
    refine ⟨?_, hv⟩
    by_contra hm
    have hprev : previous.get? k = some v := (h.kept hm).symm.trans hv
    rcases hnew with hnil | hlt
    · have hmem := Dict.get?_eq_some.mp hprev
      rw [hnil] at hmem
      cases hmem
    · rw [Dict.getD, hprev] at hlt
      exact lt_irrefl _ hlt
  · rintro ⟨hm, hv⟩
    obtain ⟨w, hw, hlt, hbot, -⟩ := h.drawn hm
    obtain rfl := Option.some.inj (hv.symm.trans hw)
    refine ⟨hv, Or.inr ?_⟩
    rw [Dict.getD]
    cases ho : previous.get? k with
    | none => exact hbot
    | some v' => exact hlt v' ho

theorem blobAt_called_ne (hpre : RowsAt parent pre) (hpost : RowsAt (some checkpoint.id) post)
    (hnone : checkpoint.channelValues.get? k = none)
    (hadv : Advance s k moved (previous.get? k) (checkpoint.channelVersions.get? k)) {id : String}
    (hid : id ≠ checkpoint.id) :
    (s.called pre parent checkpoint metadata previous post).blobAt k id = s.blobAt k id := by
  obtain ⟨hstorage, hblobs, -⟩ := execAll_rowsAt hpre s
  obtain ⟨hstorage', hblobs', -⟩ := execAll_rowsAt hpost ((s.execAll pre).put parent checkpoint
    metadata (getNewChannelVersions previous checkpoint.channelVersions))
  rw [called, blobAt_congr hstorage' hblobs', ← blobAt_congr hstorage hblobs]
  refine blobAt_put_ne hid hnone (fun v hv => ?_)
  obtain ⟨hm, hversion⟩ := hadv.new_version.mp hv
  obtain ⟨w, hw, -, -, hfresh⟩ := hadv.drawn hm
  rw [hblobs, ← Option.some.inj (hw.symm.trans hversion)]
  exact hfresh

theorem blobAt_called_self (hpre : RowsAt parent pre) (hpost : RowsAt (some checkpoint.id) post)
    (hadv : Advance s k moved (previous.get? k) (checkpoint.channelVersions.get? k)) :
    (moved → (s.called pre parent checkpoint metadata previous post).blobAt k checkpoint.id =
        checkpoint.channelValues.get? k) ∧
      (¬ moved → (s.called pre parent checkpoint metadata previous post).blobAt k checkpoint.id =
        (previous.get? k).bind (fun v => (s.blobs.get? (k, v)).join)) := by
  obtain ⟨hstorage, hblobs, -⟩ := execAll_rowsAt hpre s
  obtain ⟨hstorage', hblobs', -⟩ := execAll_rowsAt hpost ((s.execAll pre).put parent checkpoint
    metadata (getNewChannelVersions previous checkpoint.channelVersions))
  rw [called, blobAt_congr hstorage' hblobs', blobAt_put_self, hblobs]
  constructor
  · intro hm
    obtain ⟨w, hw, -, -, -⟩ := hadv.drawn hm
    rw [hw, Option.bind_some, if_pos (hadv.new_version.mpr ⟨hm, hw⟩)]
  · intro hm
    rw [hadv.kept hm]
    cases hv : previous.get? k with
    | none => rfl
    | some v =>
      rw [Option.bind_some, Option.bind_some, if_neg (fun hnew => hm (hadv.new_version.mp hnew).1)]

theorem leftRows_called (hpost : RowsAt (some checkpoint.id) post) {p : String}
    (hp : p ≠ checkpoint.id)
    (hblob : (s.called pre parent checkpoint metadata previous post).blobAt k p =
      (s.execAll pre).blobAt k p) :
    (s.called pre parent checkpoint metadata previous post).leftRows k p =
      (s.execAll pre).leftRows k p := by
  obtain ⟨-, -, hrows⟩ := execAll_rowsAt hpost ((s.execAll pre).put parent checkpoint
    metadata (getNewChannelVersions previous checkpoint.channelVersions))
  rw [leftRows, leftRows, hblob, called, hrows p (fun he => hp (Option.some.inj he))]
  rfl

-- A call that stores no value of its own for the channel, from a stored checkpoint.
theorem readDelta_called {p : String} {entry : SavedCheckpoint Ver} (hs : s.Threaded)
    (hu : s.Unused checkpoint.id) (hpre : RowsAt (some p) pre)
    (hpost : RowsAt (some checkpoint.id) post) (hentry : s.storage.get? p = some entry)
    (hprevious : entry.checkpoint.channelVersions = previous)
    (hnone : checkpoint.channelValues.get? k = none)
    (hadv : Advance s k moved (previous.get? k) (checkpoint.channelVersions.get? k))
    (hb : d.Batching) (hread : s.readDelta d k p = .ok c) :
    (s.called pre (some p) checkpoint metadata previous post).readDelta d k checkpoint.id =
      .ok c ∧ ¬ moved ∧ (s.blobAt k p).isSome = true ∨
    (s.called pre (some p) checkpoint metadata previous post).readDelta d k checkpoint.id =
      c.replayWrites ((s.execAll pre).leftRows k p) ∧
        ¬ (¬ moved ∧ (s.blobAt k p).isSome = true) := by
  obtain ⟨hmoved, hkept⟩ := @blobAt_called_self Ver _ _ s (some p) checkpoint metadata previous k
    pre post moved hpre hpost hadv
  have hframe (id : String) (hid : id ≠ checkpoint.id) := @blobAt_called_ne Ver _ _ s (some p)
    checkpoint metadata previous k pre post moved hpre hpost hnone hadv id hid
  have hp : p ≠ checkpoint.id := by
    rintro rfl
    rw [hu.storage] at hentry
    cases hentry
  have hstored : s.blobAt k p = (previous.get? k).bind (fun v => (s.blobs.get? (k, v)).join) := by
    rw [blobAt, hentry, ← hprevious]
    rfl
  obtain ⟨l, hl⟩ := hs.ends entry.parent
  have hchain : s.Ancestors (some p) (p :: l) := ⟨rfl, entry, hentry, hl⟩
  have hrebuilt := (files_of_calls hpre hpost).rebuilt hu hchain hb hframe hread
  have hleft := @leftRows_called Ver _ _ s (some p) checkpoint metadata previous k pre post hpost p
    hp (by
      obtain ⟨hstorage, hblobs, -⟩ := execAll_rowsAt hpre s
      rw [hframe p hp, blobAt_congr hstorage hblobs])
  have hwalked (h : (s.called pre (some p) checkpoint metadata previous post).blobAt k
      checkpoint.id = none) :
      (s.called pre (some p) checkpoint metadata previous post).readDelta d k checkpoint.id =
        c.replayWrites ((s.execAll pre).leftRows k p) := by
    rw [readDelta, h, ← hleft]
    exact hrebuilt
  by_cases hm : moved
  · exact Or.inr ⟨hwalked ((hmoved hm).trans hnone), fun h => h.1 hm⟩
  · cases hblob : s.blobAt k p with
    | none =>
      refine Or.inr ⟨hwalked ?_, fun h => by cases h.2⟩
      rw [hkept hm, ← hstored, hblob]
    | some b =>
      refine Or.inl ⟨?_, hm, rfl⟩
      rw [readDelta, hblob] at hread
      rw [readDelta, hkept hm, ← hstored, hblob]
      exact hread

theorem readDelta_called_unsaved (hu : s.Unused checkpoint.id) (hne : parent ≠ some checkpoint.id)
    (hl : s.Ancestors parent []) (hpre : RowsAt parent pre)
    (hpost : RowsAt (some checkpoint.id) post) (hprevious : previous.get? k = none)
    (hnone : checkpoint.channelValues.get? k = none)
    (hadv : Advance s k moved (previous.get? k) (checkpoint.channelVersions.get? k)) :
    (s.called pre parent checkpoint metadata previous post).readDelta d k checkpoint.id =
      .ok (d.fromCheckpoint none) := by
  obtain ⟨hmoved, hkept⟩ := @blobAt_called_self Ver _ _ s parent checkpoint metadata previous k
    pre post moved hpre hpost hadv
  have hblob : (s.called pre parent checkpoint metadata previous post).blobAt k checkpoint.id =
      none := by
    by_cases hm : moved
    · exact (hmoved hm).trans hnone
    · rw [hkept hm, hprevious]
      rfl
  have hchain : (s.called pre parent checkpoint metadata previous post).chain checkpoint.id = [] :=
    (files_of_calls hpre hpost).chain hu hne hl
  rw [readDelta, hblob, hchain]
  rfl

theorem readDelta_called_snapshot {v : Value} (hpre : RowsAt parent pre)
    (hpost : RowsAt (some checkpoint.id) post)
    (hsome : checkpoint.channelValues.get? k = some (.deltaSnapshot v))
    (hadv : Advance s k True (previous.get? k) (checkpoint.channelVersions.get? k)) :
    (s.called pre parent checkpoint metadata previous post).readDelta d k checkpoint.id =
      .ok (d.fromCheckpoint (some (.deltaSnapshot v))) := by
  obtain ⟨hmoved, -⟩ := @blobAt_called_self Ver _ _ s parent checkpoint metadata previous k
    pre post True hpre hpost hadv
  rw [readDelta, hmoved trivial, hsome]

-- What a read of the checkpoint gives, and what a checkpoint after it starts from.
structure Shows (s : InMemorySaver Ver) (d : DeltaChannel) (k id : String) (c : DeltaChannel) :
    Prop where
  read : s.readDelta d k id = .ok c
  continued : s.rebuilt d k (id :: s.chain id) = .ok c

omit [OrderBot Ver] in
theorem shows_iff {id : String} (hb : d.Batching) :
    s.Shows d k id c ↔
      s.readDelta d k id = .ok c ∧ c.replayWrites (s.leftRows k id) = .ok c := by
  constructor
  · rintro ⟨hread, hcontinued⟩
    rw [rebuilt_cons hb hread] at hcontinued
    exact ⟨hread, hcontinued⟩
  · rintro ⟨hread, hleft⟩
    exact ⟨hread, (rebuilt_cons hb hread).trans hleft⟩

end InMemorySaver

end LangGraph

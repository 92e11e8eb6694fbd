import LangGraph.Checkpoint.SqliteDelta
import Mathlib.Data.Finset.Card

namespace LangGraph

open Collections

-- The tables of one thread and namespace. Only the inline values stand in the checkpoint; a blob
-- entry `none` has the type "empty", and both tables of writes have the same primary key.
structure PostgresSaver (Ver : Type) where
  checkpoints : Dict String (SavedCheckpoint Ver)
  blobs : Dict (String × Ver) (Option Blob)
  writes : SqliteWrites

namespace PostgresSaver

variable {Ver : Type}

def latest (s : PostgresSaver Ver) : Option String := s.checkpoints.keys.max?

-- A row of stage 1: `ver_i` and `hs_i` for the channel number i.
structure Stage1Row (Ver : Type) where
  parent : Option String
  ver : String → Option Ver
  hs : String → Bool

def stage1Row (saved : SavedCheckpoint Ver) : Stage1Row Ver where
  parent := saved.parent
  ver ch := saved.checkpoint.channelVersions.get? ch
  hs ch := saved.checkpoint.channelValues.contains ch

-- The rows below the cursor, the newest first.
def remaining (s : PostgresSaver Ver) (cursor : Option String) :
    List (String × SavedCheckpoint Ver) :=
  descending Prod.fst (s.checkpoints.items.filter (fun e => cursor.all (e.1 < ·)))

def page (s : PostgresSaver Ver) (size : Nat) (cursor : Option String) :
    List (String × SavedCheckpoint Ver) :=
  (s.remaining cursor).take size

-- `parent_of`, `ver_by_i_by_cid` and `hs_by_i_by_cid` have the same keys.
abbrev Ingested (Ver : Type) := Dict String (Stage1Row Ver)

def ingestStage1Page (rows : List (String × SavedCheckpoint Ver)) (seen : Ingested Ver) :
    Ingested Ver :=
  rows.foldl (fun seen row => seen.set row.1 (stage1Row row.2)) seen

structure Walks (Ver : Type) where
  chain : String → List String
  seedVer : String → Option Ver
  cursor : String → Option (Option String)
  seeded : Finset String

-- One channel's walk up to its snapshot, the root or a row that is not there yet.
structure Advance (Ver : Type) where
  chain : List String
  snapshot : Option (Option Ver)
  cursor : Option String

def advance (seen : Ingested Ver) (ch : String) : Nat → Option String → Option (Advance Ver)
  | _, none => some ⟨[], none, none⟩
  | fuel, some id =>
      match seen.get? id with
      | none => some ⟨[], none, some id⟩
      | some row =>
          if row.hs ch then some ⟨[id], some (row.ver ch), none⟩
          else
            match fuel with
            | 0 => none
            | fuel + 1 => (advance seen ch fuel row.parent).map
                (fun a => { a with chain := id :: a.chain })

def Walks.take (w : Walks Ver) (ch : String) (a : Advance Ver) : Walks Ver where
  chain := Function.update w.chain ch (w.chain ch ++ a.chain)
  seedVer := match a.snapshot with
    | some ver => Function.update w.seedVer ch ver
    | none => w.seedVer
  cursor := Function.update w.cursor ch (some a.cursor)
  seeded := if a.snapshot.isSome then insert ch w.seeded else w.seeded

def tryAdvanceWalks (fuel : Nat) (target : String) (seen : Ingested Ver) :
    List String → Walks Ver → Option (Walks Ver)
  | [], w => some w
  | ch :: channels, w =>
      if ch ∈ w.seeded then tryAdvanceWalks fuel target seen channels w
      else
        (advance seen ch fuel ((w.cursor ch).getD ((seen.get? target).bind Stage1Row.parent))).bind
          (fun a => tryAdvanceWalks fuel target seen channels (w.take ch a))

def Walks.start : Walks Ver := ⟨fun _ => [], fun _ => none, fun _ => none, ∅⟩

-- Page after page; a short page is the last one.
def stage1 (s : PostgresSaver Ver) (fuel size : Nat) (target : String) (channels : List String) :
    Nat → Option String → Ingested Ver → Walks Ver → Option (Walks Ver)
  | 0, _, _, _ => none
  | n + 1, cursor, seen, w =>
      match s.page size cursor with
      | [] => some w
      | row :: rows =>
          let seen := ingestStage1Page (row :: rows) seen
          (tryAdvanceWalks fuel target seen channels w).bind (fun w =>
            if w.seeded.card = channels.length ∨ (row :: rows).length < size then some w
            else s.stage1 fuel size target channels n
              ((row :: rows).getLast?.map Prod.fst) seen w)

-- A branch of stage 2 for each time the channel is asked for.
def stage2 (s : PostgresSaver Ver) (times : Nat) (ch checkpointId : String) :
    List (WriteKey × Write) :=
  (List.replicate times
    ((s.writes.writeRows checkpointId).filter (fun r => r.2.1 = ch))).flatten

def newestFirst (s : PostgresSaver Ver) (times : Nat) (ch checkpointId : String) :
    List PendingWrite :=
  (SqliteSaver.sortedRows (s.stage2 times ch checkpointId)).reverse.map SqliteSaver.pendingRow

def Ancestors (s : PostgresSaver Ver) (cursor : Option String)
    (l : List (String × SavedCheckpoint Ver)) : Prop :=
  SqliteSaver.Ancestors ⟨s.checkpoints, s.writes⟩ cursor l

section Histories

variable [DecidableEq Ver]

def blob (s : PostgresSaver Ver) (ch : String) (version : Ver) : Option Blob :=
  (s.blobs.get? (ch, version)).join

def loadBlobs (s : PostgresSaver Ver) (versions : ChannelVersions Ver) : List (String × Blob) :=
  versions.items.filterMap (fun e => (s.blob e.1 e.2).map (fun b => (e.1, b)))

def loadCheckpoint (s : PostgresSaver Ver) (c : Checkpoint Ver) : Checkpoint Ver :=
  { c with channelValues := c.channelValues.update (s.loadBlobs c.channelVersions) }

def pending (s : PostgresSaver Ver) (checkpointId : String) : List PendingWrite :=
  (SqliteSaver.sortedRows (s.writes.writeRows checkpointId)).map SqliteSaver.pendingRow

def getTuple (s : PostgresSaver Ver) (checkpointId : Option String) :
    Option (CheckpointTuple Ver) := do
  let id ← checkpointId.or s.latest
  let saved ← s.checkpoints.get? id
  return ⟨s.loadCheckpoint saved.checkpoint, saved.metadata, saved.parent, s.pending id⟩

def buildHistory (s : PostgresSaver Ver) (channels : List String) (w : Walks Ver) (ch : String) :
    DeltaChannelHistory :=
  ⟨((w.chain ch).flatMap (s.newestFirst (channels.count ch) ch)).reverse,
    (w.seedVer ch).bind (s.blob ch)⟩

def getDeltaChannelHistories (s : PostgresSaver Ver) (fuel size : Nat)
    (checkpointId : Option String) (channels : List String) :
    Option (List (String × DeltaChannelHistory)) :=
  match checkpointId.or s.latest with
  | none => some (channels.map (fun ch => (ch, ⟨[], none⟩)))
  | some target =>
      (s.stage1 fuel size target channels (s.checkpoints.items.length + 1) none ∅ Walks.start).map
        (fun w => channels.map (fun ch => (ch, s.buildHistory channels w ch)))

-- The same tables with every value in its checkpoint, as the loaded tuples have them.
def loaded (s : PostgresSaver Ver) : SqliteSaver Ver where
  checkpoints := s.checkpoints.mapValues
    (fun saved => { saved with checkpoint := s.loadCheckpoint saved.checkpoint })
  writes := s.writes

def targetParent (s : PostgresSaver Ver) (checkpointId : Option String) : Option String :=
  (s.getTuple (named checkpointId)).bind CheckpointTuple.parent

end Histories

-- What a walk along these ancestors finds: the ids up to the first flag, and the version there.
def found (ch : String) : List (String × SavedCheckpoint Ver) → List String × Option (Option Ver)
  | [] => ([], none)
  | row :: older =>
      if (stage1Row row.2).hs ch then ([row.1], some ((stage1Row row.2).ver ch))
      else (row.1 :: (found ch older).1, (found ch older).2)

section Walks

variable {s : PostgresSaver Ver} {seen : Ingested Ver} {ch target : String}
  {l post : List (String × SavedCheckpoint Ver)} {cur : Option String} {fuel : Nat}
  {w w' : Walks Ver}

def Rows (s : PostgresSaver Ver) (seen : Ingested Ver) : Prop :=
  ∀ id r, seen.get? id = some r → ∃ saved, s.checkpoints.get? id = some saved ∧ r = stage1Row saved

-- What an advanced walk leaves for later pages.
def Advance.Leaves (a : Advance Ver) (s : PostgresSaver Ver) (seen : Ingested Ver) (ch : String)
    (post : List (String × SavedCheckpoint Ver)) : Prop :=
  match a.snapshot with
  | some ver => a.chain = (found ch post).1 ∧ some ver = (found ch post).2
  | none => ∃ rest, s.Ancestors a.cursor rest ∧ rest.length ≤ post.length ∧
      a.chain ++ (found ch rest).1 = (found ch post).1 ∧
      (found ch rest).2 = (found ch post).2 ∧ ∀ id, a.cursor = some id → seen.get? id = none

theorem advance_spec (hseen : s.Rows seen) (h : s.Ancestors cur post)
    (hfuel : post.length < fuel) :
    ∃ a, advance seen ch fuel cur = some a ∧ a.Leaves s seen ch post := by
  induction post generalizing cur fuel with
  | nil =>
    cases cur with
    | none =>
      refine ⟨⟨[], none, none⟩, by cases fuel <;> rfl, [], h, Nat.le_refl _, rfl, rfl, nofun⟩
    | some id =>
      have hnone : seen.get? id = none := by
        cases hget : seen.get? id with
        | none => rfl
        | some r =>
          obtain ⟨saved, hsaved, -⟩ := hseen id r hget
          exact absurd (hsaved.symm.trans h) (by simp)
      refine ⟨⟨[], none, some id⟩, ?_, [], h, Nat.le_refl _, rfl, rfl, fun id' hid => ?_⟩
      · cases fuel <;> simp [advance, hnone]
      · obtain rfl := Option.some.inj hid
        exact hnone
  | cons row older ih =>
    obtain ⟨rfl, hsaved, holder⟩ := SqliteSaver.ancestors_head h
    obtain ⟨fuel, rfl⟩ := Nat.exists_eq_succ_of_ne_zero (Nat.ne_of_gt (Nat.zero_lt_of_lt hfuel))
    cases hget : seen.get? row.1 with
    | none =>
      refine ⟨⟨[], none, some row.1⟩, by simp [advance, hget], row :: older, h, Nat.le_refl _, rfl,
        rfl, fun id hid => ?_⟩
      obtain rfl := Option.some.inj hid
      exact hget
    | some r =>
      obtain ⟨saved, hsaved', rfl⟩ := hseen _ r hget
      obtain rfl : row.2 = saved := Option.some.inj (hsaved.symm.trans hsaved')
      cases hflag : (stage1Row row.2).hs ch with
      | true =>
        refine ⟨⟨[row.1], some ((stage1Row row.2).ver ch), none⟩,
          by simp [advance, hget, hflag], ?_⟩
        simp [Advance.Leaves, found, hflag]
      | false =>
        obtain ⟨a, hadvance, hleaves⟩ := @ih row.2.parent fuel holder (Nat.lt_of_succ_lt_succ hfuel)
        refine ⟨{ a with chain := row.1 :: a.chain }, ?_, ?_⟩
        · have hparent : (stage1Row row.2).parent = row.2.parent := rfl
          simp [advance, hget, hflag, hparent, hadvance]
        · unfold Advance.Leaves at hleaves ⊢
          have hfound : found ch (row :: older) =
              (row.1 :: (found ch older).1, (found ch older).2) := by simp [found, hflag]
          rw [hfound]
          cases hsnapshot : a.snapshot with
          | some ver =>
            rw [hsnapshot] at hleaves
            exact ⟨congrArg (row.1 :: ·) hleaves.1, hleaves.2⟩
          | none =>
            rw [hsnapshot] at hleaves
            obtain ⟨rest, hrest, hlen, hchain, hseed, hblocked⟩ := hleaves
            refine ⟨rest, hrest, Nat.le_succ_of_le hlen, ?_, hseed, hblocked⟩
            exact congrArg (row.1 :: ·) hchain

-- A channel's walk on its way along these ancestors; before its first step the cursor is `start`.
structure Walking (s : PostgresSaver Ver) (start : Option String) (ch : String)
    (l : List (String × SavedCheckpoint Ver)) (w : Walks Ver) : Prop where
  seeded : ch ∈ w.seeded → w.chain ch = (found ch l).1 ∧ some (w.seedVer ch) = (found ch l).2
  walking : ch ∉ w.seeded → w.seedVer ch = none ∧ ∃ post,
    s.Ancestors ((w.cursor ch).getD start) post ∧ post.length ≤ l.length ∧
      w.chain ch ++ (found ch post).1 = (found ch l).1 ∧ (found ch post).2 = (found ch l).2

-- The next ancestor has not been read.
def Blocked (seen : Ingested Ver) (ch : String) (w : Walks Ver) : Prop :=
  ∃ cur, w.cursor ch = some cur ∧ ∀ id, cur = some id → seen.get? id = none

theorem Walking.restart {start start' : Option String} (h : s.Walking start ch l w)
    (hcursor : ch ∉ w.seeded → (w.cursor ch).isSome) : s.Walking start' ch l w := by
  refine ⟨h.seeded, fun hch => ?_⟩
  obtain ⟨cur, hcur⟩ := Option.isSome_iff_exists.mp (hcursor hch)
  obtain ⟨hseed, post, hpost, hrest⟩ := h.walking hch
  rw [hcur, Option.getD_some] at hpost
  refine ⟨hseed, post, ?_, hrest⟩
  rw [hcur, Option.getD_some]
  exact hpost

theorem Walking.take {start : Option String} {a : Advance Ver} (h : s.Walking start ch l w)
    (hch : ch ∉ w.seeded)
    (hleaves : ∀ post, s.Ancestors ((w.cursor ch).getD start) post → post.length ≤ l.length →
      a.Leaves s seen ch post) :
    s.Walking start ch l (w.take ch a) ∧ (ch ∉ (w.take ch a).seeded → Blocked seen ch (w.take ch a)) := by
  obtain ⟨hseed, post, hpost, hlen, hchain, hfound⟩ := h.walking hch
  have ha := hleaves post hpost hlen
  have htaken : (w.take ch a).chain ch = w.chain ch ++ a.chain := Function.update_self ..
  have hcursor : (w.take ch a).cursor ch = some a.cursor := Function.update_self ..
  unfold Advance.Leaves at ha
  cases hsnapshot : a.snapshot with
  | some ver =>
    rw [hsnapshot] at ha
    have hin : ch ∈ (w.take ch a).seeded := by simp [Walks.take, hsnapshot]
    have hver : (w.take ch a).seedVer ch = ver := by simp [Walks.take, hsnapshot]
    refine ⟨⟨fun _ => ⟨?_, ?_⟩, fun hout => absurd hin hout⟩, fun hout => absurd hin hout⟩
    · rw [htaken, ha.1, hchain]
    · rw [hver, ha.2, hfound]
  | none =>
    rw [hsnapshot] at ha
    obtain ⟨rest, hrest, hshort, hmore, hsame, hblocked⟩ := ha
    have hout : ch ∉ (w.take ch a).seeded := by simpa [Walks.take, hsnapshot] using hch
    have hver : (w.take ch a).seedVer ch = none := by simpa [Walks.take, hsnapshot] using hseed
    refine ⟨⟨fun hin => absurd hin hout, fun _ => ⟨hver, rest, ?_, hshort.trans hlen, ?_, ?_⟩⟩,
      fun _ => ⟨a.cursor, hcursor, hblocked⟩⟩
    · rw [hcursor, Option.getD_some]
      exact hrest
    · rw [htaken, List.append_assoc, hmore, hchain]
    · rw [hsame, hfound]

theorem Walks.take_other {a : Advance Ver} {other : String} (h : other ≠ ch) :
    (w.take ch a).chain other = w.chain other ∧ (w.take ch a).cursor other = w.cursor other ∧
      (w.take ch a).seedVer other = w.seedVer other ∧
      (other ∈ (w.take ch a).seeded ↔ other ∈ w.seeded) := by
  refine ⟨Function.update_of_ne h _ _, Function.update_of_ne h _ _, ?_, ?_⟩
  · unfold Walks.take
    cases a.snapshot with
    | some ver => exact Function.update_of_ne h _ _
    | none => rfl
  · unfold Walks.take
    cases a.snapshot with
    | some ver => simp [h]
    | none => simp

theorem Walks.seeded_take (w : Walks Ver) (ch : String) (a : Advance Ver) :
    (w.take ch a).seeded ⊆ insert ch w.seeded := by
  change (if a.snapshot.isSome then insert ch w.seeded else w.seeded) ⊆ insert ch w.seeded
  split
  · exact Finset.Subset.refl _
  · exact Finset.subset_insert _ _

theorem Walking.take_other {start : Option String} {a : Advance Ver} {other : String}
    (h : s.Walking start other l w) (hne : other ≠ ch) : s.Walking start other l (w.take ch a) := by
  obtain ⟨hchain, hcursor, hseed, hseeded⟩ := @Walks.take_other Ver ch w a other hne
  refine ⟨fun hin => ?_, fun hout => ?_⟩
  · rw [hchain, hseed]
    exact h.seeded (hseeded.mp hin)
  · rw [hchain, hcursor, hseed]
    exact h.walking (fun hin => hout (hseeded.mpr hin))

structure Settled (s : PostgresSaver Ver) (start : Option String) (seen : Ingested Ver)
    (l : List (String × SavedCheckpoint Ver)) (ch : String) (w : Walks Ver) : Prop where
  walking : s.Walking start ch l w
  blocked : ch ∉ w.seeded → Blocked seen ch w

theorem Settled.take_other {start : Option String} {a : Advance Ver} {other : String}
    (h : s.Settled start seen l other w) (hne : other ≠ ch) :
    s.Settled start seen l other (w.take ch a) := by
  refine ⟨h.walking.take_other hne, fun hout => ?_⟩
  obtain ⟨-, hcursor, -, hseeded⟩ := @Walks.take_other Ver ch w a other hne
  unfold Blocked
  rw [hcursor]
  exact h.blocked (fun hin => hout (hseeded.mpr hin))

theorem tryAdvance_spec {start : Option String} (hseen : s.Rows seen) (hfuel : l.length < fuel)
    (hstart : (seen.get? target).bind Stage1Row.parent = start) (channels : List String)
    (h : ∀ ch ∈ channels, s.Walking start ch l w) :
    ∃ w', tryAdvanceWalks fuel target seen channels w = some w' ∧
      (∀ ch, s.Walking start ch l w → s.Walking start ch l w') ∧
      (∀ ch, s.Settled start seen l ch w → s.Settled start seen l ch w') ∧
      (∀ ch ∈ channels, s.Settled start seen l ch w') ∧
      w'.seeded ⊆ w.seeded ∪ channels.toFinset := by
  induction channels generalizing w with
  | nil => exact ⟨w, rfl, fun _ hw => hw, fun _ hw => hw, nofun, by simp⟩
  | cons c channels ih =>
    obtain ⟨hc, hrest⟩ := List.forall_mem_cons.mp h
    unfold tryAdvanceWalks
    split
    · rename_i hin
      obtain ⟨w', hw', hwalking, hsettled, hall, hsub⟩ := ih hrest
      refine ⟨w', hw', hwalking, hsettled, List.forall_mem_cons.mpr ⟨hsettled c ?_, hall⟩, ?_⟩
      · exact ⟨hc, fun hout => absurd hin hout⟩
      · exact hsub.trans (Finset.union_subset_union_right (by simp))
    · rename_i hout
      obtain ⟨-, post, hpost, hlen, -⟩ := hc.walking hout
      rw [hstart]
      obtain ⟨a, hadvance, hleaves⟩ :=
        @advance_spec Ver s seen c post _ fuel hseen hpost (Nat.lt_of_le_of_lt hlen hfuel)
      have hunique (post' : List (String × SavedCheckpoint Ver))
          (hpost' : s.Ancestors ((w.cursor c).getD start) post') (hlen' : post'.length ≤ l.length) :
          a.Leaves s seen c post' := by
        obtain ⟨a', hadvance', hleaves'⟩ :=
          @advance_spec Ver s seen c post' _ fuel hseen hpost' (Nat.lt_of_le_of_lt hlen' hfuel)
        obtain rfl := Option.some.inj (hadvance.symm.trans hadvance')
        exact hleaves'
      obtain ⟨htaken, hblocked⟩ := hc.take hout hunique
      have hstep (ch : String) (hch : s.Walking start ch l w) :
          s.Walking start ch l (w.take c a) := by
        by_cases hne : ch = c
        · subst hne
          exact htaken
        · exact hch.take_other hne
      have hkeep (ch : String) (hch : s.Settled start seen l ch w) :
          s.Settled start seen l ch (w.take c a) := by
        by_cases hne : ch = c
        · subst hne
          exact ⟨htaken, hblocked⟩
        · exact hch.take_other hne
      obtain ⟨w', hw', hwalking, hsettled, hall, hsub⟩ :=
        ih (fun ch hch => hstep ch (hrest ch hch))
      refine ⟨w', ?_, fun ch hch => hwalking ch (hstep ch hch),
        fun ch hch => hsettled ch (hkeep ch hch),
        List.forall_mem_cons.mpr ⟨hsettled c ⟨htaken, hblocked⟩, hall⟩, ?_⟩
      · rw [hadvance, Option.bind_some]
        exact hw'
      · refine hsub.trans (Finset.union_subset ?_ ?_)
        · intro x hx
          rcases Finset.mem_insert.mp (w.seeded_take c a hx) with rfl | hx
          · simp
          · simp [hx]
        · intro x hx
          simp [List.mem_toFinset.mp hx]

structure Ended (ch : String) (l : List (String × SavedCheckpoint Ver)) (w : Walks Ver) : Prop where
  chain : w.chain ch = (found ch l).1
  seedVer : w.seedVer ch = (found ch l).2.join

theorem Walking.ended_of_seeded {start : Option String} (h : s.Walking start ch l w)
    (hch : ch ∈ w.seeded) : Ended ch l w := by
  obtain ⟨hchain, hseed⟩ := h.seeded hch
  exact ⟨hchain, by rw [← hseed]; rfl⟩

-- Once every row is read, a walk that has no seed has reached the end of the chain.
theorem Settled.ended {start : Option String} (h : s.Settled start seen l ch w)
    (hall : ∀ id saved, s.checkpoints.get? id = some saved → (seen.get? id).isSome) :
    Ended ch l w := by
  by_cases hch : ch ∈ w.seeded
  · exact h.walking.ended_of_seeded hch
  · obtain ⟨cur, hcur, hblocked⟩ := h.blocked hch
    obtain ⟨hseed, post, hpost, -, hchain, hfound⟩ := h.walking.walking hch
    rw [hcur, Option.getD_some] at hpost
    cases post with
    | nil =>
      refine ⟨?_, ?_⟩
      · rw [← hchain, found, List.append_nil]
      · rw [hseed, ← hfound]
        rfl
    | cons row older =>
      obtain ⟨hid, hsaved, -⟩ := SqliteSaver.ancestors_head hpost
      have hread := hall row.1 row.2 hsaved
      rw [hblocked row.1 hid] at hread
      cases hread

theorem get?_ingest (rows : List (String × SavedCheckpoint Ver)) (seen : Ingested Ver)
    (hrows : StrictlyDescends Prod.fst rows) (id : String) :
    (ingestStage1Page rows seen).get? id =
      ((rows.find? (fun row => row.1 = id)).map (fun row => stage1Row row.2)).or (seen.get? id) := by
  induction rows generalizing seen with
  | nil => rfl
  | cons row rows ih =>
    obtain ⟨hlt, hrest⟩ := List.pairwise_cons.mp hrows
    have hstep : ingestStage1Page (row :: rows) seen =
        ingestStage1Page rows (seen.set row.1 (stage1Row row.2)) := rfl
    rw [hstep, ih _ hrest]
    by_cases hid : row.1 = id
    · have hnone : rows.find? (fun row => row.1 = id) = none := by
        refine List.find?_eq_none.mpr (fun other hother => ?_)
        have hne : other.1 ≠ id := fun heq => lt_irrefl _ (hid ▸ heq ▸ hlt other hother)
        simpa using hne
      rw [hnone, List.find?_cons_of_pos (by simpa using hid), hid, Dict.get?_set_self]
      rfl
    · rw [List.find?_cons_of_neg (by simpa using hid),
        Dict.get?_set_ne _ (fun heq => hid heq.symm)]

theorem mem_remaining {cursor : Option String} {row : String × SavedCheckpoint Ver} :
    row ∈ s.remaining cursor ↔ s.checkpoints.get? row.1 = some row.2 ∧
      ∀ id, cursor = some id → row.1 < id := by
  rw [remaining, (descending_perm _).mem_iff, List.mem_filter, Dict.get?_eq_some]
  cases cursor with
  | none => simp
  | some id => simp

theorem remaining_descends (cursor : Option String) :
    StrictlyDescends Prod.fst (s.remaining cursor) := by
  have hnodup : ((s.remaining cursor).map Prod.fst).Nodup := by
    refine ((descending_perm _).map Prod.fst).nodup_iff.mpr ?_
    exact s.checkpoints.nodup.sublist (List.filter_sublist.map Prod.fst)
  have hle : Descends Prod.fst (s.remaining cursor) := descends_descending _
  exact (hle.and (List.pairwise_map.mp hnodup)).imp fun hab => lt_of_le_of_ne hab.1 hab.2.symm

-- The next page begins where the last one ended.
theorem remaining_next {cursor : Option String} {page rest : List (String × SavedCheckpoint Ver)}
    {last : String × SavedCheckpoint Ver} (h : s.remaining cursor = page ++ rest)
    (hlast : page.getLast? = some last) : s.remaining (some last.1) = rest := by
  have hdescends := @remaining_descends Ver s cursor
  rw [h] at hdescends
  obtain ⟨hpage, hrest, hcross⟩ := List.pairwise_append.mp hdescends
  have hmem := List.mem_of_getLast? hlast
  have hbelow (row : String × SavedCheckpoint Ver) :
      row ∈ s.remaining (some last.1) ↔ row ∈ rest := by
    rw [mem_remaining]
    constructor
    · rintro ⟨hsaved, hlt⟩
      have hlow := hlt last.1 rfl
      have hin : row ∈ s.remaining cursor := by
        refine mem_remaining.mpr ⟨hsaved, fun id hid => lt_trans hlow ?_⟩
        exact (mem_remaining.mp (h ▸ List.mem_append_left rest hmem)).2 id hid
      rw [h] at hin
      refine (List.mem_append.mp hin).resolve_left (fun hpaged => ?_)
      obtain ⟨init, rfl⟩ := List.getLast?_eq_some_iff.mp hlast
      rcases List.mem_append.mp hpaged with hinit | hown
      · have habove := (List.pairwise_append.mp hpage).2.2 row hinit last (List.mem_singleton_self _)
        exact absurd hlow (lt_asymm habove)
      · rw [List.mem_singleton.mp hown] at hlow
        exact lt_irrefl _ hlow
    · intro hin
      have hrow : row ∈ s.remaining cursor := h ▸ List.mem_append_right page hin
      refine ⟨(mem_remaining.mp hrow).1, fun id hid => ?_⟩
      obtain rfl := Option.some.inj hid
      exact hcross last hmem row hin
  have hnodup {l : List (String × SavedCheckpoint Ver)} (hl : StrictlyDescends Prod.fst l) :
      l.Nodup := by
    refine List.Pairwise.imp ?_ hl
    rintro a b hlt rfl
    exact lt_irrefl _ hlt
  have hperm : (s.remaining (some last.1)).Perm rest :=
    (List.perm_ext_iff_of_nodup (hnodup (remaining_descends _)) (hnodup hrest)).mpr hbelow
  exact eq_of_strictlyDescends (remaining_descends _).descends hperm hrest

-- The rows below the cursor have not been read, all others have.
structure Paged (s : PostgresSaver Ver) (cursor : Option String) (seen : Ingested Ver) : Prop where
  rows : s.Rows seen
  read : ∀ id saved, s.checkpoints.get? id = some saved →
    (id, saved) ∉ s.remaining cursor → (seen.get? id).isSome

theorem Paged.ingest {cursor : Option String} {rest : List (String × SavedCheckpoint Ver)}
    {page : List (String × SavedCheckpoint Ver)} (h : s.Paged cursor seen)
    (hpage : s.remaining cursor = page ++ rest) :
    s.Rows (ingestStage1Page page seen) ∧
      ∀ id saved, s.checkpoints.get? id = some saved → (id, saved) ∉ rest →
        ((ingestStage1Page page seen).get? id).isSome := by
  have hdescends := @remaining_descends Ver s cursor
  rw [hpage] at hdescends
  have hget := get?_ingest page seen (List.pairwise_append.mp hdescends).1
  constructor
  · intro id r hr
    rw [hget] at hr
    cases hfind : page.find? (fun row => row.1 = id) with
    | none =>
      rw [hfind] at hr
      exact h.rows id r hr
    | some row =>
      rw [hfind] at hr
      obtain rfl := Option.some.inj hr
      have hmem : row ∈ s.remaining cursor :=
        hpage ▸ List.mem_append_left rest (List.mem_of_find?_eq_some hfind)
      have hid : row.1 = id := by simpa using List.find?_some hfind
      exact ⟨row.2, hid ▸ (mem_remaining.mp hmem).1, rfl⟩
  · intro id saved hsaved hrest
    rw [hget]
    by_cases hin : (id, saved) ∈ page
    · have hsome : (page.find? (fun row => row.1 = id)).isSome = true :=
        List.find?_isSome.mpr ⟨(id, saved), hin, by simp⟩
      obtain ⟨row, hrow⟩ := Option.isSome_iff_exists.mp hsome
      rw [hrow]
      rfl
    · have hout : (id, saved) ∉ s.remaining cursor := by
        rw [hpage, List.mem_append]
        exact not_or.mpr ⟨hin, hrest⟩
      cases page.find? (fun row => row.1 = id) with
      | some row => rfl
      | none => exact h.read id saved hsaved hout

theorem ended_of_all_seeded {start : Option String} {channels : List String}
    (h : ∀ ch ∈ channels, s.Walking start ch l w) (hsub : w.seeded ⊆ channels.toFinset)
    (hcard : w.seeded.card = channels.length) : ∀ ch ∈ channels, Ended ch l w := by
  intro ch hch
  have hle : channels.toFinset.card ≤ w.seeded.card := hcard ▸ channels.toFinset_card_le
  have heq := Finset.eq_of_subset_of_card_le hsub hle
  exact (h ch hch).ended_of_seeded (heq ▸ List.mem_toFinset.mpr hch)

theorem stage1_spec {size n : Nat} {cursor : Option String} {channels : List String}
    (hfuel : l.length < fuel) (hpaged : s.Paged cursor seen)
    (hlen : 0 < size → (s.remaining cursor).length < n) (hn : 0 < n)
    (hsub : w.seeded ⊆ channels.toFinset)
    (hnext : ∀ ch ∈ channels, s.Walking
      (((ingestStage1Page (s.page size cursor) seen).get? target).bind Stage1Row.parent) ch l w)
    (hlast : s.page size cursor = [] → ∀ ch ∈ channels, Ended ch l w) :
    ∃ w', s.stage1 fuel size target channels n cursor seen w = some w' ∧
      ∀ ch ∈ channels, Ended ch l w' := by
  induction n generalizing cursor seen w with
  | zero => exact absurd hn (Nat.lt_irrefl 0)
  | succ n ih =>
    unfold stage1
    cases hpage : s.page size cursor with
    | nil => exact ⟨w, rfl, hlast hpage⟩
    | cons row rows =>
      have hsplit : s.remaining cursor = (row :: rows) ++ (s.remaining cursor).drop size := by
        rw [← hpage, page, List.take_append_drop]
      obtain ⟨hrows, hread⟩ := hpaged.ingest hsplit
      rw [hpage] at hnext
      obtain ⟨w', hw', -, -, hsettled, hseeded⟩ := tryAdvance_spec hrows hfuel rfl channels hnext
      have hsub' : w'.seeded ⊆ channels.toFinset :=
        hseeded.trans (Finset.union_subset hsub (Finset.Subset.refl _))
      simp only [hw', Option.bind_some]
      have hpos : 0 < size := by
        cases size with
        | zero => simp [page] at hpage
        | succ size => exact Nat.succ_pos size
      have hall (hrest : (s.remaining cursor).drop size = []) :
          ∀ ch ∈ channels, Ended ch l w' := by
        intro ch hch
        refine (hsettled ch hch).ended (fun id saved hsaved => hread id saved hsaved ?_)
        rw [hrest]
        exact List.not_mem_nil
      split
      · rename_i hstop
        refine ⟨w', rfl, ?_⟩
        rcases hstop with hcard | hshort
        · exact ended_of_all_seeded (fun ch hch => (hsettled ch hch).walking) hsub' hcard
        · apply hall
          rw [← hpage, page, List.length_take] at hshort
          exact List.drop_eq_nil_of_le (by omega)
      · obtain ⟨last, hlast'⟩ : ∃ last, (row :: rows).getLast? = some last :=
          ⟨_, List.getLast?_eq_getLast_of_ne_nil (List.cons_ne_nil row rows)⟩
        have hremaining := remaining_next hsplit hlast'
        rw [hlast', Option.map_some]
        have hlength := hlen hpos
        have hdrop : (s.remaining (some last.1)).length < n := by
          have htotal := congrArg List.length hsplit
          rw [List.length_append, List.length_cons] at htotal
          rw [hremaining]
          omega
        refine ih ⟨hrows, fun id saved hsaved hout => ?_⟩ (fun _ => hdrop)
          (Nat.zero_lt_of_lt hdrop) hsub' (fun ch hch => ?_) (fun hempty => ?_)
        · rw [hremaining] at hout
          exact hread id saved hsaved hout
        · refine (hsettled ch hch).walking.restart (fun hout => ?_)
          obtain ⟨cur, hcur, -⟩ := (hsettled ch hch).blocked hout
          rw [hcur]
          rfl
        · apply hall
          rw [← hremaining]
          rw [page, List.take_eq_nil_iff] at hempty
          exact hempty.resolve_left (Nat.ne_of_gt hpos)

theorem page_descends (size : Nat) (cursor : Option String) :
    StrictlyDescends Prod.fst (s.page size cursor) :=
  (remaining_descends cursor).sublist (List.take_sublist _ _)

theorem first_page_of_mem {size : Nat}
    (h : target ∈ (s.page size none).map Prod.fst) :
    ∃ saved, s.checkpoints.get? target = some saved ∧
      ((ingestStage1Page (s.page size none) ∅).get? target).bind Stage1Row.parent =
        saved.parent := by
  obtain ⟨row, hrow, rfl⟩ := List.mem_map.mp h
  have hsaved := (mem_remaining.mp (List.mem_of_mem_take hrow)).1
  refine ⟨row.2, hsaved, ?_⟩
  rw [get?_ingest _ _ (page_descends size none)]
  obtain ⟨other, hother⟩ : ∃ other, (s.page size none).find? (fun r => r.1 = row.1) = some other :=
    Option.isSome_iff_exists.mp (List.find?_isSome.mpr ⟨row, hrow, by simp⟩)
  have hid : other.1 = row.1 := by simpa using List.find?_some hother
  have hmem := List.mem_of_find?_eq_some hother
  have hothers := (mem_remaining.mp (List.mem_of_mem_take hmem)).1
  rw [hid] at hothers
  rw [hother, Option.some.inj (hsaved.symm.trans hothers)]
  rfl

theorem first_page_of_not_mem {size : Nat}
    (h : target ∉ (s.page size none).map Prod.fst) :
    ((ingestStage1Page (s.page size none) ∅).get? target).bind Stage1Row.parent = none := by
  rw [get?_ingest _ _ (page_descends size none)]
  have hnone : (s.page size none).find? (fun r => r.1 = target) = none := by
    refine List.find?_eq_none.mpr (fun row hrow => ?_)
    have hne : row.1 ≠ target := fun heq => h (List.mem_map.mpr ⟨row, hrow, heq⟩)
    simpa using hne
  rw [hnone]
  rfl

theorem walking_start {start : Option String} (h : s.Ancestors start l) :
    s.Walking start ch l Walks.start :=
  ⟨fun hin => absurd hin (Finset.notMem_empty ch),
    fun _ => ⟨rfl, l, h, Nat.le_refl _, rfl, rfl⟩⟩

theorem stage1_start {size : Nat} (channels : List String)
    (hfuel : l.length < fuel)
    (hstart : s.Ancestors
      (((ingestStage1Page (s.page size none) ∅).get? target).bind Stage1Row.parent) l)
    (hempty : s.page size none = [] → l = []) :
    ∃ w, s.stage1 fuel size target channels (s.checkpoints.items.length + 1) none ∅ Walks.start =
        some w ∧ ∀ ch ∈ channels, Ended ch l w := by
  have hlength : (s.remaining none).length = s.checkpoints.items.length := by
    rw [remaining, (descending_perm _).length_eq]
    simp
  have hnone : s.Rows ∅ := fun id r hr => absurd hr (by simp)
  refine stage1_spec hfuel ⟨hnone, fun id saved hsaved hout => ?_⟩
    (fun _ => hlength ▸ Nat.lt_succ_self _) (Nat.succ_pos _) (Finset.empty_subset _)
    (fun ch _ => walking_start hstart) (fun hpage ch _ => ?_)
  · have hall : ∀ id', none = some id' → id < id' := fun _ heq => absurd heq (by simp)
    exact absurd (mem_remaining.mpr ⟨hsaved, hall⟩) hout
  · obtain rfl := hempty hpage
    exact ⟨rfl, rfl⟩

end Walks

section Agreement

variable [DecidableEq Ver] {s : PostgresSaver Ver} {ch : String} {cursor : Option String}
  {l : List (String × SavedCheckpoint Ver)}

def versionBlob (s : PostgresSaver Ver) (ch : String) (row : String × SavedCheckpoint Ver) :
    Option Blob :=
  (row.2.checkpoint.channelVersions.get? ch).bind (s.blob ch)

def walked (s : PostgresSaver Ver) (times : Nat) (ch : String)
    (l : List (String × SavedCheckpoint Ver)) : DeltaChannelHistory :=
  ⟨((found ch l).1.flatMap (s.newestFirst times ch)).reverse,
    (found ch l).2.join.bind (s.blob ch)⟩

def OnFirstPage (s : PostgresSaver Ver) (size : Nat) (checkpointId : Option String) : Prop :=
  ∃ target, checkpointId.or s.latest = some target ∧ target ∈ (s.page size none).map Prod.fst

-- The walk that passes a plain blob finds the same value below it, and no write on the way.
def Rests (s : PostgresSaver Ver) (ch : String) (b : Blob) :
    List (String × SavedCheckpoint Ver) → Prop
  | [] => False
  | row :: older =>
      s.loaded.stage2 ch row.1 = [] ∧
        if row.2.checkpoint.channelValues.contains ch then s.versionBlob ch row = some b
        else s.Rests ch b older

-- Where a row has an inline entry there is a blob, and a blob without one makes no difference.
def Reads (s : PostgresSaver Ver) (ch : String) : List (String × SavedCheckpoint Ver) → Prop
  | [] => True
  | row :: older =>
      if row.2.checkpoint.channelValues.contains ch then (s.versionBlob ch row).isSome = true
      else
        match s.versionBlob ch row with
        | some b => s.Rests ch b older
        | none => s.Reads ch older

-- A channel that is asked for twice has its writes twice.
structure Faithful (s : PostgresSaver Ver) (channels : List String) (ch : String)
    (l : List (String × SavedCheckpoint Ver)) : Prop where
  reads : s.Reads ch l
  once : channels.count ch = 1 ∨ ∀ id ∈ (found ch l).1, s.loaded.stage2 ch id = []

def load (s : PostgresSaver Ver) (row : String × SavedCheckpoint Ver) :
    String × SavedCheckpoint Ver :=
  (row.1, { row.2 with checkpoint := s.loadCheckpoint row.2.checkpoint })

theorem get?_loadBlobs (d : Dict String Blob) (versions : ChannelVersions Ver) :
    (d.update (s.loadBlobs versions)).get? ch =
      ((versions.get? ch).bind (s.blob ch)).or (d.get? ch) := by
  have hitems : s.loadBlobs versions = (versions.filterMap s.blob).items := rfl
  rw [hitems, Dict.get?_update_items, Dict.get?_filterMap]

theorem stored_load (row : String × SavedCheckpoint Ver) :
    SqliteSaver.stored ch (s.load row) =
      (s.versionBlob ch row).or (row.2.checkpoint.channelValues.get? ch) :=
  get?_loadBlobs row.2.checkpoint.channelValues row.2.checkpoint.channelVersions

theorem get?_loaded (id : String) :
    s.loaded.checkpoints.get? id = (s.checkpoints.get? id).map (fun saved => (s.load (id, saved)).2) :=
  Dict.get?_mapValues _ _ _

theorem keys_loaded : s.loaded.checkpoints.keys = s.checkpoints.keys := by
  simp only [loaded, Dict.keys, Dict.mapValues, List.map_map, Function.comp_def]

theorem getTuple_loaded : s.loaded.getTuple = s.getTuple := by
  funext checkpointId
  have hlatest : s.loaded.latest = s.latest := by
    rw [SqliteSaver.latest, latest, keys_loaded]
  rw [SqliteSaver.getTuple, getTuple, hlatest]
  cases checkpointId.or s.latest with
  | none => rfl
  | some id =>
    simp only [Option.bind_eq_bind, Option.bind_some, get?_loaded]
    cases s.checkpoints.get? id <;> rfl

theorem ancestors_loaded (h : s.Ancestors cursor l) :
    s.loaded.Ancestors cursor (l.map s.load) := by
  induction l generalizing cursor with
  | nil =>
    cases cursor with
    | none => rfl
    | some id =>
      have hnone : s.checkpoints.get? id = none := h
      have hloaded := @get?_loaded Ver _ s id
      rw [hnone] at hloaded
      exact hloaded
  | cons row older ih =>
    obtain ⟨rfl, hsaved, holder⟩ := SqliteSaver.ancestors_head h
    refine ⟨rfl, ?_, ih holder⟩
    have hown : s.checkpoints.get? row.1 = some row.2 := hsaved
    rw [get?_loaded, hown]
    rfl

theorem base_histories (hempty : "" ∉ s.checkpoints.keys) {checkpointId : Option String}
    (h : s.Ancestors (s.targetParent checkpointId) l) {fuel : Nat} (hfuel : l.length < fuel)
    (channels : List String) :
    BaseCheckpointSaver.getDeltaChannelHistory s.getTuple fuel checkpointId channels =
      some (channels.map (fun ch =>
        (ch, Gathered.along ch ((l.map s.load).map s.loaded.baseVisit)))) := by
  rw [← getTuple_loaded]
  have htarget : s.loaded.targetParent checkpointId = s.targetParent checkpointId := by
    rw [SqliteSaver.targetParent, targetParent, getTuple_loaded]
  refine SqliteSaver.base_histories ?_ ?_ ?_ channels
  · rw [keys_loaded]
    exact hempty
  · rw [htarget]
    exact ancestors_loaded h
  · rw [List.length_map]
    exact hfuel

theorem newestFirst_once (id : String) :
    s.newestFirst 1 ch id = (s.loaded.stage2 ch id).reverse := by
  rw [newestFirst, stage2, List.replicate_one, List.flatten_singleton, List.map_reverse]
  rfl

theorem length_newestFirst (times : Nat) (id : String) :
    (s.newestFirst times ch id).length = times * (s.loaded.stage2 ch id).length := by
  rw [newestFirst, List.length_map, List.length_reverse, SqliteSaver.sortedRows,
    List.length_insertionSort, stage2, List.length_flatten, List.map_replicate,
    List.sum_replicate_nat, SqliteSaver.stage2, List.length_map, SqliteSaver.sortedRows,
    List.length_insertionSort]
  rfl

theorem walked_cons (row : String × SavedCheckpoint Ver)
    (older : List (String × SavedCheckpoint Ver)) :
    s.walked 1 ch (row :: older) =
      if row.2.checkpoint.channelValues.contains ch then
        ⟨s.loaded.stage2 ch row.1, s.versionBlob ch row⟩
      else ⟨(s.walked 1 ch older).writes ++ s.loaded.stage2 ch row.1, (s.walked 1 ch older).seed⟩ := by
  by_cases hflag : row.2.checkpoint.channelValues.contains ch = true
  · have hfound : found ch (row :: older) =
        ([row.1], some (row.2.checkpoint.channelVersions.get? ch)) := if_pos hflag
    rw [if_pos hflag, walked, hfound, List.flatMap_singleton, newestFirst_once,
      List.reverse_reverse]
    rfl
  · have hfound : found ch (row :: older) = (row.1 :: (found ch older).1, (found ch older).2) :=
      if_neg hflag
    rw [if_neg hflag, walked, hfound, List.flatMap_cons, List.reverse_append, newestFirst_once,
      List.reverse_reverse]
    rfl

theorem walked_rests_iff {b : Blob} : s.walked 1 ch l = ⟨[], some b⟩ ↔ s.Rests ch b l := by
  induction l with
  | nil => simp [walked, found, Rests]
  | cons row older ih =>
    rw [walked_cons, Rests]
    split
    · rw [InMemorySaver.history_ext_iff]
    · rw [InMemorySaver.history_ext_iff, List.append_eq_nil_iff, ← ih,
        InMemorySaver.history_ext_iff]
      tauto

theorem along_walked_iff :
    Gathered.along ch ((l.map s.load).map s.loaded.baseVisit) = s.walked 1 ch l ↔
      s.Reads ch l := by
  induction l with
  | nil => simp [Gathered.along, walked, found, Reads]
  | cons row older ih =>
    have hid : (s.load row).1 = row.1 := rfl
    rw [List.map_cons, SqliteSaver.along_cons, walked_cons, Reads, stored_load, hid]
    by_cases hflag : row.2.checkpoint.channelValues.contains ch = true
    · obtain ⟨value, hvalue⟩ := Option.isSome_iff_exists.mp hflag
      rw [if_pos hflag, if_pos hflag, hvalue]
      cases s.versionBlob ch row with
      | some b => simp [SqliteSaver.after]
      | none => simp [SqliteSaver.after]
    · have hnone : row.2.checkpoint.channelValues.get? ch = none := by
        simpa [Dict.contains] using hflag
      rw [if_neg hflag, if_neg hflag, hnone, Option.or_none]
      cases s.versionBlob ch row with
      | some b =>
        simp only [SqliteSaver.after]
        rw [← walked_rests_iff]
        rw [InMemorySaver.history_ext_iff, InMemorySaver.history_ext_iff]
        simp
        tauto
      | none =>
        simp only [SqliteSaver.after]
        rw [← ih, InMemorySaver.history_ext_iff, InMemorySaver.history_ext_iff,
          List.append_left_inj]

theorem length_walked (times : Nat) :
    (s.walked times ch l).writes.length = times * (s.walked 1 ch l).writes.length := by
  have hsum (ids : List String) :
      (ids.flatMap (s.newestFirst times ch)).length =
        times * (ids.flatMap (s.newestFirst 1 ch)).length := by
    induction ids with
    | nil => rfl
    | cons id ids ih =>
      rw [List.flatMap_cons, List.flatMap_cons, List.length_append, List.length_append, ih,
        length_newestFirst, length_newestFirst, Nat.one_mul, Nat.mul_add]
  rw [walked, walked, List.length_reverse, List.length_reverse, hsum]

theorem along_length_le :
    (Gathered.along ch ((l.map s.load).map s.loaded.baseVisit)).writes.length ≤
      (s.walked 1 ch l).writes.length := by
  induction l with
  | nil => exact Nat.le_refl 0
  | cons row older ih =>
    have hid : (s.load row).1 = row.1 := rfl
    rw [List.map_cons, SqliteSaver.along_cons, walked_cons, stored_load, hid]
    by_cases hflag : row.2.checkpoint.channelValues.contains ch = true
    · obtain ⟨value, hvalue⟩ := Option.isSome_iff_exists.mp hflag
      rw [if_pos hflag, hvalue]
      cases s.versionBlob ch row with
      | some b => exact Nat.le_refl _
      | none => exact Nat.le_refl _
    · have hnone : row.2.checkpoint.channelValues.get? ch = none := by
        simpa [Dict.contains] using hflag
      rw [if_neg hflag, hnone, Option.or_none]
      cases s.versionBlob ch row with
      | some b => simp [SqliteSaver.after]
      | none => simpa [SqliteSaver.after] using ih

theorem walked_bare_iff :
    (s.walked 1 ch l).writes = [] ↔ ∀ id ∈ (found ch l).1, s.loaded.stage2 ch id = [] := by
  rw [walked, List.reverse_eq_nil_iff, List.flatMap_eq_nil_iff]
  refine forall₂_congr fun id _ => ?_
  rw [newestFirst_once, List.reverse_eq_nil_iff]

theorem along_faithful_iff {channels : List String} (hch : ch ∈ channels) :
    Gathered.along ch ((l.map s.load).map s.loaded.baseVisit) =
        s.walked (channels.count ch) ch l ↔ s.Faithful channels ch l := by
  have hone (h : channels.count ch = 1 ∨ (s.walked 1 ch l).writes = []) :
      s.walked (channels.count ch) ch l = s.walked 1 ch l := by
    rcases h with hcount | hbare
    · rw [hcount]
    · rw [InMemorySaver.history_ext_iff]
      refine ⟨?_, rfl⟩
      rw [hbare]
      apply List.eq_nil_of_length_eq_zero
      rw [length_walked, hbare]
      rfl
  constructor
  · intro heq
    have hcount : channels.count ch = 1 ∨ (s.walked 1 ch l).writes = [] := by
      have hlen := @along_length_le Ver _ s ch l
      rw [heq, length_walked] at hlen
      have hpos := List.count_pos_iff.mpr hch
      by_cases hbare : (s.walked 1 ch l).writes = []
      · exact Or.inr hbare
      · have hwrites := List.length_pos_iff.mpr hbare
        have htimes := Nat.le_of_mul_le_mul_right (hlen.trans_eq (Nat.one_mul _).symm) hwrites
        exact Or.inl (Nat.le_antisymm htimes hpos)
    refine ⟨along_walked_iff.mp (heq.trans (hone hcount)), ?_⟩
    rw [← walked_bare_iff]
    exact hcount
  · rintro ⟨hreads, honce⟩
    rw [← walked_bare_iff] at honce
    rw [hone honce]
    exact along_walked_iff.mpr hreads

theorem history_of_ended {channels : List String} {w : Walks Ver} (h : Ended ch l w) :
    s.buildHistory channels w ch = s.walked (channels.count ch) ch l := by
  rw [buildHistory, walked, h.chain, h.seedVer]

theorem paged_histories (hempty : "" ∉ s.checkpoints.keys) {checkpointId : Option String}
    (h : s.Ancestors (s.targetParent checkpointId) l) {fuel : Nat} (hfuel : l.length < fuel)
    (size : Nat) (channels : List String) :
    ∃ l', (s.OnFirstPage size checkpointId → l' = l) ∧
      (¬ s.OnFirstPage size checkpointId → l' = []) ∧
      s.getDeltaChannelHistories fuel size checkpointId channels =
        some (channels.map (fun ch => (ch, s.walked (channels.count ch) ch l'))) := by
  have hbuilt {w : Walks Ver} {l' : List (String × SavedCheckpoint Ver)}
      (hended : ∀ ch ∈ channels, Ended ch l' w) :
      channels.map (fun ch => (ch, s.buildHistory channels w ch)) =
        channels.map (fun ch => (ch, s.walked (channels.count ch) ch l')) := by
    apply List.map_congr_left
    intro ch hch
    rw [history_of_ended (hended ch hch)]
  unfold getDeltaChannelHistories
  cases htarget : checkpointId.or s.latest with
  | none =>
    refine ⟨[], ?_, fun _ => rfl, rfl⟩
    rintro ⟨target, hsome, -⟩
    rw [htarget] at hsome
    cases hsome
  | some target =>
    have hiff : s.OnFirstPage size checkpointId ↔ target ∈ (s.page size none).map Prod.fst := by
      simp [OnFirstPage, htarget]
    rw [hiff]
    by_cases hpage : target ∈ (s.page size none).map Prod.fst
    · obtain ⟨saved, hsaved, hparent⟩ := first_page_of_mem hpage
      have hnamed : (named checkpointId).or s.latest = some target := by
        cases checkpointId with
        | none => exact htarget
        | some id =>
          obtain rfl : id = target := Option.some.inj htarget
          have hid : id ≠ "" := by
            rintro rfl
            exact hempty (Dict.mem_keys.mpr ⟨saved, hsaved⟩)
          rw [InMemorySaver.named_some hid, Option.some_or]
      have htuple : s.targetParent checkpointId = saved.parent := by
        rw [targetParent, getTuple, hnamed]
        simp [hsaved]
      rw [htuple, ← hparent] at h
      obtain ⟨w, hw, hended⟩ :=
        stage1_start channels hfuel h (fun hnil => by simp [hnil] at hpage)
      exact ⟨l, fun _ => rfl, fun hout => absurd hpage hout, by
        dsimp only
        rw [hw, Option.map_some, hbuilt hended]⟩
    · have hroot : s.Ancestors
          (((ingestStage1Page (s.page size none) ∅).get? target).bind Stage1Row.parent) [] := by
        rw [first_page_of_not_mem hpage]
        rfl
      obtain ⟨w, hw, hended⟩ :=
        stage1_start channels (Nat.zero_lt_of_lt hfuel) hroot (fun _ => rfl)
      exact ⟨[], fun hin => absurd hin hpage, fun _ => rfl, by
        dsimp only
        rw [hw, Option.map_some, hbuilt hended]⟩

theorem along_none_iff (times : Nat) :
    Gathered.along ch ((l.map s.load).map s.loaded.baseVisit) = s.walked times ch [] ↔
      s.loaded.Silent ch (l.map s.load) :=
  s.loaded.along_empty_iff ch (l.map s.load)

theorem paged_walk_agrees_iff (hempty : "" ∉ s.checkpoints.keys) {checkpointId : Option String}
    (h : s.Ancestors (s.targetParent checkpointId) l) {fuel : Nat} (hfuel : l.length < fuel)
    (size : Nat) (channels : List String) :
    ∃ histories, s.getDeltaChannelHistories fuel size checkpointId channels = some histories ∧
      (BaseCheckpointSaver.getDeltaChannelHistory s.getTuple fuel checkpointId channels =
          some histories ↔
        (s.OnFirstPage size checkpointId → ∀ ch ∈ channels, s.Faithful channels ch l) ∧
          (¬ s.OnFirstPage size checkpointId →
            ∀ ch ∈ channels, s.loaded.Silent ch (l.map s.load))) := by
  obtain ⟨l', hin, hout, hpaged⟩ := paged_histories hempty h hfuel size channels
  refine ⟨_, hpaged, ?_⟩
  rw [base_histories hempty h hfuel, Option.some_inj, List.map_inj_left]
  simp only [Prod.mk.injEq, true_and]
  by_cases hpage : s.OnFirstPage size checkpointId
  · obtain rfl := hin hpage
    rw [forall_prop_of_true hpage, forall_prop_of_false (not_not_intro hpage), and_true]
    exact forall₂_congr fun ch hch => along_faithful_iff hch
  · obtain rfl := hout hpage
    rw [forall_prop_of_false hpage, forall_prop_of_true hpage, true_and]
    exact forall₂_congr fun ch _ => along_none_iff _

def threeCheckpoints : PostgresSaver Nat where
  checkpoints :=
    (((∅ : Dict String (SavedCheckpoint Nat)).set "1"
      ⟨emptyCheckpoint "1", InMemorySaver.inputMetadata, none⟩).set "2"
        ⟨emptyCheckpoint "2", InMemorySaver.inputMetadata, some "1"⟩).set "3"
          ⟨emptyCheckpoint "3", InMemorySaver.inputMetadata, some "2"⟩
  blobs := ∅
  writes := (∅ : SqliteWrites).putWrites "1" [("m", .int 1)] "t"

theorem three_ancestors :
    threeCheckpoints.Ancestors (threeCheckpoints.targetParent (some "2"))
      [SqliteSaver.linkedRow "1"] :=
  ⟨rfl, rfl, rfl⟩

theorem paged_walk_agrees_three :
    ∃ histories, threeCheckpoints.getDeltaChannelHistories 2 2 (some "2") ["m"] = some histories ∧
      (BaseCheckpointSaver.getDeltaChannelHistory threeCheckpoints.getTuple 2 (some "2") ["m"] =
          some histories ↔
        (threeCheckpoints.OnFirstPage 2 (some "2") →
            ∀ ch ∈ ["m"], threeCheckpoints.Faithful ["m"] ch [SqliteSaver.linkedRow "1"]) ∧
          (¬ threeCheckpoints.OnFirstPage 2 (some "2") →
            ∀ ch ∈ ["m"], threeCheckpoints.loaded.Silent ch
              ([SqliteSaver.linkedRow "1"].map threeCheckpoints.load))) :=
  paged_walk_agrees_iff (by decide) three_ancestors (by decide) 2 ["m"]

theorem three_not_onFirstPage : ¬ threeCheckpoints.OnFirstPage 1 (some "2") := by
  have hremaining : threeCheckpoints.remaining none = threeCheckpoints.checkpoints.items.reverse := by
    have hordered : StrictlyDescends Prod.fst threeCheckpoints.checkpoints.items.reverse := by
      have hkeys : (threeCheckpoints.checkpoints.items.reverse.map Prod.fst).Pairwise (· > ·) := by
        decide
      exact List.pairwise_map.mp hkeys
    refine eq_of_strictlyDescends (remaining_descends none).descends ?_ hordered
    rw [remaining]
    refine (descending_perm _).trans ?_
    simp
  rintro ⟨target, htarget, hpage⟩
  obtain rfl : "2" = target := Option.some.inj htarget
  rw [page, hremaining] at hpage
  exact absurd hpage (by decide)

theorem paged_walk_misses :
    ¬ ∀ (s : PostgresSaver Nat) (size : Nat) (checkpointId : Option String)
        (l : List (String × SavedCheckpoint Nat)) (channels : List String),
        "" ∉ s.checkpoints.keys → s.Ancestors (s.targetParent checkpointId) l → 0 < size →
          BaseCheckpointSaver.getDeltaChannelHistory s.getTuple (l.length + 1) checkpointId
              channels =
            s.getDeltaChannelHistories (l.length + 1) size checkpointId channels := by
  intro h
  have hempty : "" ∉ threeCheckpoints.checkpoints.keys := by decide
  have hsame := h threeCheckpoints 1 (some "2") [SqliteSaver.linkedRow "1"] ["m"] hempty
    three_ancestors (by decide)
  obtain ⟨l', -, hout, hpaged⟩ :=
    paged_histories hempty three_ancestors (Nat.lt_succ_self _) 1 ["m"]
  rw [base_histories hempty three_ancestors (Nat.lt_succ_self _), hpaged,
    hout three_not_onFirstPage] at hsame
  exact absurd hsame (by decide)

end Agreement

end PostgresSaver

end LangGraph

import LangGraph.Channels.Channel
import Mathlib.Data.Finset.Lattice.Lemmas

namespace LangGraph

-- The lists of topics and the sets of barriers. A channel refers to its container, as the object
-- that `checkpoint` hands out does.
structure Heap where
  lists : List (List Value)
  sets : List (Finset Value)

inductive Address where
  | list (r : Nat)
  | set (r : Nat)
  deriving DecidableEq

namespace Heap

def list (h : Heap) (r : Nat) : List Value := h.lists[r]?.getD []

def set (h : Heap) (r : Nat) : Finset Value := h.sets[r]?.getD ∅

def newList (h : Heap) : Heap × Nat := ({ h with lists := h.lists ++ [[]] }, h.lists.length)

def newSet (h : Heap) : Heap × Nat := ({ h with sets := h.sets ++ [∅] }, h.sets.length)

def extend (r : Nat) (vs : List Value) (h : Heap) : Heap :=
  { h with lists := h.lists.set r (h.list r ++ vs) }

def add (r : Nat) (v : Value) (h : Heap) : Heap :=
  { h with sets := h.sets.set r (insert v (h.set r)) }

def addNames (key : String) (names : Finset Value) (r : Nat) :
    List Value → Bool → Heap → Heap × Except UpdateError Bool
  | [], updated, h => (h, .ok updated)
  | v :: vs, updated, h =>
      if v ∈ names then
        if v ∈ h.set r then addNames key names r vs updated h
        else addNames key names r vs true (h.add r v)
      else (h, .error (.notInNames key v names))

def Holds (h : Heap) : Address → Prop
  | .list r => r < h.lists.length
  | .set r => r < h.sets.length

end Heap

def Channel.holdsContainer : Channel → Bool
  | .topic _ | .namedBarrierValue _ | .namedBarrierValueAfterFinish _ => true
  | _ => false

theorem Channel.holdsContainer_update (c : Channel) (vs : List Value) :
    (c.update vs).1.holdsContainer = c.holdsContainer := by
  cases c <;> rfl

theorem Channel.holdsContainer_consume (c : Channel) :
    c.consume.1.holdsContainer = c.holdsContainer := by
  cases c <;> rfl

theorem Channel.holdsContainer_finish (c : Channel) :
    c.finish.1.holdsContainer = c.holdsContainer := by
  cases c <;> rfl

inductive SharedChannel where
  | plain (c : Channel) (h : c.holdsContainer = false)
  | topic (accumulate : Bool) (values : Nat)
  | namedBarrierValue (key : String) (names : Finset Value) (seen : Nat)
  | namedBarrierValueAfterFinish (key : String) (names : Finset Value) (seen : Nat)
      (finished : Bool)

-- What `checkpoint` returns: a container is not copied.
inductive SharedBlob where
  | blob (b : Blob)
  | values (r : Nat)
  | seen (r : Nat)
  | seenFinished (r : Nat) (finished : Bool)

namespace SharedBlob

def serialise (h : Heap) : SharedBlob → Blob
  | blob b => b
  | values r => .values (h.list r)
  | seen r => .seen (h.set r)
  | seenFinished r finished => .seenFinished (h.set r) finished

def address? : SharedBlob → Option Address
  | blob _ => none
  | values r => some (.list r)
  | seen r => some (.set r)
  | seenFinished r _ => some (.set r)

end SharedBlob

namespace SharedChannel

def load (h : Heap) : SharedChannel → Channel
  | plain c _ => c
  | topic accumulate r => .topic ⟨accumulate, h.list r⟩
  | namedBarrierValue key names r => .namedBarrierValue ⟨key, names, h.set r⟩
  | namedBarrierValueAfterFinish key names r finished =>
      .namedBarrierValueAfterFinish ⟨key, names, h.set r, finished⟩

def address? : SharedChannel → Option Address
  | plain _ _ => none
  | topic _ r => some (.list r)
  | namedBarrierValue _ _ r => some (.set r)
  | namedBarrierValueAfterFinish _ _ r _ => some (.set r)

def Valid (h : Heap) (c : SharedChannel) : Prop := ∀ a, c.address? = some a → h.Holds a

def checkpoint : SharedChannel → Option SharedBlob
  | plain c _ => c.checkpoint.map .blob
  | topic _ r => some (.values r)
  | namedBarrierValue _ _ r => some (.seen r)
  | namedBarrierValueAfterFinish _ _ r finished => some (.seenFinished r finished)

def update (values : List Value) (h : Heap) :
    SharedChannel → Heap × SharedChannel × Except UpdateError Bool
  | plain c hc => (h, plain (c.update values).1 ((c.holdsContainer_update values).trans hc),
      (c.update values).2)
  | topic accumulate r =>
      let updated := !accumulate && !(h.list r).isEmpty
      let (h, r) := if accumulate then (h, r) else h.newList
      match flatten values with
      | [] => (h, topic accumulate r, .ok updated)
      | flat => (h.extend r flat, topic accumulate r, .ok true)
  | namedBarrierValue key names r =>
      let added := h.addNames key names r values false
      (added.1, namedBarrierValue key names r, added.2)
  | namedBarrierValueAfterFinish key names r finished =>
      let added := h.addNames key names r values false
      (added.1, namedBarrierValueAfterFinish key names r finished, added.2)

def consume (h : Heap) : SharedChannel → Heap × SharedChannel × Bool
  | plain c hc => (h, plain c.consume.1 (c.holdsContainer_consume.trans hc), c.consume.2)
  | topic accumulate r => (h, topic accumulate r, false)
  | namedBarrierValue key names r =>
      if h.set r = names then
        let (h, r) := h.newSet
        (h, namedBarrierValue key names r, true)
      else (h, namedBarrierValue key names r, false)
  | namedBarrierValueAfterFinish key names r finished =>
      if finished && h.set r = names then
        let (h, r) := h.newSet
        (h, namedBarrierValueAfterFinish key names r false, true)
      else (h, namedBarrierValueAfterFinish key names r finished, false)

def finish (h : Heap) : SharedChannel → SharedChannel × Bool
  | plain c hc => (plain c.finish.1 (c.holdsContainer_finish.trans hc), c.finish.2)
  | topic accumulate r => (topic accumulate r, false)
  | namedBarrierValue key names r => (namedBarrierValue key names r, false)
  | namedBarrierValueAfterFinish key names r finished =>
      if !finished && h.set r = names then (namedBarrierValueAfterFinish key names r true, true)
      else (namedBarrierValueAfterFinish key names r finished, false)

-- `update` writes something new into the container the channel already has.
def Grows (values : List Value) (h : Heap) : SharedChannel → Prop
  | plain _ _ => False
  | topic accumulate _ => accumulate = true ∧ flatten values ≠ []
  | namedBarrierValue _ names r | namedBarrierValueAfterFinish _ names r _ =>
      ∃ v ∈ values.takeWhile (fun v => v ∈ names), v ∉ h.set r

end SharedChannel

theorem addNames_eq_union (key : String) (names : Finset Value) (vs : List Value)
    (seen : Finset Value) (b : Bool) :
    (addNames key names vs seen b).1 =
      seen ∪ (vs.takeWhile (fun v => v ∈ names)).toFinset := by
  induction vs generalizing seen b with
  | nil => simp [addNames]
  | cons v vs ih =>
    by_cases hn : v ∈ names
    · have htake : (v :: vs).takeWhile (fun v => v ∈ names) =
          v :: vs.takeWhile (fun v => v ∈ names) := by simp [hn]
      rw [htake, List.toFinset_cons, Finset.union_insert]
      by_cases hs : v ∈ seen
      · rw [addNames, if_pos hn, if_pos hs, ih]
        exact (Finset.insert_eq_of_mem (Finset.mem_union_left _ hs)).symm
      · rw [addNames, if_pos hn, if_neg hs, ih, Finset.insert_union]
    · simp [addNames, hn]

theorem addNames_eq_self_iff {key : String} {names : Finset Value} {vs : List Value}
    {seen : Finset Value} {b : Bool} :
    (addNames key names vs seen b).1 = seen ↔
      ¬ ∃ v ∈ vs.takeWhile (fun v => v ∈ names), v ∉ seen := by
  rw [addNames_eq_union, Finset.union_eq_left]
  constructor
  · rintro hsub ⟨v, hv, hno⟩
    exact hno (hsub (List.mem_toFinset.mpr hv))
  · intro hno v hv
    by_contra hns
    exact hno ⟨v, List.mem_toFinset.mp hv, hns⟩

namespace Heap

variable {h h' : Heap} {r r' : Nat} {a : Address}

-- The container at an address reads the same.
def Same (h h' : Heap) : Address → Prop
  | .list r => h'.list r = h.list r
  | .set r => h'.set r = h.set r

theorem same_refl (h : Heap) (a : Address) : Same h h a := by
  cases a <;> rfl

theorem same_newList (h : Heap) (a : Address) : Same h h.newList.1 a := by
  cases a with
  | set r => rfl
  | list r =>
    rw [Same, list, list, newList]
    by_cases hr : r < h.lists.length
    · simp only [List.getElem?_append_left hr]
    · have hle : h.lists.length ≤ r := by omega
      rw [List.getElem?_eq_none hle, List.getElem?_append_right hle]
      cases r - h.lists.length <;> rfl

theorem same_newSet (h : Heap) (a : Address) : Same h h.newSet.1 a := by
  cases a with
  | list r => rfl
  | set r =>
    rw [Same, set, set, newSet]
    by_cases hr : r < h.sets.length
    · simp only [List.getElem?_append_left hr]
    · have hle : h.sets.length ≤ r := by omega
      rw [List.getElem?_eq_none hle, List.getElem?_append_right hle]
      cases r - h.sets.length <;> rfl

theorem same_extend (vs : List Value) (ha : a ≠ .list r) : Same h (h.extend r vs) a := by
  cases a with
  | set r' => rfl
  | list r' =>
    have hne : r ≠ r' := fun heq => ha (heq ▸ rfl)
    rw [Same, list, list, extend, List.getElem?_set_ne hne]

theorem list_extend (vs : List Value) (hr : r < h.lists.length) :
    (h.extend r vs).list r = h.list r ++ vs := by
  rw [list, extend, List.getElem?_set_self hr, Option.getD_some]

theorem addNames_spec (key : String) (names : Finset Value) (vs : List Value) (updated : Bool)
    (hr : r < h.sets.length) :
    h.addNames key names r vs updated =
      ({ h with sets := h.sets.set r (LangGraph.addNames key names vs (h.set r) updated).1 },
        (LangGraph.addNames key names vs (h.set r) updated).2) := by
  have hsame : h.sets.set r (h.set r) = h.sets := by
    rw [set, List.getElem?_eq_getElem hr, Option.getD_some, List.set_getElem_self]
  induction vs generalizing h updated with
  | nil => simp only [addNames, LangGraph.addNames, hsame]
  | cons v vs ih =>
    rw [addNames, LangGraph.addNames]
    by_cases hn : v ∈ names
    · rw [if_pos hn, if_pos hn]
      by_cases hs : v ∈ h.set r
      · rw [if_pos hs, if_pos hs]
        exact ih updated hr hsame
      · have hr' : r < (h.add r v).sets.length := by simpa [add] using hr
        have hread : (h.add r v).set r = insert v (h.set r) := by
          rw [set, add, List.getElem?_set_self hr, Option.getD_some]
        have hsame' : (h.add r v).sets.set r ((h.add r v).set r) = (h.add r v).sets := by
          rw [set, List.getElem?_eq_getElem hr', Option.getD_some, List.set_getElem_self]
        rw [if_neg hs, if_neg hs, ih true hr' hsame', hread]
        simp only [add, List.set_set]
    · rw [if_neg hn, if_neg hn, hsame]

theorem holds_addNames {key : String} {names : Finset Value} {vs : List Value} {updated : Bool}
    (ha : h.Holds a) : (h.addNames key names r vs updated).1.Holds a := by
  induction vs generalizing h updated with
  | nil => exact ha
  | cons v vs ih =>
    rw [addNames]
    split_ifs
    · exact ih ha
    · refine ih ?_
      cases a with
      | list r' => exact ha
      | set r' => simpa [add, Holds] using ha
    · exact ha

theorem set_addNames (key : String) (names : Finset Value) (vs : List Value) (updated : Bool)
    (hr : r < h.sets.length) :
    (h.addNames key names r vs updated).1.set r =
      (LangGraph.addNames key names vs (h.set r) updated).1 := by
  rw [addNames_spec key names vs updated hr]
  simp only [set, List.getElem?_set_self hr, Option.getD_some]

theorem same_addNames {key : String} {names : Finset Value} {vs : List Value}
    (hr : r < h.sets.length)
    (hkeep : .set r = a → ¬ ∃ v ∈ vs.takeWhile (fun v => v ∈ names), v ∉ h.set r) :
    Same h (h.addNames key names r vs false).1 a := by
  cases a with
  | list r' =>
    rw [addNames_spec key names vs false hr]
    rfl
  | set r' =>
    by_cases heq : r = r'
    · subst heq
      rw [Same, set_addNames key names vs false hr]
      exact addNames_eq_self_iff.mpr (hkeep rfl)
    · rw [addNames_spec key names vs false hr]
      simp only [Same, set, List.getElem?_set_ne heq]

theorem not_same_addNames {key : String} {names : Finset Value} {vs : List Value}
    (hr : r < h.sets.length) (hg : ∃ v ∈ vs.takeWhile (fun v => v ∈ names), v ∉ h.set r) :
    ¬ Same h (h.addNames key names r vs false).1 (.set r) := by
  rw [Same, set_addNames key names vs false hr, addNames_eq_self_iff, not_not]
  exact hg

end Heap

theorem SharedBlob.serialise_congr {h h' : Heap} {b : SharedBlob}
    (hb : ∀ a, b.address? = some a → Heap.Same h h' a) : b.serialise h' = b.serialise h := by
  cases b with
  | blob b => rfl
  | values r => exact congrArg Blob.values (hb (.list r) rfl)
  | seen r => exact congrArg Blob.seen (hb (.set r) rfl)
  | seenFinished r finished =>
    exact congrArg (fun s => Blob.seenFinished s finished) (hb (.set r) rfl)

theorem SharedBlob.serialise_ne {h h' : Heap} {b : SharedBlob} {a : Address}
    (hb : b.address? = some a) (hne : ¬ Heap.Same h h' a) : b.serialise h' ≠ b.serialise h := by
  intro heq
  cases b with
  | blob b => cases hb
  | values r =>
    obtain rfl := Option.some.inj hb
    exact hne (Blob.values.inj heq)
  | seen r =>
    obtain rfl := Option.some.inj hb
    exact hne (Blob.seen.inj heq)
  | seenFinished r finished =>
    obtain rfl := Option.some.inj hb
    exact hne (Blob.seenFinished.inj heq).1

namespace SharedChannel

variable {h h' : Heap} {c : SharedChannel} {a : Address} {vs : List Value}

theorem load_congr (hc : ∀ a, c.address? = some a → Heap.Same h h' a) : c.load h' = c.load h := by
  cases c with
  | plain c hc => rfl
  | topic accumulate r =>
    exact congrArg (fun vs => Channel.topic ⟨accumulate, vs⟩) (hc (.list r) rfl)
  | namedBarrierValue key names r =>
    exact congrArg (fun s => Channel.namedBarrierValue ⟨key, names, s⟩) (hc (.set r) rfl)
  | namedBarrierValueAfterFinish key names r finished =>
    exact congrArg (fun s => Channel.namedBarrierValueAfterFinish ⟨key, names, s, finished⟩)
      (hc (.set r) rfl)

-- What `checkpoint` hands out reads as the channel's value now.
theorem serialise_checkpoint (h : Heap) (c : SharedChannel) :
    c.checkpoint.map (SharedBlob.serialise h) = (c.load h).checkpoint := by
  cases c with
  | plain c hc => cases hb : c.checkpoint <;> simp [checkpoint, load, hb, SharedBlob.serialise]
  | topic accumulate r => rfl
  | namedBarrierValue key names r => rfl
  | namedBarrierValueAfterFinish key names r finished => rfl

theorem update_topic (accumulate : Bool) (r : Nat) (vs : List Value) (h : Heap) :
    (topic accumulate r).update vs h =
      (if flatten vs = [] then (if accumulate then h else h.newList.1)
        else if accumulate then h.extend r (flatten vs)
        else h.newList.1.extend h.lists.length (flatten vs),
        topic accumulate (if accumulate then r else h.lists.length),
        .ok (!(flatten vs).isEmpty || (!accumulate && !(h.list r).isEmpty))) := by
  rw [update]
  cases hf : flatten vs <;> cases accumulate <;> simp [Heap.newList]

theorem load_update (hc : c.Valid h) (vs : List Value) :
    (c.update vs h).2.1.load (c.update vs h).1 = ((c.load h).update vs).1 ∧
      (c.update vs h).2.2 = ((c.load h).update vs).2 := by
  cases c with
  | plain c hc => exact ⟨rfl, rfl⟩
  | topic accumulate r =>
    have hr : r < h.lists.length := hc (.list r) rfl
    have hfresh : h.lists.length < h.newList.1.lists.length := by simp [Heap.newList]
    have hempty : h.newList.1.list h.lists.length = [] := by simp [Heap.newList, Heap.list]
    have hvalue := Topic.update_fst ⟨accumulate, h.list r⟩ vs
    have hresult := Topic.update_snd ⟨accumulate, h.list r⟩ vs
    rw [update_topic]
    refine ⟨?_, hresult.symm⟩
    have hload : ((topic accumulate r).load h).update vs =
        (Topic.update ⟨accumulate, h.list r⟩ vs).map Channel.topic id := rfl
    rw [hload, Prod.map_fst, hvalue, Topic.kept]
    cases accumulate with
    | true =>
      by_cases hf : flatten vs = []
      · simp [hf, load]
      · simp [hf, load, Heap.list_extend _ hr]
    | false =>
      by_cases hf : flatten vs = []
      · simp [hf, load, hempty]
      · simp [hf, load, Heap.list_extend _ hfresh, hempty]
  | namedBarrierValue key names r =>
    have hr : r < h.sets.length := hc (.set r) rfl
    have hresult := congrArg Prod.snd (Heap.addNames_spec key names vs false hr)
    exact ⟨congrArg (fun s => Channel.namedBarrierValue ⟨key, names, s⟩)
      (Heap.set_addNames key names vs false hr), hresult⟩
  | namedBarrierValueAfterFinish key names r finished =>
    have hr : r < h.sets.length := hc (.set r) rfl
    have hresult := congrArg Prod.snd (Heap.addNames_spec key names vs false hr)
    exact ⟨congrArg (fun s => Channel.namedBarrierValueAfterFinish ⟨key, names, s, finished⟩)
      (Heap.set_addNames key names vs false hr), hresult⟩

theorem load_consume (h : Heap) (c : SharedChannel) :
    (c.consume h).2.1.load (c.consume h).1 = (c.load h).consume.1 ∧
      (c.consume h).2.2 = (c.load h).consume.2 := by
  have hempty : h.newSet.1.set h.sets.length = ∅ := by simp [Heap.newSet, Heap.set]
  cases c with
  | plain c hc => exact ⟨rfl, rfl⟩
  | topic accumulate r => exact ⟨rfl, rfl⟩
  | namedBarrierValue key names r =>
    have hload : ((namedBarrierValue key names r).load h).consume =
        (NamedBarrierValue.consume ⟨key, names, h.set r⟩).map Channel.namedBarrierValue id := rfl
    rw [hload, NamedBarrierValue.consume, NamedBarrierValue.isAvailable, consume]
    by_cases hs : h.set r = names
    · simp only [hs, if_true, decide_true]
      exact ⟨congrArg (fun s => Channel.namedBarrierValue ⟨key, names, s⟩) hempty, rfl⟩
    · simp only [hs, if_false, decide_false]
      exact ⟨rfl, rfl⟩
  | namedBarrierValueAfterFinish key names r finished =>
    have hload : ((namedBarrierValueAfterFinish key names r finished).load h).consume =
        (NamedBarrierValueAfterFinish.consume ⟨key, names, h.set r, finished⟩).map
          Channel.namedBarrierValueAfterFinish id := rfl
    rw [hload, NamedBarrierValueAfterFinish.consume, NamedBarrierValueAfterFinish.isAvailable,
      consume]
    by_cases hs : (finished && decide (h.set r = names)) = true
    · simp only [hs, if_true]
      exact ⟨congrArg (fun s => Channel.namedBarrierValueAfterFinish ⟨key, names, s, false⟩) hempty,
        rfl⟩
    · simp only [hs]
      exact ⟨rfl, rfl⟩

theorem load_finish (h : Heap) (c : SharedChannel) :
    (c.finish h).1.load h = (c.load h).finish.1 ∧ (c.finish h).2 = (c.load h).finish.2 := by
  cases c with
  | plain c hc => exact ⟨rfl, rfl⟩
  | topic accumulate r => exact ⟨rfl, rfl⟩
  | namedBarrierValue key names r => exact ⟨rfl, rfl⟩
  | namedBarrierValueAfterFinish key names r finished =>
    have hload : ((namedBarrierValueAfterFinish key names r finished).load h).finish =
        (NamedBarrierValueAfterFinish.finish ⟨key, names, h.set r, finished⟩).map
          Channel.namedBarrierValueAfterFinish id := rfl
    rw [hload, NamedBarrierValueAfterFinish.finish, finish]
    by_cases hs : (!finished && decide (h.set r = names)) = true
    · simp only [hs, if_true]
      exact ⟨rfl, rfl⟩
    · simp only [hs]
      exact ⟨rfl, rfl⟩

-- A container is written in place, or stays as it is while the channel takes a new one.
theorem same_update (hc : c.Valid h) (ha : h.Holds a)
    (hkeep : c.address? = some a → ¬ c.Grows vs h) : Heap.Same h (c.update vs h).1 a := by
  cases c with
  | plain c hc => exact Heap.same_refl h a
  | topic accumulate r =>
    have hfresh : a ≠ .list h.lists.length := by
      rintro rfl
      exact absurd ha (Nat.lt_irrefl _)
    rw [update_topic]
    by_cases hf : flatten vs = []
    · rw [if_pos hf]
      cases accumulate with
      | true => exact Heap.same_refl h a
      | false => exact Heap.same_newList h a
    · rw [if_neg hf]
      cases accumulate with
      | true =>
        have hne : a ≠ .list r := by
          rintro rfl
          exact hkeep rfl ⟨rfl, hf⟩
        exact Heap.same_extend _ hne
      | false =>
        have hnew := Heap.same_newList h a
        have hextend : Heap.Same h.newList.1 (h.newList.1.extend h.lists.length (flatten vs)) a :=
          Heap.same_extend _ hfresh
        cases a with
        | list r' => exact Eq.trans hextend hnew
        | set r' => exact Eq.trans hextend hnew
  | namedBarrierValue key names r =>
    have hr : r < h.sets.length := hc (.set r) rfl
    exact Heap.same_addNames hr (fun heq => hkeep (congrArg some heq))
  | namedBarrierValueAfterFinish key names r finished =>
    have hr : r < h.sets.length := hc (.set r) rfl
    exact Heap.same_addNames hr (fun heq => hkeep (congrArg some heq))

theorem not_same_update (hc : c.address? = some a) (ha : h.Holds a) (hg : c.Grows vs h) :
    ¬ Heap.Same h (c.update vs h).1 a := by
  cases c with
  | plain c hc => exact absurd hg id
  | topic accumulate r =>
    obtain rfl := Option.some.inj hc
    obtain ⟨rfl, hf⟩ := hg
    have hr : r < h.lists.length := ha
    rw [update_topic, if_neg hf, Heap.Same]
    simp only [if_true]
    rw [Heap.list_extend _ hr]
    exact fun heq => hf (List.append_right_eq_self.mp heq)
  | namedBarrierValue key names r =>
    obtain rfl := Option.some.inj hc
    exact Heap.not_same_addNames ha hg
  | namedBarrierValueAfterFinish key names r finished =>
    obtain rfl := Option.some.inj hc
    exact Heap.not_same_addNames ha hg

-- The channel keeps its container or takes one that did not exist.
structure Renews (h h' : Heap) (c c' : SharedChannel) : Prop where
  holds (a : Address) : h.Holds a → h'.Holds a
  address (a : Address) : c'.address? = some a → (c.address? = some a ∨ ¬ h.Holds a) ∧ h'.Holds a

theorem renews_update (hc : c.Valid h) (vs : List Value) :
    Renews h (c.update vs h).1 c (c.update vs h).2.1 := by
  have hkept {h' : Heap} (hh : ∀ a, h.Holds a → h'.Holds a) (a : Address)
      (ha : c.address? = some a) : (c.address? = some a ∨ ¬ h.Holds a) ∧ h'.Holds a :=
    ⟨.inl ha, hh a (hc a ha)⟩
  cases c with
  | plain c hc => exact ⟨fun _ => id, fun a ha => by cases ha⟩
  | topic accumulate r =>
    rw [update_topic]
    have hnew (a : Address) (ha : h.Holds a) : h.newList.1.Holds a := by
      cases a with
      | list r' =>
        have hr' : r' < h.lists.length := ha
        simp only [Heap.newList, Heap.Holds, List.length_append, List.length_singleton]
        omega
      | set r' => exact ha
    have hextend {h' : Heap} (r' : Nat) (ws : List Value) (a : Address) :
        (h'.extend r' ws).Holds a ↔ h'.Holds a := by
      cases a with
      | list r'' => simp [Heap.extend, Heap.Holds]
      | set r'' => exact Iff.rfl
    have hfresh : h.newList.1.Holds (.list h.lists.length) := by simp [Heap.newList, Heap.Holds]
    cases accumulate with
    | true =>
      have hh (a : Address) (ha : h.Holds a) :
          (if flatten vs = [] then h else h.extend r (flatten vs)).Holds a := by
        split_ifs
        · exact ha
        · exact (hextend r _ a).mpr ha
      exact ⟨hh, hkept hh⟩
    | false =>
      have hh (a : Address) (ha : h.newList.1.Holds a) :
          (if flatten vs = [] then h.newList.1
            else h.newList.1.extend h.lists.length (flatten vs)).Holds a := by
        split_ifs
        · exact ha
        · exact (hextend _ _ a).mpr ha
      refine ⟨fun a ha => hh a (hnew a ha), fun a ha => ?_⟩
      obtain rfl := Option.some.inj ha
      exact ⟨.inr (Nat.lt_irrefl _), hh _ hfresh⟩
  | namedBarrierValue key names r =>
    have hh (a : Address) (ha : h.Holds a) : (h.addNames key names r vs false).1.Holds a :=
      Heap.holds_addNames ha
    exact ⟨hh, hkept hh⟩
  | namedBarrierValueAfterFinish key names r finished =>
    have hh (a : Address) (ha : h.Holds a) : (h.addNames key names r vs false).1.Holds a :=
      Heap.holds_addNames ha
    exact ⟨hh, hkept hh⟩

theorem renews_consume (hc : c.Valid h) :
    Renews h (c.consume h).1 c (c.consume h).2.1 ∧ ∀ a, Heap.Same h (c.consume h).1 a := by
  have hrefl : Renews h h c c ∧ ∀ a, Heap.Same h h a :=
    ⟨⟨fun _ => id, fun a ha => ⟨.inl ha, hc a ha⟩⟩, Heap.same_refl h⟩
  have hnew (c' : SharedChannel) (hc' : c'.address? = some (.set h.sets.length)) :
      Renews h h.newSet.1 c c' ∧ ∀ a, Heap.Same h h.newSet.1 a := by
    refine ⟨⟨fun a ha => ?_, fun a ha => ?_⟩, Heap.same_newSet h⟩
    · cases a with
      | list r' => exact ha
      | set r' =>
        have hr' : r' < h.sets.length := ha
        simp only [Heap.newSet, Heap.Holds, List.length_append, List.length_singleton]
        omega
    · obtain rfl := Option.some.inj (hc'.symm.trans ha)
      exact ⟨.inr (Nat.lt_irrefl _), by simp [Heap.newSet, Heap.Holds]⟩
  cases c with
  | plain c hc => exact ⟨⟨fun _ => id, fun a ha => by cases ha⟩, Heap.same_refl h⟩
  | topic accumulate r => exact hrefl
  | namedBarrierValue key names r =>
    rw [consume]
    split_ifs
    · exact hnew _ rfl
    · exact hrefl
  | namedBarrierValueAfterFinish key names r finished =>
    rw [consume]
    split_ifs
    · exact hnew _ rfl
    · exact hrefl

theorem address?_finish (h : Heap) (c : SharedChannel) : (c.finish h).1.address? = c.address? := by
  cases c with
  | plain c hc => rfl
  | topic accumulate r => rfl
  | namedBarrierValue key names r => rfl
  | namedBarrierValueAfterFinish key names r finished =>
    rw [finish]
    split_ifs <;> rfl

theorem address?_checkpoint {b : SharedBlob} (hb : c.checkpoint = some b) :
    b.address? = c.address? := by
  cases c with
  | plain c hc =>
    obtain ⟨b', -, rfl⟩ := Option.map_eq_some_iff.mp hb
    rfl
  | topic accumulate r =>
    obtain rfl := Option.some.inj hb
    rfl
  | namedBarrierValue key names r =>
    obtain rfl := Option.some.inj hb
    rfl
  | namedBarrierValueAfterFinish key names r finished =>
    obtain rfl := Option.some.inj hb
    rfl

end SharedChannel

end LangGraph

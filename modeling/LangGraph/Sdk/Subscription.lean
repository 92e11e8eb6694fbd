import LangGraph.Collections.Dict
import Mathlib.Data.Finset.Sort
import Mathlib.Algebra.Order.BigOperators.Group.List
import Mathlib.Data.List.TakeWhile
import Mathlib.Data.String.Basic

namespace LangGraph

open Collections

namespace Sdk

abbrev Namespace := List String

def normalizeSegment (segment : String) : String :=
  String.ofList (segment.toList.takeWhile (fun c => c ≠ ':'))

def segmentMatches (candidate seg : String) : Bool :=
  candidate = seg || (!seg.toList.contains ':' && normalizeSegment candidate = seg)

def isPrefixMatch (eventNamespace pre : Namespace) : Bool :=
  pre.length ≤ eventNamespace.length &&
    (pre.zip eventNamespace).all (fun p => segmentMatches p.2 p.1)

def withinDepth (eventNamespace pre : Namespace) (depth : Option Int) : Bool :=
  match depth with
  | none => true
  | some depth => (eventNamespace.length : Int) - pre.length ≤ depth

def namespaceMatches (eventNamespace : Namespace) (prefixes : Option (List Namespace))
    (depth : Option Int) : Bool :=
  match prefixes with
  | none => true
  | some [] => true
  | some prefixes =>
      prefixes.any (fun pre => isPrefixMatch eventNamespace pre &&
        withinDepth eventNamespace pre depth)

def directMethods : List String :=
  ["values", "checkpoints", "updates", "messages", "tools", "lifecycle", "tasks"]

structure EventParams where
  eventNamespace : Option Namespace
  dataName : Option String

structure ProtocolEvent where
  method : Option String
  params : Option EventParams

def inferCustom (name : Option String) : String :=
  match name with
  | none => "custom"
  | some name => if name = "" then "custom" else "custom:" ++ name

def inferChannel (event : ProtocolEvent) : Option String :=
  match event.method with
  | none => none
  | some method =>
      if method ∈ directMethods then some method
      else if method = "custom" then
        some (inferCustom (event.params.bind EventParams.dataName))
      else if method = "input.requested" then some "input"
      else none

-- A missing list of channels is the empty one.
structure SubscribeParams where
  channels : List String
  namespaces : Option (List Namespace)
  depth : Option Int

def channelListed (channel : String) (channels : List String) : Bool :=
  channel ∈ channels || ("custom:".toList.isPrefixOf channel.toList && "custom" ∈ channels)

def matchesSubscription (event : ProtocolEvent) (definition : SubscribeParams) : Bool :=
  match inferChannel event with
  | none => false
  | some channel =>
      channelListed channel definition.channels &&
        namespaceMatches ((event.params.bind EventParams.eventNamespace).getD [])
          definition.namespaces definition.depth

structure UnionState where
  channels : Finset String
  wildcardNamespaces : Bool
  namespaceMap : Dict Namespace Namespace
  unboundedDepth : Bool
  maxDepth : Int

def UnionState.addNamespaces (u : UnionState) : Option (List Namespace) → UnionState
  | none => { u with wildcardNamespaces := true }
  | some nss =>
      if u.wildcardNamespaces then u
      else { u with namespaceMap := u.namespaceMap.update (nss.map (fun ns => (ns, ns))) }

def UnionState.addDepth (u : UnionState) : Option Int → UnionState
  | none => { u with unboundedDepth := true }
  | some depth =>
      if !u.unboundedDepth && u.maxDepth < depth then { u with maxDepth := depth } else u

def UnionState.add (u : UnionState) (sub : SubscribeParams) : UnionState :=
  (({ u with channels := u.channels ∪ sub.channels.toFinset }).addNamespaces
    sub.namespaces).addDepth sub.depth

def UnionState.result (u : UnionState) : SubscribeParams where
  channels := u.channels.sort
  namespaces :=
    if !u.wildcardNamespaces && !u.namespaceMap.items.isEmpty then some u.namespaceMap.values
    else none
  depth := if u.unboundedDepth then none else some u.maxDepth

def UnionState.start : UnionState := ⟨∅, false, ∅, false, 0⟩

def computeUnionFilter (subscriptions : List SubscribeParams) : SubscribeParams :=
  match subscriptions with
  | [] => ⟨[], none, none⟩
  | subscriptions => (subscriptions.foldl UnionState.add UnionState.start).result

def absorbs (tp cp : Namespace) : (targetDepth covererDepth : Option Int) → Bool
  | _, none => true
  | none, some _ => false
  | some targetDepth, some covererDepth =>
      (tp.length : Int) - cp.length + targetDepth ≤ covererDepth

def filterCovers (coverer target : SubscribeParams) : Bool :=
  target.channels.all (fun ch => ch ∈ coverer.channels) &&
    match coverer.namespaces, target.namespaces with
    | none, _ =>
        match coverer.depth, target.depth with
        | none, _ => true
        | some _, none => false
        | some covererDepth, some targetDepth => targetDepth ≤ covererDepth
    | some _, none => false
    | some covererNamespaces, some targetNamespaces =>
        targetNamespaces.all (fun tp => covererNamespaces.any (fun cp =>
          isPrefixMatch tp cp && absorbs tp cp target.depth coverer.depth))

section Prefixes

theorem normalizeSegment_of_colon_free {segment : String} (h : ':' ∉ segment.toList) :
    normalizeSegment segment = segment := by
  have hkeep : segment.toList.takeWhile (fun c => c ≠ ':') = segment.toList := by
    refine List.takeWhile_eq_self_iff.mpr (fun c hc => decide_eq_true ?_)
    rintro rfl
    exact h hc
  rw [normalizeSegment, hkeep, String.ofList_toList]

theorem segmentMatches_iff {candidate seg : String} :
    segmentMatches candidate seg = true ↔
      candidate = seg ∨ (':' ∉ seg.toList ∧ normalizeSegment candidate = seg) := by
  simp [segmentMatches]

theorem segmentMatches_trans {a b c : String} (hab : segmentMatches a b = true)
    (hbc : segmentMatches b c = true) : segmentMatches a c = true := by
  rw [segmentMatches_iff] at hab hbc ⊢
  rcases hab with rfl | ⟨hb, rfl⟩
  · exact hbc
  · rcases hbc with rfl | ⟨hc, hbc⟩
    · exact Or.inr ⟨hb, rfl⟩
    · rw [normalizeSegment_of_colon_free hb] at hbc
      exact Or.inr ⟨hc, hbc⟩

@[simp] theorem isPrefixMatch_nil (ns : Namespace) : isPrefixMatch ns [] = true := by
  simp [isPrefixMatch]

theorem isPrefixMatch_nil_left {pre : Namespace} :
    isPrefixMatch [] pre = true ↔ pre = [] := by
  simp [isPrefixMatch]

theorem isPrefixMatch_cons {s t : String} {ns pre : Namespace} :
    isPrefixMatch (s :: ns) (t :: pre) = true ↔
      segmentMatches s t = true ∧ isPrefixMatch ns pre = true := by
  simp [isPrefixMatch]
  tauto

theorem isPrefixMatch_refl (ns : Namespace) : isPrefixMatch ns ns = true := by
  induction ns with
  | nil => rfl
  | cons s ns ih => exact isPrefixMatch_cons.mpr ⟨segmentMatches_iff.mpr (Or.inl rfl), ih⟩

theorem isPrefixMatch_trans {a b c : Namespace} (hab : isPrefixMatch a b = true)
    (hbc : isPrefixMatch b c = true) : isPrefixMatch a c = true := by
  induction c generalizing a b with
  | nil => exact isPrefixMatch_nil a
  | cons t c ih =>
    cases b with
    | nil => cases isPrefixMatch_nil_left.mp hbc
    | cons s b =>
      cases a with
      | nil => cases isPrefixMatch_nil_left.mp hab
      | cons r a =>
        obtain ⟨hr, hab⟩ := isPrefixMatch_cons.mp hab
        obtain ⟨hs, hbc⟩ := isPrefixMatch_cons.mp hbc
        exact isPrefixMatch_cons.mpr ⟨segmentMatches_trans hr hs, ih hab hbc⟩

end Prefixes

section Namespaces

-- What matches every namespace.
def SubscribeParams.Unscoped (d : SubscribeParams) : Prop :=
  d.namespaces = none ∨ d.namespaces = some [] ∨
    (d.depth = none ∧ ∃ nss, d.namespaces = some nss ∧ [] ∈ nss)

theorem namespaceMatches_some {ns : Namespace} {nss : List Namespace} (h : nss ≠ [])
    {depth : Option Int} : namespaceMatches ns (some nss) depth = true ↔
      ∃ pre ∈ nss, isPrefixMatch ns pre = true ∧ withinDepth ns pre depth = true := by
  cases nss with
  | nil => exact absurd rfl h
  | cons pre rest => simp [namespaceMatches]

theorem SubscribeParams.unscoped_iff {d : SubscribeParams} :
    d.Unscoped ↔ ∀ ns, namespaceMatches ns d.namespaces d.depth = true := by
  constructor
  · rintro (h | h | ⟨hdepth, nss, h, hmem⟩) ns
    · rw [h]
      rfl
    · rw [h]
      rfl
    · rw [h, namespaceMatches_some (List.ne_nil_of_mem hmem), hdepth]
      exact ⟨[], hmem, isPrefixMatch_nil ns, rfl⟩
  · intro h
    cases hnss : d.namespaces with
    | none => exact Or.inl hnss
    | some nss =>
      by_cases hnil : nss = []
      · subst hnil
        exact Or.inr (Or.inl hnss)
      · simp only [hnss, namespaceMatches_some hnil] at h
        obtain ⟨pre, hpre, hprefix, -⟩ := h []
        obtain rfl := isPrefixMatch_nil_left.mp hprefix
        refine Or.inr (Or.inr ⟨?_, nss, hnss, hpre⟩)
        cases hdepth : d.depth with
        | none => rfl
        | some depth =>
          exfalso
          obtain ⟨far, hfar, -, hdeep⟩ :=
            h (List.replicate (depth.toNat + (nss.map List.length).sum + 1) "")
          have hle : far.length ≤ (nss.map List.length).sum :=
            List.le_sum_of_mem (List.mem_map_of_mem hfar)
          rw [hdepth] at hdeep
          have hdeep := of_decide_eq_true hdeep
          rw [List.length_replicate] at hdeep
          omega

theorem withinDepth_trans {ns tp cp : Namespace} {targetDepth covererDepth : Option Int}
    (h : withinDepth ns tp targetDepth = true) (ha : absorbs tp cp targetDepth covererDepth = true) :
    withinDepth ns cp covererDepth = true := by
  cases covererDepth with
  | none => rfl
  | some c =>
    cases targetDepth with
    | none => cases ha
    | some t =>
      have h := of_decide_eq_true h
      have ha := of_decide_eq_true ha
      refine decide_eq_true ?_
      omega

theorem filterCovers_channels {c s : SubscribeParams} (h : filterCovers c s = true) :
    ∀ ch ∈ s.channels, ch ∈ c.channels := by
  intro ch hch
  exact of_decide_eq_true (List.all_eq_true.mp (Bool.and_eq_true_iff.mp h).1 ch hch)

theorem channelListed_mono {channel : String} {cs ds : List String} (h : ∀ ch ∈ cs, ch ∈ ds)
    (hc : channelListed channel cs = true) : channelListed channel ds = true := by
  simp only [channelListed, Bool.or_eq_true, Bool.and_eq_true, decide_eq_true_eq] at hc ⊢
  exact hc.imp (h channel) (fun hcustom => ⟨hcustom.1, h _ hcustom.2⟩)

-- The empty list of namespaces apart, what a filter covers it matches.
theorem namespaceMatches_of_covers {c s : SubscribeParams} (h : filterCovers c s = true)
    (hs : s.namespaces ≠ some []) {ns : Namespace}
    (hm : namespaceMatches ns s.namespaces s.depth = true) :
    namespaceMatches ns c.namespaces c.depth = true := by
  have hcovers := (Bool.and_eq_true_iff.mp h).2
  cases hc : c.namespaces with
  | none => rfl
  | some cs =>
    cases hsn : s.namespaces with
    | none =>
      rw [hc, hsn] at hcovers
      cases hcovers
    | some ss =>
      have hne : ss ≠ [] := fun hnil => hs (hnil ▸ hsn)
      rw [hc, hsn] at hcovers
      rw [hsn, namespaceMatches_some hne] at hm
      obtain ⟨tp, htp, hprefix, hdepth⟩ := hm
      obtain ⟨cp, hcp, hboth⟩ := List.any_eq_true.mp (List.all_eq_true.mp hcovers tp htp)
      obtain ⟨hbelow, habsorbs⟩ := Bool.and_eq_true_iff.mp hboth
      rw [namespaceMatches_some (List.ne_nil_of_mem hcp)]
      exact ⟨cp, hcp, isPrefixMatch_trans hprefix hbelow, withinDepth_trans hdepth habsorbs⟩

end Namespaces

end Sdk

end LangGraph

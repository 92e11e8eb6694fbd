import LangGraph.Pregel.DeltaReads
import LangGraph.Pregel.StateSnapshot

namespace LangGraph

open Collections

variable {Ver : Type}

theorem addNames_ok {key : String} {names : Finset Value} {vs : List Value} {seen : Finset Value}
    {b r : Bool} (h : (addNames key names vs seen b).2 = .ok r) :
    (addNames key names vs seen b).1 = seen ∪ vs.toFinset ∧
      (r = true ↔ b = true ∨ ∃ v ∈ vs, v ∉ seen) ∧ ∀ v ∈ vs, v ∈ names := by
  induction vs generalizing seen b with
  | nil =>
    obtain rfl := Except.ok.inj h
    simp [addNames]
  | cons v vs ih =>
    simp only [addNames] at h ⊢
    split at h
    · rename_i hname
      rw [if_pos hname]
      split at h
      · rename_i hseen
        rw [if_pos hseen]
        obtain ⟨hfst, hiff, hnames⟩ := ih h
        refine ⟨?_, ?_, ?_⟩
        · rw [hfst, List.toFinset_cons]
          grind
        · rw [hiff]
          simp [hseen]
        · simpa [hname] using hnames
      · rename_i hseen
        rw [if_neg hseen]
        obtain ⟨hfst, hiff, hnames⟩ := ih h
        refine ⟨?_, ?_, ?_⟩
        · rw [hfst, List.toFinset_cons]
          grind
        · rw [hiff]
          simp [hseen]
        · simpa [hname] using hnames
    · cases h

theorem addNames_complete {key : String} {names seen : Finset Value} {vs : List Value} {r : Bool}
    (h : (addNames key names vs seen false).2 = .ok r) :
    r = true ∧ (addNames key names vs seen false).1 = names ↔
      seen ≠ names ∧ seen ∪ vs.toFinset = names := by
  obtain ⟨hfst, hiff, hnames⟩ := addNames_ok h
  rw [hfst, hiff]
  constructor
  · rintro ⟨hfresh | ⟨v, hv, hunseen⟩, hall⟩
    · cases hfresh
    · refine ⟨fun heq => hunseen ?_, hall⟩
      rw [heq]
      exact hnames v hv
  · rintro ⟨hne, hall⟩
    refine ⟨Or.inr ?_, hall⟩
    by_contra hno
    push Not at hno
    apply hne
    rw [← hall, Finset.left_eq_union]
    intro v hv
    exact hno v (List.mem_toFinset.mp hv)

theorem BinaryOperatorAggregate.update_ne_false (c : BinaryOperatorAggregate) {vs : List Value}
    (h : vs ≠ []) : (c.update vs).2 ≠ .ok false := by
  cases vs with
  | nil => exact absurd rfl h
  | cons v vs =>
    simp only [update]
    split
    · exact c.fold_ne_false _ _ _
    · exact c.fold_ne_false _ _ _

namespace Channel

-- Whether a channel takes these writes for an update and is available then.
def freshened : Channel → List Value → Bool
  | lastValueAfterFinish _, _ => false
  | topic _, vs => !(flatten vs).isEmpty
  | namedBarrierValue c, vs => c.seen ≠ c.names ∧ c.seen ∪ vs.toFinset = c.names
  | namedBarrierValueAfterFinish c, vs =>
      c.finished ∧ c.seen ≠ c.names ∧ c.seen ∪ vs.toFinset = c.names
  | _, vs => !vs.isEmpty

-- What a channel shows after these writes and loses at the next step.
def forgotten : Channel → List Value → Option Value
  | anyValue _, vs => vs.getLast?
  | ephemeralValue _, vs => vs.getLast?
  | topic c, vs => if c.accumulate then none else (Topic.mk false (flatten vs)).get
  | _, _ => none

-- What a channel hides after these writes until it is finished.
def heldBack : Channel → List Value → Option Value
  | lastValueAfterFinish c, vs =>
      vs.getLast?.or (if c.finished then none else c.value)
  | namedBarrierValueAfterFinish c, vs =>
      if c.finished = false ∧ c.seen ∪ vs.toFinset = c.names then some Value.none else none
  | _, _ => none

-- The notice of a new step, which a channel in `updated_channels` does not get.
def stepped (c : Channel) (updated : Bool) : Channel :=
  if c.isAvailable && !updated then (c.update []).1 else c

def written (c : Channel) (vs : List Value) : Channel × Except UpdateError Bool :=
  if vs = [] then (c, .ok false) else c.update vs

theorem marked_nil (c : Channel) : Cell.marked (c.update []) = false := by
  cases c with
  | anyValue c =>
    obtain ⟨_ | v⟩ := c
    · rfl
    · rfl
  | ephemeralValue c =>
    obtain ⟨key, guard, _ | v⟩ := c
    · rfl
    · rfl
  | topic c =>
    obtain ⟨_ | _, _ | ⟨v, vs⟩⟩ := c
    · rfl
    · rfl
    · rfl
    · rfl
  | _ => rfl

theorem freshened_nil (c : Channel) : c.freshened [] = false := by
  cases c with
  | namedBarrierValue c => simp [freshened]
  | namedBarrierValueAfterFinish c => simp [freshened]
  | _ => rfl

theorem marked_update {c : Channel} {vs : List Value} (hne : vs ≠ []) {b : Bool}
    (hok : (c.update vs).2 = .ok b) : Cell.marked (c.update vs) = c.freshened vs := by
  obtain ⟨v, hv⟩ : ∃ v, vs.getLast? = some v :=
    Option.isSome_iff_exists.mp (by simpa using hne)
  have hempty : vs.isEmpty = false := by simpa using hne
  cases c with
  | lastValue c =>
    match vs with
    | [v] => rfl
    | _ :: _ :: _ => cases hok
  | lastValueAfterFinish c =>
    change Cell.marked ((c.update vs).map lastValueAfterFinish id) = false
    simp [LastValueAfterFinish.update, hv, Cell.marked, isAvailable,
      LastValueAfterFinish.isAvailable]
  | anyValue c =>
    change Cell.marked ((c.update vs).map anyValue id) = !vs.isEmpty
    simp [AnyValue.update, hv, Cell.marked, isAvailable, hempty]
  | ephemeralValue c =>
    change ((c.update vs).map ephemeralValue id).2 = .ok b at hok
    change Cell.marked ((c.update vs).map ephemeralValue id) = !vs.isEmpty
    simp only [EphemeralValue.update, hv] at hok ⊢
    split at hok
    · cases hok
    · rename_i hguard
      rw [if_neg hguard, hempty]
      rfl
  | untrackedValue c =>
    change ((c.update vs).map untrackedValue id).2 = .ok b at hok
    change Cell.marked ((c.update vs).map untrackedValue id) = !vs.isEmpty
    simp only [UntrackedValue.update, hv] at hok ⊢
    split at hok
    · cases hok
    · rename_i hguard
      rw [if_neg hguard, hempty]
      rfl
  | topic c =>
    change Cell.marked ((c.update vs).map topic id) = !(flatten vs).isEmpty
    have hfst := c.update_fst vs
    have hsnd := c.update_snd vs
    obtain ⟨acc, values⟩ := c
    cases hf : flatten vs <;> cases acc <;> cases values <;>
      simp_all [Cell.marked, isAvailable, Topic.isAvailable, Topic.kept, Prod.map]
  | namedBarrierValue c =>
    have hadd : (addNames c.key c.names vs c.seen false).2 = .ok b := hok
    have hiff := addNames_complete hadd
    change Cell.marked (namedBarrierValue ⟨c.key, c.names, (addNames c.key c.names vs c.seen
      false).1⟩, (addNames c.key c.names vs c.seen false).2) = decide _
    rw [hadd, Bool.eq_iff_iff, decide_eq_true_iff, ← hiff]
    cases b <;> simp [Cell.marked, isAvailable, NamedBarrierValue.isAvailable]
  | namedBarrierValueAfterFinish c =>
    have hadd : (addNames c.key c.names vs c.seen false).2 = .ok b := hok
    have hiff := addNames_complete hadd
    change Cell.marked (namedBarrierValueAfterFinish ⟨c.key, c.names, (addNames c.key c.names vs
      c.seen false).1, c.finished⟩, (addNames c.key c.names vs c.seen false).2) = decide _
    rw [hadd, Bool.eq_iff_iff, decide_eq_true_iff, ← hiff]
    cases b <;> simp [Cell.marked, isAvailable, NamedBarrierValueAfterFinish.isAvailable]
  | binaryOperatorAggregate c =>
    change ((c.update vs).map binaryOperatorAggregate id).2 = .ok b at hok
    change Cell.marked ((c.update vs).map binaryOperatorAggregate id) = !vs.isEmpty
    obtain ⟨w, hw⟩ := c.update_withValue hne
    have hb : b = true := by
      cases b with
      | true => rfl
      | false => exact absurd hok (c.update_ne_false hne)
    rw [hempty]
    simp only [Prod.map, id] at hok ⊢
    rw [hok, hb, hw]
    rfl
  | deltaChannel c =>
    change ((c.update vs).map deltaChannel id).2 = .ok b at hok
    change Cell.marked ((c.update vs).map deltaChannel id) = !vs.isEmpty
    rw [hempty]
    simp only [DeltaChannel.update] at hok ⊢
    split at hok
    · cases hok
    · rfl
    · cases hred : c.reducer (c.value.getD c.typ) vs with
      | ok w => simp [Cell.marked, isAvailable]
      | error e => simp [hred] at hok

def shown (c : Channel) (vs : List Value) (updated finish : Bool) : Option Value :=
  let d := (c.written vs).1.stepped updated
  (if finish then d.finish.1 else d).get

inductive Shown (c : Channel) (vs : List Value) (finish : Bool) : Prop
  | forgotten (v : Value) (hf : c.forgotten vs = some v) (hh : c.heldBack vs = none)
      (hsnapshot : c.shown vs false true = none)
      (hloop : c.shown vs (c.freshened vs) finish = some v)
  | heldBack (v : Value) (hf : c.forgotten vs = none) (hh : c.heldBack vs = some v)
      (hsnapshot : c.shown vs false true = some v)
      (hloop : c.shown vs (c.freshened vs) finish = if finish then some v else none)
  | same (hf : c.forgotten vs = none) (hh : c.heldBack vs = none)
      (hshown : c.shown vs false true = c.shown vs (c.freshened vs) finish)

theorem kind_written (c : Channel) (vs : List Value) : (c.written vs).1.kind = c.kind := by
  unfold written
  split
  · rfl
  · exact kind_update c vs

theorem stepped_of_kind {c : Channel}
    (h : c.kind ∉ [.anyValue, .ephemeralValue, .topic]) (updated : Bool) :
    c.stepped updated = c := by
  unfold stepped
  split
  · cases c with
    | anyValue c => simp [kind] at h
    | ephemeralValue c => simp [kind] at h
    | topic c => simp [kind] at h
    | _ => rfl
  · rfl

theorem finish_of_kind {c : Channel} (h : c.afterFinish = false) : c.finish.1 = c := by
  cases c with
  | lastValueAfterFinish c => cases h
  | namedBarrierValueAfterFinish c => cases h
  | _ => rfl

theorem shown_of_plain {c : Channel} {vs : List Value}
    (h : c.kind ∉ [.anyValue, .ephemeralValue, .topic]) (ha : c.afterFinish = false)
    (updated finish : Bool) : c.shown vs updated finish = (c.written vs).1.get := by
  have hkind := kind_written c vs
  have hfinish : (c.written vs).1.finish.1 = (c.written vs).1 :=
    finish_of_kind ((afterFinish_of_kind hkind).trans ha)
  unfold shown
  simp only [stepped_of_kind (hkind ▸ h), hfinish, ite_self]

theorem shown_of_afterFinish {c : Channel} {vs : List Value} (h : c.afterFinish = true)
    (updated finish : Bool) :
    c.shown vs updated finish =
      (if finish then (c.written vs).1.finish.1 else (c.written vs).1).get := by
  have hkind := kind_written c vs
  have hkeep : (c.written vs).1.kind ∉ [.anyValue, .ephemeralValue, .topic] := by
    rw [hkind]
    cases c with
    | lastValueAfterFinish c => simp [kind]
    | namedBarrierValueAfterFinish c => simp [kind]
    | _ => cases h
  unfold shown
  simp only [stepped_of_kind hkeep]

theorem Shown.ofAfterFinish {c : Channel} {vs : List Value} {finish : Bool}
    (ha : c.afterFinish = true) (hf : c.forgotten vs = none)
    (h : (∃ v, c.heldBack vs = some v ∧ (c.written vs).1.finish.1.get = some v ∧
        (c.written vs).1.get = none) ∨
      c.heldBack vs = none ∧ (c.written vs).1.finish.1.get = (c.written vs).1.get) :
    Shown c vs finish := by
  have hshown := @shown_of_afterFinish c vs ha
  rcases h with ⟨v, hheld, hfinished, hwaiting⟩ | ⟨hheld, hsame⟩
  · refine .heldBack v hf hheld ((hshown _ _).trans hfinished) ?_
    rw [hshown]
    cases finish with
    | true => exact hfinished
    | false => exact hwaiting
  · refine .same hf hheld ?_
    rw [hshown, hshown]
    cases finish with
    | true => rfl
    | false => exact hsame

theorem Shown.lastValueAfterFinish (c : LastValueAfterFinish) (vs : List Value) (finish : Bool) :
    Shown (.lastValueAfterFinish c) vs finish := by
  refine Shown.ofAfterFinish rfl rfl ?_
  cases hvs : vs.getLast? with
  | none =>
    obtain rfl := List.getLast?_eq_none_iff.mp hvs
    obtain ⟨key, value, finished, hsome⟩ := c
    cases finished with
    | true => exact Or.inr ⟨rfl, rfl⟩
    | false =>
      cases value with
      | none => exact Or.inr ⟨rfl, rfl⟩
      | some v => exact Or.inl ⟨v, rfl, rfl, rfl⟩
  | some v =>
    have hne : vs ≠ [] := by
      rintro rfl
      cases hvs
    have hwritten : ((Channel.lastValueAfterFinish c).written vs).1 =
        .lastValueAfterFinish ⟨c.key, some v, false, fun _ => rfl⟩ := by
      rw [written, if_neg hne]
      change Channel.lastValueAfterFinish (c.update vs).1 = _
      rw [LastValueAfterFinish.update, hvs]
    refine Or.inl ⟨v, ?_, ?_, ?_⟩
    · simp [Channel.heldBack, hvs]
    · rw [hwritten]
      rfl
    · rw [hwritten]
      rfl

theorem Shown.namedBarrierValueAfterFinish (c : NamedBarrierValueAfterFinish) {vs : List Value}
    {b : Bool} (hok : ((Channel.namedBarrierValueAfterFinish c).written vs).2 = .ok b)
    (finish : Bool) : Shown (.namedBarrierValueAfterFinish c) vs finish := by
  refine Shown.ofAfterFinish rfl rfl ?_
  have hwritten : ((Channel.namedBarrierValueAfterFinish c).written vs).1 =
      .namedBarrierValueAfterFinish ⟨c.key, c.names, c.seen ∪ vs.toFinset, c.finished⟩ := by
    unfold written at hok ⊢
    split at hok
    · rename_i hnil
      rw [if_pos hnil, hnil]
      simp
    · rename_i hne
      rw [if_neg hne]
      have hadd : (addNames c.key c.names vs c.seen false).2 = .ok b := hok
      rw [← (addNames_ok hadd).1]
      rfl
  rw [hwritten, Channel.heldBack]
  by_cases hall : c.seen ∪ vs.toFinset = c.names
  · cases hfinished : c.finished with
    | true => exact Or.inr ⟨by simp, by simp [Channel.finish, NamedBarrierValueAfterFinish.finish]⟩
    | false =>
      refine Or.inl ⟨Value.none, by simp [hall], ?_, ?_⟩
      · simp [Channel.finish, NamedBarrierValueAfterFinish.finish, hall, get,
          NamedBarrierValueAfterFinish.get, NamedBarrierValueAfterFinish.isAvailable]
      · simp [get, NamedBarrierValueAfterFinish.get, NamedBarrierValueAfterFinish.isAvailable]
  · refine Or.inr ⟨by simp [hall], ?_⟩
    simp [Channel.finish, NamedBarrierValueAfterFinish.finish, hall]

theorem kind_stepped (c : Channel) (updated : Bool) : (c.stepped updated).kind = c.kind := by
  unfold stepped
  split
  · exact kind_update c []
  · rfl

theorem shown_of_unfinished {c : Channel} {vs : List Value} (h : c.afterFinish = false)
    (updated finish : Bool) :
    c.shown vs updated finish = ((c.written vs).1.stepped updated).get := by
  have hkind : ((c.written vs).1.stepped updated).kind = c.kind :=
    (kind_stepped _ updated).trans (kind_written c vs)
  unfold shown
  simp only [finish_of_kind ((afterFinish_of_kind hkind).trans h), ite_self]

-- A channel with nothing fresh shows the same whether or not a step is announced.
theorem Shown.ofForgetful {c : Channel} {vs : List Value} {finish : Bool}
    (ha : c.afterFinish = false) (hh : c.heldBack vs = none)
    (h : (∃ v, c.forgotten vs = some v ∧ c.freshened vs = true ∧ (c.written vs).1.get = some v ∧
        ((c.written vs).1.stepped false).get = none) ∨
      c.forgotten vs = none ∧
        ((c.written vs).1.stepped false).get = ((c.written vs).1.stepped (c.freshened vs)).get) :
    Shown c vs finish := by
  have hshown := @shown_of_unfinished c vs ha
  rcases h with ⟨v, hf, hfresh, hget, hcleared⟩ | ⟨hf, hsame⟩
  · refine .forgotten v hf hh ((hshown _ _).trans hcleared) ?_
    rw [hshown, hfresh, ← hget]
    simp [stepped]
  · refine .same hf hh ?_
    rw [hshown, hshown, hsame]

theorem Shown.topic (c : Topic) (vs : List Value) (finish : Bool) :
    Shown (.topic c) vs finish := by
  refine Shown.ofForgetful rfl rfl ?_
  have hstep (d : Topic) : (Channel.topic d).stepped false = .topic { d with values := d.kept } := by
    unfold stepped
    split
    · rw [← List.append_nil d.kept]
      exact congrArg Channel.topic (d.update_fst [])
    · rename_i hoff
      have hnil : d.values = [] := by simpa [isAvailable, Topic.isAvailable] using hoff
      obtain ⟨acc, values⟩ := d
      obtain rfl := hnil
      cases acc <;> rfl
  have hwritten (hne : vs ≠ []) : ((Channel.topic c).written vs).1 =
      .topic { c with values := c.kept ++ flatten vs } := by
    rw [written, if_neg hne]
    exact congrArg Channel.topic (c.update_fst vs)
  cases hf : flatten vs with
  | nil =>
    have hfresh : (Channel.topic c).freshened vs = false := by simp [freshened, hf]
    refine Or.inr ⟨?_, by rw [hfresh]⟩
    simp [Channel.forgotten, hf, Topic.get]
  | cons x xs =>
    have hne : vs ≠ [] := by
      rintro rfl
      cases hf
    have hfresh : (Channel.topic c).freshened vs = true := by simp [freshened, hf]
    rw [hwritten hne, hfresh, hstep, hf]
    obtain ⟨acc, values⟩ := c
    cases acc with
    | true => exact Or.inr ⟨rfl, by simp [stepped, Topic.kept]⟩
    | false =>
      refine Or.inl ⟨.list (x :: xs), ?_, rfl, rfl, rfl⟩
      simp [Channel.forgotten, hf, Topic.get]

theorem Shown.anyValue (c : AnyValue) (vs : List Value) (finish : Bool) :
    Shown (.anyValue c) vs finish := by
  refine Shown.ofForgetful rfl rfl ?_
  cases hvs : vs.getLast? with
  | none =>
    obtain rfl := List.getLast?_eq_none_iff.mp hvs
    exact Or.inr ⟨rfl, by rw [freshened_nil]⟩
  | some v =>
    have hne : vs ≠ [] := by
      rintro rfl
      cases hvs
    have hwritten : ((Channel.anyValue c).written vs).1 = .anyValue ⟨some v⟩ := by
      rw [written, if_neg hne]
      change Channel.anyValue (c.update vs).1 = _
      rw [AnyValue.update, hvs]
    refine Or.inl ⟨v, hvs, by simpa [freshened] using hne, ?_, ?_⟩
    · rw [hwritten]
      rfl
    · rw [hwritten]
      rfl

theorem Shown.ephemeralValue (c : EphemeralValue) {vs : List Value} {b : Bool}
    (hok : ((Channel.ephemeralValue c).written vs).2 = .ok b) (finish : Bool) :
    Shown (.ephemeralValue c) vs finish := by
  refine Shown.ofForgetful rfl rfl ?_
  cases hvs : vs.getLast? with
  | none =>
    obtain rfl := List.getLast?_eq_none_iff.mp hvs
    exact Or.inr ⟨rfl, by rw [freshened_nil]⟩
  | some v =>
    have hne : vs ≠ [] := by
      rintro rfl
      cases hvs
    have hwritten : ((Channel.ephemeralValue c).written vs).1 =
        .ephemeralValue { c with value := some v } := by
      rw [written, if_neg hne] at hok ⊢
      change (c.update vs).2 = .ok b at hok
      change Channel.ephemeralValue (c.update vs).1 = _
      simp only [EphemeralValue.update, hvs] at hok ⊢
      split at hok
      · cases hok
      · rename_i hguard
        rw [if_neg hguard]
    refine Or.inl ⟨v, hvs, by simpa [freshened] using hne, ?_, ?_⟩
    · rw [hwritten]
      rfl
    · rw [hwritten]
      rfl

theorem shown_cases {c : Channel} {vs : List Value} {b : Bool} (hok : (c.written vs).2 = .ok b)
    (finish : Bool) : Shown c vs finish := by
  cases c with
  | lastValueAfterFinish c => exact Shown.lastValueAfterFinish c vs finish
  | namedBarrierValueAfterFinish c => exact Shown.namedBarrierValueAfterFinish c hok finish
  | topic c => exact Shown.topic c vs finish
  | anyValue c => exact Shown.anyValue c vs finish
  | ephemeralValue c => exact Shown.ephemeralValue c hok finish
  | _ =>
    refine .same rfl rfl ?_
    rw [shown_of_plain (by simp [kind]) rfl, shown_of_plain (by simp [kind]) rfl]

end Channel

section Apply

variable {channels : Dict String Channel} {versions : ChannelVersions Ver} {next : Option Ver}
  {tasks : List PregelTaskWrites} {triggerToNodes : Dict String (List String)} {chan : String}
  {c : Channel}

theorem batchOf_eq_nil : batchOf channels tasks chan = [] ↔
    chan ∉ (pendingWritesByChannel channels tasks).keys := by
  constructor
  · intro hnil hmem
    exact batchOf_ne_nil hmem hnil
  · exact batchOf_of_not_mem

theorem writtenChannel_eq (c : Channel) : writtenChannel channels tasks chan c =
    (consumedChannel channels tasks chan c).written (batchOf channels tasks chan) := by
  unfold writtenChannel Channel.written
  simp only [batchOf_eq_nil, ite_not]
  rfl

theorem consumedCell_spec (hc : channels.get? chan = some c) :
    (consumedCell channels versions next tasks chan).channel =
        some (consumedChannel channels tasks chan c) ∧
      (consumedCell channels versions next tasks chan).updated = false := by
  unfold consumedCell consumedChannel
  split
  · have hresult := result_consume (x := (⟨channels.get? chan, versions.get? chan, false⟩ :
      Cell Channel Ver)) hc chan
    refine ⟨Cell.channel_of_result hresult next, ?_⟩
    exact (Cell.touch_updated next chan _ _ hresult).trans (by simp)
  · exact ⟨hc, rfl⟩

theorem consumedCell_none (hc : channels.get? chan = none) :
    consumedCell channels versions next tasks chan =
      ⟨none, versions.get? chan, false⟩ := by
  rw [consumedCell, hc]
  exact Cell.run_none rfl

def freshens (channels : Dict String Channel) (tasks : List PregelTaskWrites) (chan : String) :
    Bool :=
  ((channels.get? chan).map (fun c =>
    (consumedChannel channels tasks chan c).freshened (batchOf channels tasks chan))).getD false

theorem writtenCell_spec (hc : channels.get? chan = some c)
    (hok : chan ∈ (pendingWritesByChannel channels tasks).keys →
      (consumedCell channels versions next tasks chan).error chan (updateStage channels tasks) =
        none) :
    (∃ b, (writtenChannel channels tasks chan c).2 = .ok b) ∧
      ((consumedCell channels versions next tasks chan).run next chan
        (if chan ∈ (pendingWritesByChannel channels tasks).keys then [updateStage channels tasks]
          else [])).channel = some (writtenChannel channels tasks chan c).1 ∧
      ((consumedCell channels versions next tasks chan).run next chan
        (if chan ∈ (pendingWritesByChannel channels tasks).keys then [updateStage channels tasks]
          else [])).updated = (next.isSome && freshens channels tasks chan) := by
  obtain ⟨hchannel, hupdated⟩ := @consumedCell_spec _ channels versions next tasks chan c hc
  have hfresh : freshens channels tasks chan =
      (consumedChannel channels tasks chan c).freshened (batchOf channels tasks chan) := by
    rw [freshens, hc]
    rfl
  rw [hfresh, writtenChannel_eq]
  split
  · rename_i hmem
    have hne := batchOf_ne_nil hmem
    have hresult : (consumedCell channels versions next tasks chan).result chan
        (updateStage channels tasks) =
          some ((consumedChannel channels tasks chan c).update (batchOf channels tasks chan)) :=
      Cell.result_update hchannel chan _
    have herror := hok hmem
    rw [Cell.error, hresult] at herror
    rw [Channel.written, if_neg hne]
    rcases hr : (consumedChannel channels tasks chan c).update (batchOf channels tasks chan) with
      ⟨d, e | b⟩
    · rw [hr] at herror
      cases herror
    · rw [hr] at hresult
      refine ⟨⟨b, rfl⟩, Cell.channel_of_result hresult next, ?_⟩
      have hmarked := Channel.marked_update hne (by rw [hr])
      rw [hr] at hmarked
      refine (Cell.touch_updated next chan _ _ hresult).trans ?_
      rw [hupdated, ← hmarked]
      cases b <;> cases next <;> simp [Cell.marked, updateStage]
  · rename_i hmem
    have hnil := batchOf_eq_nil.mpr hmem
    rw [hnil, Channel.freshened_nil, Bool.and_false]
    exact ⟨⟨false, rfl⟩, hchannel, hupdated⟩

theorem touch_updateEmpty_spec {x : Cell Channel Ver} (hx : x.channel = some c) (chan : String) :
    (x.touch next chan ⟨true, .updateEmpty⟩).channel = some (c.stepped x.updated) ∧
      (x.touch next chan ⟨true, .updateEmpty⟩).updated = x.updated := by
  have hresult := Cell.result_updateEmpty hx chan
  obtain ⟨b, hb⟩ := c.update_nil
  unfold Channel.stepped
  split at hresult
  · rename_i hstep
    rw [if_pos hstep]
    have hok : x.result chan ⟨true, .updateEmpty⟩ = some ((c.update []).1, .ok b) := by
      rw [hresult, ← hb]
    refine ⟨Cell.channel_of_result hok next, ?_⟩
    have hmarked : (b && (c.update []).1.isAvailable) = false := by
      rw [← c.marked_nil]
      rcases hr : c.update [] with ⟨d, r⟩
      rw [hr] at hb
      simp only at hb
      rw [hb]
      cases b <;> rfl
    rw [Cell.touch_updated next chan _ _ hok]
    cases b <;> cases next <;> simp_all
  · rename_i hstep
    rw [if_neg hstep]
    refine ⟨Cell.channel_of_result hresult next, ?_⟩
    rw [Cell.touch_updated next chan _ _ hresult]
    simp

-- Whether the last phase of an apply runs; without versions no channel counts as updated.
def finishes (versioned : Bool) (channels : Dict String Channel) (tasks : List PregelTaskWrites)
    (triggerToNodes : Dict String (List String)) : Bool :=
  !(versioned && triggerToNodes.keys.any (freshens channels tasks))

theorem steppedCell_spec {x : Cell Channel Ver}
    (hx : x = (consumedCell channels versions next tasks chan).run next chan
      (if chan ∈ (pendingWritesByChannel channels tasks).keys then [updateStage channels tasks]
        else []))
    (hok : chan ∈ (pendingWritesByChannel channels tasks).keys →
      (consumedCell channels versions next tasks chan).error chan (updateStage channels tasks) =
        none) :
    (x.touch next chan ⟨true, .updateEmpty⟩).channel = (channels.get? chan).map (fun c =>
        (writtenChannel channels tasks chan c).1.stepped
          (next.isSome && freshens channels tasks chan)) ∧
      (x.touch next chan ⟨true, .updateEmpty⟩).updated =
        (next.isSome && freshens channels tasks chan) := by
  cases hc : channels.get? chan with
  | none =>
    rw [consumedCell_none hc, Cell.run_none rfl] at hx
    have hnone : x.channel = none := by rw [hx]
    rw [Cell.touch_none hnone, freshens, hc, hx]
    simp
  | some c =>
    obtain ⟨-, hchannel, hupdated⟩ := writtenCell_spec hc hok
    rw [← hx] at hchannel hupdated
    obtain ⟨hstepped, hkept⟩ := @touch_updateEmpty_spec _ next _ _ hchannel chan
    rw [hupdated] at hstepped hkept
    exact ⟨hstepped, hkept⟩

theorem channel_applyChannels_still
    (hok : (applyChannels channels versions next tasks triggerToNodes).2 = none)
    (hb : bumpStep tasks = false) (chan : String) :
    (applyChannels channels versions next tasks triggerToNodes).1.channels.get? chan =
      (channels.get? chan).map (fun c => (writtenChannel channels tasks chan c).1) := by
  obtain ⟨s, heq, hcell, herror⟩ := applyChannels_split hok
  have hsame := hcell chan
  simp only [hb, Bool.false_eq_true, if_false] at heq hsame
  have hchannel := congrArg Cell.channel hsame
  rw [heq]
  refine hchannel.trans ?_
  simp only [Cell.run]
  cases hc : channels.get? chan with
  | none =>
    rw [consumedCell_none hc, Cell.run_none rfl]
    rfl
  | some c => exact (writtenCell_spec hc (herror chan)).2.1

theorem get_applyChannels
    (hok : (applyChannels channels versions next tasks triggerToNodes).2 = none)
    (hc : channels.get? chan = some c) :
    (∃ b, ((consumedChannel channels tasks chan c).written (batchOf channels tasks chan)).2 =
        .ok b) ∧
      ((applyChannels channels versions next tasks triggerToNodes).1.channels.get? chan).bind
          Channel.get =
        if bumpStep tasks then
          (consumedChannel channels tasks chan c).shown (batchOf channels tasks chan)
            (next.isSome && freshens channels tasks chan)
            (finishes next.isSome channels tasks triggerToNodes)
        else
          ((consumedChannel channels tasks chan c).written (batchOf channels tasks chan)).1.get := by
  obtain ⟨s, heq, hcell, herror⟩ := applyChannels_split hok
  obtain ⟨hwritten, hchannel, -⟩ :=
    @writtenCell_spec _ channels versions next tasks chan c hc (herror chan)
  rw [writtenChannel_eq] at hwritten hchannel
  refine ⟨hwritten, ?_⟩
  have hget (t : ApplyState Channel Ver) : t.channels.get? chan = (t.cell chan).channel := rfl
  cases hb : bumpStep tasks with
  | false =>
    rw [channel_applyChannels_still hok hb, hc, Option.map_some, writtenChannel_eq]
    rfl
  | true =>
    rw [hb, if_pos rfl] at heq
    simp only [hb, if_true] at hcell ⊢
    have hstepped := (steppedCell_spec rfl (herror chan)).1
    have hcurrent := congrArg Cell.channel (hcell chan)
    simp only [Cell.run] at hcurrent
    rw [hstepped, hc, Option.map_some, writtenChannel_eq] at hcurrent
    have hfinishes : (∃ k ∈ s.updated, k ∈ triggerToNodes.keys) ↔
        finishes next.isSome channels tasks triggerToNodes = false := by
      have hupdated (k : String) : k ∈ s.updated ↔
          (next.isSome && freshens channels tasks k) = true := by
        have hk := congrArg Cell.updated (hcell k)
        simp only [Cell.run] at hk
        rw [(steppedCell_spec rfl (herror k)).2] at hk
        rw [← hk]
        simp [ApplyState.cell]
      simp only [hupdated, finishes, Bool.not_eq_false', Bool.and_eq_true, List.any_eq_true]
      tauto
    rw [heq] at hok ⊢
    unfold finishPhase at hok ⊢
    split at hok
    · rename_i hsome
      rw [if_pos hsome, hfinishes.mp hsome, hget, hcurrent]
      rfl
    · rename_i hnone
      have htrue : finishes next.isSome channels tasks triggerToNodes = true := by
        simpa using fun h => hnone (hfinishes.mpr h)
      rw [if_neg hnone, htrue, hget, cell_sweep_keys ⟨true, .finish⟩ hok chan]
      simp only [Cell.run]
      rw [Cell.channel_of_result (Cell.result_finish hcurrent chan) next]
      rfl

def errorOf (channels : Dict String Channel) (tasks : List PregelTaskWrites) (chan : String) :
    Option UpdateError :=
  match (channels.get? chan).map (fun c =>
    ((consumedChannel channels tasks chan c).update (batchOf channels tasks chan)).2) with
  | some (.error e) => some e
  | _ => none

theorem error_consumedCell (chan : String) :
    (consumedCell channels versions next tasks chan).error chan (updateStage channels tasks) =
      errorOf channels tasks chan := by
  cases hc : channels.get? chan with
  | none =>
    rw [consumedCell_none hc, errorOf, hc]
    rfl
  | some c =>
    have hchannel := (@consumedCell_spec _ channels versions next tasks chan c hc).1
    have hresult : (consumedCell channels versions next tasks chan).result chan
        (updateStage channels tasks) =
          some ((consumedChannel channels tasks chan c).update (batchOf channels tasks chan)) :=
      Cell.result_update hchannel chan _
    rw [Cell.error, hresult, errorOf, hc, Option.map_some]
    rcases (consumedChannel channels tasks chan c).update (batchOf channels tasks chan) with
      ⟨d, e | b⟩ <;> rfl

theorem applyChannels_snd :
    (applyChannels channels versions next tasks triggerToNodes).2 =
      (pendingWritesByChannel channels tasks).keys.findSome? (errorOf channels tasks) := by
  cases h : (applyChannels channels versions next tasks triggerToNodes).2 with
  | none =>
    obtain ⟨s, -, -, herror⟩ := applyChannels_split h
    refine (List.findSome?_eq_none_iff.mpr (fun chan hmem => ?_)).symm
    rw [← herror chan hmem, error_consumedCell]
  | some e =>
    obtain ⟨pre, k, post, hkeys, hpre, hfail, -⟩ := applyChannels_error h
    rw [error_consumedCell] at hfail
    have hnone : pre.findSome? (errorOf channels tasks) = none := by
      refine List.findSome?_eq_none_iff.mpr (fun chan hmem => ?_)
      rw [← hpre chan hmem, error_consumedCell]
    rw [hkeys, List.findSome?_append, hnone, List.findSome?_cons, hfail]
    rfl

end Apply

section Snapshot

variable [LinearOrder Ver] [OrderBot Ver]

def nullTask (writes : List Write) : PregelTaskWrites := ⟨[], Key.input, writes, []⟩

def finishedTasks (g : Graph Channel) (applyPendingWrites : Bool) (saved : CheckpointTuple Ver)
    (channels : Dict String Channel) : List PregelTask :=
  (if applyPendingWrites then
    (stateTasks g saved channels).mapValues (snapshotWrites saved.pendingWrites)
    else stateTasks g saved channels).values.filter (fun t => t.writes ≠ [])

-- The null writes and then the tasks, by an `apply_writes` with or without versions.
def applyNulls (getNextVersion : Option (GetNextVersion Ver)) (g : Graph Channel)
    (saved : CheckpointTuple Ver) (channels : Dict String Channel) :
    Checkpoint Ver × Dict String Channel × Except UpdateError (Finset String) :=
  match taskWritesOf nullTaskId saved.pendingWrites with
  | [] => (saved.checkpoint, channels, .ok ∅)
  | writes =>
      applyWrites saved.checkpoint channels [nullTask writes] getNextVersion g.triggerToNodes

def applyPending (getNextVersion : Option (GetNextVersion Ver)) (g : Graph Channel)
    (saved : CheckpointTuple Ver) (channels : Dict String Channel) (tasks : List PregelTask) :
    Except UpdateError (Dict String Channel) :=
  let r := applyNulls getNextVersion g saved channels
  match r.2.2, tasks with
  | .error e, _ => .error e
  | .ok _, [] => .ok r.2.1
  | .ok _, tasks =>
      let r := applyWrites r.1 r.2.1 (tasks.map PregelTask.taskWrites) getNextVersion
        g.triggerToNodes
      match r.2.2 with
      | .error e => .error e
      | .ok _ => .ok r.2.1

def readChannel (channels : Dict String Channel) (chan : String) : Option Value :=
  (channels.get? chan).bind Channel.get

def readChannels (channels : Dict String Channel) : InputKeys → Value
  | .single chan => (readChannel channels chan).getD Value.none
  | .many select => .dict (Dict.ofList (select.filterMap (fun chan =>
      (readChannel channels chan).map (fun v => (chan, v))))).items

theorem channels_prepareStateSnapshot {g : Graph Channel} {applyPendingWrites : Bool}
    {saver : InMemorySaver Ver} {saved : CheckpointTuple Ver} {channels : Dict String Channel}
    (hc : channelsFromCheckpoint g.specs (some saver) saved.checkpoint = .ok channels) :
    (prepareStateSnapshot g applyPendingWrites saver saved).map StateSnapshot.channels =
      applyPending none g saved channels (finishedTasks g applyPendingWrites saved channels) := by
  have hnulls : applyNullRows g saved channels = applyNulls none g saved channels := rfl
  unfold prepareStateSnapshot applyPending
  simp only [hc, hnulls]
  cases hr : (applyNulls none g saved channels).2.2 with
  | error e => rfl
  | ok u =>
    simp only [finishedTasks]
    generalize (if applyPendingWrites then
      (stateTasks g saved channels).mapValues (snapshotWrites saved.pendingWrites)
      else stateTasks g saved channels) = nextTasks
    cases nextTasks.values.filter (fun t => t.writes ≠ []) with
    | nil => rfl
    | cons t ts =>
      simp only
      generalize applyWrites (applyNulls none g saved channels).1
        (applyNulls none g saved channels).2.1 ((t :: ts).map PregelTask.taskWrites) none
        g.triggerToNodes = r
      rcases r with ⟨_, _, e | u⟩ <;> rfl

-- The channels that the null writes leave.
def nulled (writes : List Write) (channels : Dict String Channel) : Dict String Channel :=
  channels.filterMap (fun chan c => some (c.written (batchOf channels [nullTask writes] chan)).1)

omit [OrderBot Ver] in
theorem channels_applyWrites {checkpoint : Checkpoint Ver} {channels : Dict String Channel}
    {tasks : List PregelTaskWrites} {getNextVersion : Option (GetNextVersion Ver)}
    {triggerToNodes : Dict String (List String)} :
    ∃ next : Option Ver, next.isSome = getNextVersion.isSome ∧
      (applyWrites checkpoint channels tasks getNextVersion triggerToNodes).2.1 =
        (applyChannels channels checkpoint.channelVersions next (sortTasks tasks)
          triggerToNodes).1.channels ∧
      ∀ e, (applyWrites checkpoint channels tasks getNextVersion triggerToNodes).2.2 = .error e ↔
        (applyChannels channels checkpoint.channelVersions next (sortTasks tasks)
          triggerToNodes).2 = some e := by
  refine ⟨getNextVersion.map (fun g => g (maxVersion checkpoint.channelVersions)), by simp, rfl,
    fun e => ?_⟩
  simp only [applyWrites]
  cases (applyChannels channels checkpoint.channelVersions
    (getNextVersion.map (fun g => g (maxVersion checkpoint.channelVersions))) (sortTasks tasks)
      triggerToNodes).2 <;> simp

omit [OrderBot Ver] in
theorem error_applyWrites (checkpoint : Checkpoint Ver) (channels : Dict String Channel)
    (tasks : List PregelTaskWrites) (getNextVersion : Option (GetNextVersion Ver))
    (triggerToNodes : Dict String (List String)) (e : UpdateError) :
    (applyWrites checkpoint channels tasks getNextVersion triggerToNodes).2.2 = .error e ↔
      (pendingWritesByChannel channels (sortTasks tasks)).keys.findSome?
        (errorOf channels (sortTasks tasks)) = some e := by
  obtain ⟨next, -, -, herror⟩ := @channels_applyWrites _ _ checkpoint channels tasks
    getNextVersion triggerToNodes
  rw [herror, applyChannels_snd]

theorem nulled_nil (channels : Dict String Channel) : nulled [] channels = channels := by
  refine Dict.ext_get? (Dict.keys_filterMap_some _ _) (fun chan => ?_)
  rw [nulled, Dict.get?_filterMap]
  cases channels.get? chan with
  | none => rfl
  | some c => rfl

def nullError (saved : CheckpointTuple Ver) (channels : Dict String Channel) :
    Option UpdateError :=
  (pendingWritesByChannel channels
    [nullTask (taskWritesOf nullTaskId saved.pendingWrites)]).keys.findSome?
      (errorOf channels [nullTask (taskWritesOf nullTaskId saved.pendingWrites)])

omit [OrderBot Ver] in
theorem applyNulls_spec (getNextVersion : Option (GetNextVersion Ver)) (g : Graph Channel)
    (saved : CheckpointTuple Ver) (channels : Dict String Channel) :
    (∀ e, (applyNulls getNextVersion g saved channels).2.2 = .error e ↔
        nullError saved channels = some e) ∧
      (nullError saved channels = none → (applyNulls getNextVersion g saved channels).2.1 =
        nulled (taskWritesOf nullTaskId saved.pendingWrites) channels) := by
  unfold applyNulls nullError
  generalize taskWritesOf nullTaskId saved.pendingWrites = writes
  cases writes with
  | nil =>
    refine ⟨fun e => ?_, fun _ => (nulled_nil channels).symm⟩
    have hnone : (pendingWritesByChannel channels [nullTask []]).keys = [] := rfl
    simp [hnone]
  | cons w ws =>
    have hsort : sortTasks [nullTask (w :: ws)] = [nullTask (w :: ws)] := rfl
    have hkeys := keys_applyWrites saved.checkpoint channels [nullTask (w :: ws)] getNextVersion
      g.triggerToNodes
    obtain ⟨next, -, hchannels, herror⟩ := @channels_applyWrites _ _ saved.checkpoint channels
      [nullTask (w :: ws)] getNextVersion g.triggerToNodes
    rw [hsort] at hchannels herror
    simp only [applyChannels_snd] at herror
    refine ⟨herror, fun hnone => ?_⟩
    rw [hchannels] at hkeys ⊢
    have hok : (applyChannels channels saved.checkpoint.channelVersions next
        [nullTask (w :: ws)] g.triggerToNodes).2 = none := by
      rw [applyChannels_snd]
      exact hnone
    refine Dict.ext_get? (hkeys.trans (Dict.keys_filterMap_some _ _).symm) (fun chan => ?_)
    rw [channel_applyChannels_still hok rfl, nulled, Dict.get?_filterMap]
    cases channels.get? chan with
    | none => rfl
    | some c =>
      simp only [Option.map_some, Option.bind_some, writtenChannel_eq]
      rfl

-- What is read of a channel after the tasks' writes.
def readAfter (versioned : Bool) (triggerToNodes : Dict String (List String))
    (channels : Dict String Channel) (tasks : List PregelTaskWrites) (chan : String)
    (c : Channel) : Option Value :=
  if bumpStep tasks then
    (consumedChannel channels tasks chan c).shown (batchOf channels tasks chan)
      (versioned && freshens channels tasks chan)
      (finishes versioned channels tasks triggerToNodes)
  else ((consumedChannel channels tasks chan c).written (batchOf channels tasks chan)).1.get

omit [OrderBot Ver] in
theorem readChannel_applyWrites {checkpoint : Checkpoint Ver} {channels : Dict String Channel}
    {tasks : List PregelTaskWrites} {getNextVersion : Option (GetNextVersion Ver)}
    {triggerToNodes : Dict String (List String)}
    (hok : ∀ e, (applyWrites checkpoint channels tasks getNextVersion triggerToNodes).2.2 ≠
      .error e) (chan : String) :
    (∀ c, channels.get? chan = some c → ∃ b, ((consumedChannel channels (sortTasks tasks) chan
      c).written (batchOf channels (sortTasks tasks) chan)).2 = .ok b) ∧
      readChannel (applyWrites checkpoint channels tasks getNextVersion triggerToNodes).2.1 chan =
        (channels.get? chan).bind
          (readAfter getNextVersion.isSome triggerToNodes channels (sortTasks tasks) chan) := by
  have hkeys := keys_applyWrites checkpoint channels tasks getNextVersion triggerToNodes
  obtain ⟨next, hnext, hchannels, herror⟩ := @channels_applyWrites _ _ checkpoint channels tasks
    getNextVersion triggerToNodes
  rw [hchannels] at hkeys ⊢
  have hnone : (applyChannels channels checkpoint.channelVersions next (sortTasks tasks)
      triggerToNodes).2 = none := by
    cases h : (applyChannels channels checkpoint.channelVersions next (sortTasks tasks)
      triggerToNodes).2 with
    | none => rfl
    | some e => exact absurd ((herror e).mpr h) (hok e)
  cases hc : channels.get? chan with
  | none =>
    refine ⟨fun c hc => (by cases hc), ?_⟩
    have hmissing := Dict.get?_eq_none.mpr (hkeys ▸ Dict.get?_eq_none.mp hc)
    rw [readChannel, hmissing]
    rfl
  | some c =>
    obtain ⟨hwritten, hget⟩ := get_applyChannels hnone hc
    refine ⟨fun d hd => (Option.some.inj hd) ▸ hwritten, ?_⟩
    rw [readChannel, hget, hnext]
    rfl

def pendingTasks (tasks : List PregelTask) : List PregelTaskWrites :=
  sortTasks (tasks.map PregelTask.taskWrites)

structure Applied (versioned : Bool) (triggerToNodes : Dict String (List String))
    (channels : Dict String Channel) (tasks : List PregelTaskWrites)
    (applied : Dict String Channel) : Prop where
  written : ∀ chan c, channels.get? chan = some c → ∃ b,
    ((consumedChannel channels tasks chan c).written (batchOf channels tasks chan)).2 = .ok b
  read : ∀ chan, readChannel applied chan =
    (channels.get? chan).bind (readAfter versioned triggerToNodes channels tasks chan)

theorem Applied.nil (versioned : Bool) (triggerToNodes : Dict String (List String))
    (channels : Dict String Channel) : Applied versioned triggerToNodes channels [] channels where
  written _ _ _ := ⟨false, rfl⟩
  read chan := by
    rw [readChannel]
    cases channels.get? chan with
    | none => rfl
    | some c => rfl

omit [OrderBot Ver] in
theorem applyPending_spec (g : Graph Channel) (saved : CheckpointTuple Ver)
    (channels : Dict String Channel) (tasks : List PregelTask) :
    (∃ e, ∀ getNextVersion, applyPending getNextVersion g saved channels tasks = .error e) ∨
      ∀ getNextVersion, ∃ applied,
        applyPending getNextVersion g saved channels tasks = .ok applied ∧
        Applied getNextVersion.isSome g.triggerToNodes
          (nulled (taskWritesOf nullTaskId saved.pendingWrites) channels) (pendingTasks tasks)
          applied := by
  have hnulls := fun getNextVersion => applyNulls_spec getNextVersion g saved channels
  cases hn : nullError saved channels with
  | some e =>
    refine Or.inl ⟨e, fun getNextVersion => ?_⟩
    unfold applyPending
    simp only [((hnulls getNextVersion).1 e).mpr hn]
  | none =>
    have hchannels := fun getNextVersion => (hnulls getNextVersion).2 hn
    have hok (getNextVersion : Option (GetNextVersion Ver)) :
        ∃ u, (applyNulls getNextVersion g saved channels).2.2 = .ok u := by
      cases hr : (applyNulls getNextVersion g saved channels).2.2 with
      | ok u => exact ⟨u, rfl⟩
      | error e =>
        have hsome := ((hnulls getNextVersion).1 e).mp hr
        rw [hn] at hsome
        cases hsome
    cases tasks with
    | nil =>
      refine Or.inr (fun getNextVersion => ⟨_, ?_, Applied.nil _ _ _⟩)
      obtain ⟨u, hu⟩ := hok getNextVersion
      unfold applyPending
      simp only [hu, hchannels]
    | cons t ts =>
      generalize nulled (taskWritesOf nullTaskId saved.pendingWrites) channels = entered
        at hchannels ⊢
      have herror := fun getNextVersion => error_applyWrites
        (applyNulls getNextVersion g saved channels).1 entered
        ((t :: ts).map PregelTask.taskWrites) getNextVersion g.triggerToNodes
      cases hfirst : (pendingWritesByChannel entered
        (sortTasks ((t :: ts).map PregelTask.taskWrites))).keys.findSome?
          (errorOf entered (sortTasks ((t :: ts).map PregelTask.taskWrites))) with
      | some e =>
        refine Or.inl ⟨e, fun getNextVersion => ?_⟩
        obtain ⟨u, hu⟩ := hok getNextVersion
        unfold applyPending
        simp only [hu, hchannels, (herror getNextVersion e).mpr hfirst]
      | none =>
        refine Or.inr (fun getNextVersion => ?_)
        obtain ⟨u, hu⟩ := hok getNextVersion
        have hne (e : UpdateError) : (applyWrites (applyNulls getNextVersion g saved channels).1
            entered ((t :: ts).map PregelTask.taskWrites) getNextVersion
              g.triggerToNodes).2.2 ≠ .error e := by
          rw [ne_eq, herror, hfirst]
          simp
        refine ⟨(applyWrites (applyNulls getNextVersion g saved channels).1 entered
          ((t :: ts).map PregelTask.taskWrites) getNextVersion g.triggerToNodes).2.1, ?_,
          fun chan => (readChannel_applyWrites hne chan).1,
          fun chan => (readChannel_applyWrites hne chan).2⟩
        unfold applyPending
        simp only [hu, hchannels]
        split
        · rename_i e he
          exact absurd he (hne e)
        · rfl

end Snapshot

namespace InputKeys

def selected : InputKeys → List String
  | single chan => [chan]
  | many chans => chans

-- A single channel that is empty is read as `None`.
def alike : InputKeys → Option Value → Option Value → Prop
  | single _, r, s => r.getD Value.none = s.getD Value.none
  | many _, r, s => r = s

theorem alike_refl (select : InputKeys) (r : Option Value) : select.alike r r := by
  cases select <;> rfl

theorem alike_symm {select : InputKeys} {r s : Option Value} (h : select.alike r s) :
    select.alike s r := by
  cases select <;> exact Eq.symm h

end InputKeys

theorem get?_readMany (channels : Dict String Channel) (select : List String) (chan : String) :
    (Dict.ofList (select.filterMap (fun chan =>
      (readChannel channels chan).map (fun v => (chan, v))))).get? chan =
        if chan ∈ select then readChannel channels chan else none := by
  have hread (chan : String) :
      (channels.filterMap (fun _ c => Channel.get c)).get? chan = readChannel channels chan :=
    Dict.get?_filterMap _ channels chan
  have h := Dict.get?_update_filterMap Dict.empty (channels.filterMap (fun _ c => Channel.get c))
    select chan
  simp only [hread] at h
  rw [Dict.ofList, h]
  simp

theorem readChannels_eq_iff {a b : Dict String Channel} {select : InputKeys} :
    readChannels a select = readChannels b select ↔
      ∀ chan ∈ select.selected, select.alike (readChannel a chan) (readChannel b chan) := by
  cases select with
  | single chan => simp [readChannels, InputKeys.selected, InputKeys.alike]
  | many chans =>
    simp only [readChannels, InputKeys.selected, InputKeys.alike, Value.dict.injEq]
    constructor
    · intro h chan hmem
      have hget := congrArg (fun d => Dict.get? d chan) (Dict.ext_items h)
      simpa only [get?_readMany, if_pos hmem] using hget
    · intro h
      have hsame : chans.filterMap (fun chan =>
          (readChannel a chan).map (fun v => (chan, v))) =
            chans.filterMap (fun chan => (readChannel b chan).map (fun v => (chan, v))) :=
        List.filterMap_congr (fun chan hmem => by rw [h chan hmem])
      rw [hsame]

-- What `get_state` shows of a channel is what the loop would show.
structure Faithful (select : InputKeys) (triggerToNodes : Dict String (List String))
    (channels : Dict String Channel) (tasks : List PregelTaskWrites) (chan : String)
    (c : Channel) : Prop where
  kept : select.alike none
    ((consumedChannel channels tasks chan c).forgotten (batchOf channels tasks chan))
  settled : (∀ k ∈ triggerToNodes.keys, freshens channels tasks k = false) ∨ select.alike none
    ((consumedChannel channels tasks chan c).heldBack (batchOf channels tasks chan))

theorem alike_readAfter_iff {select : InputKeys} {triggerToNodes : Dict String (List String)}
    {channels : Dict String Channel} {tasks : List PregelTaskWrites} {chan : String}
    {c : Channel} {b : Bool} (hc : channels.get? chan = some c)
    (hok : ((consumedChannel channels tasks chan c).written (batchOf channels tasks chan)).2 =
      .ok b) (hbump : bumpStep tasks = true) :
    select.alike (readAfter false triggerToNodes channels tasks chan c)
        (readAfter true triggerToNodes channels tasks chan c) ↔
      Faithful select triggerToNodes channels tasks chan c := by
  have hfresh : freshens channels tasks chan =
      (consumedChannel channels tasks chan c).freshened (batchOf channels tasks chan) := by
    rw [freshens, hc]
    rfl
  have hfinish : finishes true channels tasks triggerToNodes = true ↔
      ∀ k ∈ triggerToNodes.keys, freshens channels tasks k = false := by
    simp [finishes]
  have hread (versioned : Bool) : readAfter versioned triggerToNodes channels tasks chan c =
      (consumedChannel channels tasks chan c).shown (batchOf channels tasks chan)
        (versioned && freshens channels tasks chan)
        (finishes versioned channels tasks triggerToNodes) := by
    rw [readAfter, if_pos hbump]
  have hfalse : finishes false channels tasks triggerToNodes = true := rfl
  rw [hread, hread, Bool.false_and, Bool.true_and, hfresh, hfalse]
  cases Channel.shown_cases hok (finishes true channels tasks triggerToNodes) with
  | forgotten v hf hh hsnapshot hloop =>
    rw [hsnapshot, hloop]
    constructor
    · intro h
      refine ⟨?_, Or.inr ?_⟩
      · rwa [hf]
      · rw [hh]
        exact select.alike_refl none
    · intro h
      have hkept := h.kept
      rwa [hf] at hkept
  | heldBack v hf hh hsnapshot hloop =>
    rw [hsnapshot, hloop]
    constructor
    · intro h
      refine ⟨?_, ?_⟩
      · rw [hf]
        exact select.alike_refl none
      · rw [← hfinish, hh]
        split at h
        · rename_i hfin
          exact Or.inl hfin
        · exact Or.inr (InputKeys.alike_symm h)
    · intro h
      have hsettled := h.settled
      rw [← hfinish, hh] at hsettled
      split
      · exact select.alike_refl _
      · rename_i hno
        rcases hsettled with hfin | hheld
        · exact absurd hfin hno
        · exact InputKeys.alike_symm hheld
  | same hf hh hshown =>
    rw [hshown]
    refine iff_of_true (select.alike_refl _) ⟨?_, Or.inr ?_⟩
    · rw [hf]
      exact select.alike_refl none
    · rw [hh]
      exact select.alike_refl none

section SnapshotValues

variable [LinearOrder Ver] [OrderBot Ver]

theorem snapshot_values_iff {g : Graph Channel} {applyPendingWrites : Bool}
    {saver : InMemorySaver Ver} {saved : CheckpointTuple Ver} {channels entered : Dict String Channel}
    {tasks : List PregelTask} (select : InputKeys) (getNextVersion : GetNextVersion Ver)
    (hc : channelsFromCheckpoint g.specs (some saver) saved.checkpoint = .ok channels)
    (ht : tasks = finishedTasks g applyPendingWrites saved channels)
    (he : entered = nulled (taskWritesOf nullTaskId saved.pendingWrites) channels) :
    (∃ e, prepareStateSnapshot g applyPendingWrites saver saved = .error e ∧
        applyPending (some getNextVersion) g saved channels tasks = .error e) ∨
      ∃ snapshot applied, prepareStateSnapshot g applyPendingWrites saver saved = .ok snapshot ∧
        applyPending (some getNextVersion) g saved channels tasks = .ok applied ∧
        (readChannels snapshot.channels select = readChannels applied select ↔
          bumpStep (pendingTasks tasks) = false ∨
            ∀ chan ∈ select.selected, ∀ c, entered.get? chan = some c →
              Faithful select g.triggerToNodes entered (pendingTasks tasks) chan c) := by
  have hsnapshot := @channels_prepareStateSnapshot _ _ _ g applyPendingWrites saver _ _ hc
  rw [← ht] at hsnapshot
  rcases applyPending_spec g saved channels tasks with ⟨e, herror⟩ | happlied
  · refine Or.inl ⟨e, ?_, herror _⟩
    rw [herror] at hsnapshot
    cases hp : prepareStateSnapshot g applyPendingWrites saver saved with
    | error e' =>
      rw [hp] at hsnapshot
      exact congrArg Except.error (Except.error.inj hsnapshot)
    | ok snapshot =>
      rw [hp] at hsnapshot
      cases hsnapshot
  · obtain ⟨shown, hshown, hnone⟩ := happlied none
    obtain ⟨applied, hloop, hsome⟩ := happlied (some getNextVersion)
    rw [hshown] at hsnapshot
    rw [← he] at hnone hsome
    cases hp : prepareStateSnapshot g applyPendingWrites saver saved with
    | error e =>
      rw [hp] at hsnapshot
      cases hsnapshot
    | ok snapshot =>
      rw [hp] at hsnapshot
      obtain rfl : snapshot.channels = shown := Except.ok.inj hsnapshot
      refine Or.inr ⟨snapshot, applied, rfl, hloop, ?_⟩
      rw [readChannels_eq_iff]
      simp only [hnone.read, hsome.read]
      cases hbump : bumpStep (pendingTasks tasks) with
      | false =>
        refine iff_of_true (fun chan _ => ?_) (Or.inl rfl)
        have hsame : readAfter false g.triggerToNodes entered (pendingTasks tasks) chan =
            readAfter true g.triggerToNodes entered (pendingTasks tasks) chan := by
          funext c
          simp [readAfter, hbump]
        simp only [Option.isSome_none, Option.isSome_some, hsame]
        exact select.alike_refl _
      | true =>
        have hchan (chan : String) : select.alike
            ((entered.get? chan).bind
              (readAfter false g.triggerToNodes entered (pendingTasks tasks) chan))
            ((entered.get? chan).bind
              (readAfter true g.triggerToNodes entered (pendingTasks tasks) chan)) ↔
            ∀ c, entered.get? chan = some c →
              Faithful select g.triggerToNodes entered (pendingTasks tasks) chan c := by
          cases hget : entered.get? chan with
          | none => exact iff_of_true (select.alike_refl none) (fun c h => by cases h)
          | some c =>
            obtain ⟨b, hb⟩ := hsome.written chan c hget
            simp only [Option.bind_some, Option.some.injEq, forall_eq']
            exact alike_readAfter_iff hget hb hbump
        simp only [Option.isSome_none, Option.isSome_some, hchan]
        simp

def pairGraph : Graph Channel :=
  { Graph.ofSpecs (Dict.ofList [("a", Channel.lastValue ⟨"a", none⟩),
      ("b", Channel.ephemeralValue ⟨"b", true, none⟩), ("c", Channel.lastValue ⟨"c", none⟩)]) with
    nodes := Dict.ofList [("m", ⟨.single "a", ["a"], none, none, none, none, true⟩),
      ("n", ⟨.single "a", ["a"], none, none, none, none, true⟩)]
    triggerToNodes := Dict.ofList [("a", ["m", "n"])] }

-- Node `n` has finished beside `m`, which has not.
def pairSaver (rows : List Write) : InMemorySaver Nat :=
  ((InMemorySaver.empty).put none
    ⟨"1", Dict.ofList [("a", .value (.int 7))], Dict.ofList [("a", 1)], ∅, none⟩ ⟨"loop", 0, ∅⟩
    (Dict.ofList [("a", 1)])).putWrites "1" rows "1n1n__pregel_pulla" ""

def pairSaved (rows : List Write) : CheckpointTuple Nat :=
  ((pairSaver rows).getTuple none).getD
    ⟨⟨"", ∅, ∅, ∅, none⟩, ⟨"", 0, ∅⟩, none, []⟩

def pairChannels (rows : List Write) : Dict String Channel :=
  (channelsFromCheckpoint pairGraph.specs (some (pairSaver rows))
    (pairSaved rows).checkpoint).toOption.getD ∅

def pairTasks (rows : List Write) : List PregelTask :=
  finishedTasks pairGraph true (pairSaved rows) (pairChannels rows)

theorem finished_write_shown :
    ∃ snapshot applied, prepareStateSnapshot pairGraph true (pairSaver [("c", .int 5)])
        (pairSaved [("c", .int 5)]) = .ok snapshot ∧
      applyPending (some successor) pairGraph (pairSaved [("c", .int 5)])
        (pairChannels [("c", .int 5)]) (pairTasks [("c", .int 5)]) = .ok applied ∧
      readChannels snapshot.channels (.many ["a", "b", "c"]) =
        readChannels applied (.many ["a", "b", "c"]) := by
  have hc : channelsFromCheckpoint pairGraph.specs (some (pairSaver [("c", .int 5)]))
      (pairSaved [("c", .int 5)]).checkpoint = .ok (pairChannels [("c", .int 5)]) := rfl
  have hsettled : ∀ k ∈ pairGraph.triggerToNodes.keys, freshens (nulled (taskWritesOf nullTaskId
      (pairSaved [("c", .int 5)]).pendingWrites) (pairChannels [("c", .int 5)]))
      (pendingTasks (pairTasks [("c", .int 5)])) k = false := by
    decide
  rcases @snapshot_values_iff _ _ _ pairGraph true _ _ _ _ _ (.many ["a", "b", "c"]) successor hc
    rfl rfl with ⟨e, he, -⟩ | ⟨snapshot, applied, hs, ha, hiff⟩
  · cases he
  · refine ⟨snapshot, applied, hs, ha, hiff.mpr (Or.inr (fun chan hmem c hchan => ?_))⟩
    refine ⟨?_, Or.inl hsettled⟩
    simp only [InputKeys.selected, List.mem_cons, List.not_mem_nil, or_false] at hmem
    rcases hmem with rfl | rfl | rfl
    · cases Option.some.inj hchan
      rfl
    · cases Option.some.inj hchan
      rfl
    · cases Option.some.inj hchan
      rfl

theorem finished_write_not_shown :
    (getState pairGraph none (pairSaver [("b", .int 5)])).toOption.map
        (fun s => readChannels s.channels (.many ["a", "b", "c"])) =
      some (.dict [("a", .int 7)]) ∧
    (applyPending (some successor) pairGraph (pairSaved [("b", .int 5)])
        (pairChannels [("b", .int 5)]) (pairTasks [("b", .int 5)])).toOption.map
        (fun channels => readChannels channels (.many ["a", "b", "c"])) =
      some (.dict [("a", .int 7), ("b", .int 5)]) := by
  decide

end SnapshotValues

end LangGraph

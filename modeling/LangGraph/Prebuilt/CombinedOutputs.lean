import LangGraph.Graph.CommandLists
import LangGraph.Prebuilt.Tools

namespace LangGraph

open Collections

namespace Returning

section Data

variable (A M : Type)

inductive ToolOutput where
  | message (m : M)
  | command (c : Command A)

inductive Output where
  | one (o : ToolOutput A M)
  | list (os : List (ToolOutput A M))

end Data

variable {A M : Type}

def Target.isSend : Target A → Bool
  | .node _ => false
  | .send _ _ => true

-- The commands for PARENT that go to a list of sends; a single send is not in a list.
def Command.joins (c : Command A) : Bool :=
  match c.graph, c.goto with
  | .parent true, .list ts => ts.all Target.isSend
  | _, _ => false

def ToolOutput.message? : ToolOutput A M → Option M
  | .message m => some m
  | .command _ => none

def ToolOutput.isCommand : ToolOutput A M → Bool
  | .message _ => false
  | .command _ => true

def Output.items : Output A M → List (ToolOutput A M)
  | .one o => [o]
  | .list os => os

def flatOutputs (outputs : List (Output A M)) : List (ToolOutput A M) :=
  outputs.flatMap Output.items

section Combine

variable (inputType : Prebuilt.InputType) (messagesKey : String)

def messagesElement (ms : List M) : Element A M :=
  if inputType = .list then .messages ms else .state messagesKey ms

def joined (parentCommand : Option (Command A)) (c : Command A) : Command A :=
  match parentCommand with
  | some p => { p with goto := .list (p.goto.targets ++ c.goto.targets) }
  | none => { graph := .parent true, update := .none, goto := c.goto }

def combineStep (s : List (Element A M) × Option (Command A)) :
    ToolOutput A M → List (Element A M) × Option (Command A)
  | .message m => (s.1 ++ [messagesElement inputType messagesKey [m]], s.2)
  | .command c =>
      if c.joins then (s.1, some (joined s.2 c)) else (s.1 ++ [.command c], s.2)

def combineToolOutputs (outputs : List (Output A M)) : Returned A M :=
  let flat := flatOutputs outputs
  if flat.any ToolOutput.isCommand then
    let s := flat.foldl (combineStep inputType messagesKey) ([], none)
    .list (s.1 ++ s.2.toList.map .command)
  else .one (messagesElement inputType messagesKey (flat.filterMap ToolOutput.message?))

-- Each output as the element it would be in a list of its own.
def ToolOutput.element : ToolOutput A M → Element A M
  | .message m => messagesElement inputType messagesKey [m]
  | .command c => .command c

def toolElements (outputs : List (Output A M)) : List (Element A M) :=
  (flatOutputs outputs).map (ToolOutput.element inputType messagesKey)

end Combine

def Element.stays : Element A M → Bool
  | .command c => !c.joins
  | _ => true

def combined (es : List (Element A M)) (ds : List (Command A)) : List (Element A M) :=
  es.filter Element.stays ++ ds.map .command

section Joined

variable {inputType : Prebuilt.InputType} {messagesKey : String} {root : Bool}
  {es : List (Element A M)} {c d : Command A} {cs : List (Command A)}

theorem isParent_of_joins (h : c.joins = true) : c.graph.isParent = true := by
  unfold Command.joins at h
  split at h
  · rename_i hgraph hgoto
    rw [hgraph]
    rfl
  · cases h

structure Joined (cs : List (Command A)) (d : Command A) : Prop where
  parent : d.graph.isParent = true
  update : d.update = .none
  targets : d.goto.targets = cs.flatMap (fun c => c.goto.targets)

theorem Joined.concat (h : Joined cs d) (c : Command A) :
    Joined (cs ++ [c]) (joined (some d) c) where
  parent := h.parent
  update := h.update
  targets := by
    rw [List.flatMap_append, List.flatMap_singleton, ← h.targets]
    rfl

theorem joined_none (c : Command A) : Joined [c] (joined none c) where
  parent := rfl
  update := rfl
  targets := (List.flatMap_singleton _ _).symm

theorem foldl_joined_some (h : Joined cs d) (ds : List (Command A)) :
    ∃ d', ds.foldl (fun p c => some (joined p c)) (some d) = some d' ∧ Joined (cs ++ ds) d' := by
  induction ds generalizing cs d with
  | nil => exact ⟨d, rfl, by rwa [List.append_nil]⟩
  | cons c ds ih =>
    obtain ⟨d', hfold, hjoined⟩ := ih (h.concat c)
    rw [List.append_assoc] at hjoined
    exact ⟨d', hfold, hjoined⟩

theorem foldl_joined (hne : cs ≠ []) :
    ∃ d, cs.foldl (fun p c => some (joined p c)) none = some d ∧ Joined cs d := by
  cases cs with
  | nil => exact absurd rfl hne
  | cons c cs => exact foldl_joined_some (joined_none c) cs

theorem Joined.requests (h : Joined cs d) :
    (d.requests : List (Request A M)) = cs.flatMap Command.gotoRequests := by
  have hupdates : (d.updateRequests : List (Request A M)) = [] := by
    rw [Command.updateRequests, Command.updates, h.update]
    rfl
  rw [Command.requests, hupdates, List.nil_append, Command.gotoRequests, Command.branches,
    h.targets, List.filter_flatMap, List.map_flatMap]
  rfl

theorem stays_messagesElement (ms : List M) :
    (messagesElement inputType messagesKey ms : Element A M).stays = true := by
  unfold messagesElement
  split
  · rfl
  · rfl

theorem command?_messagesElement (ms : List M) :
    (messagesElement inputType messagesKey ms : Element A M).command? = none := by
  unfold messagesElement
  split
  · rfl
  · rfl

theorem foldl_combineStep (flat : List (ToolOutput A M)) (xs : List (Element A M))
    (p : Option (Command A)) :
    flat.foldl (combineStep inputType messagesKey) (xs, p) =
      (xs ++ (flat.map (ToolOutput.element inputType messagesKey)).filter Element.stays,
        ((commandsIn (flat.map (ToolOutput.element inputType messagesKey))).filter
          Command.joins).foldl (fun p c => some (joined p c)) p) := by
  induction flat generalizing xs p with
  | nil => simp [commandsIn]
  | cons o flat ih =>
    rw [List.foldl_cons, List.map_cons]
    cases o with
    | message m =>
      rw [combineStep, ih, ToolOutput.element, commandsIn, commandsIn,
        List.filter_cons_of_pos (stays_messagesElement _),
        List.filterMap_cons_none (command?_messagesElement _), List.append_assoc]
      rfl
    | command c =>
      have hcommand : (ToolOutput.element inputType messagesKey
          (.command c : ToolOutput A M)).command? = some c := rfl
      rw [combineStep, commandsIn, List.filterMap_cons_some hcommand]
      cases hc : c.joins with
      | true =>
        have hkept : ¬ (ToolOutput.element inputType messagesKey (.command c) :
            Element A M).stays = true := by
          simp [ToolOutput.element, Element.stays, hc]
        rw [if_pos rfl, ih, List.filter_cons_of_neg hkept, List.filter_cons_of_pos hc]
        rfl
      | false =>
        have hkept : (ToolOutput.element inputType messagesKey (.command c) :
            Element A M).stays = true := by
          simp [ToolOutput.element, Element.stays, hc]
        rw [if_neg Bool.false_ne_true, ih, List.filter_cons_of_pos hkept,
          List.filter_cons_of_neg (Bool.eq_false_iff.mp hc), List.append_assoc]
        rfl

theorem commandsIn_append (xs ys : List (Element A M)) :
    commandsIn (xs ++ ys) = commandsIn xs ++ commandsIn ys := List.filterMap_append

theorem commandsIn_commands (cs : List (Command A)) :
    commandsIn (cs.map (.command : Command A → Element A M)) = cs := by
  rw [commandsIn, List.filterMap_map]
  exact List.filterMap_some

theorem commandsIn_filter (es : List (Element A M)) :
    commandsIn (es.filter Element.stays) = (commandsIn es).filter (fun c => !c.joins) := by
  rw [commandsIn, commandsIn, List.filterMap_filter, List.filter_filterMap]
  refine congrArg (fun f => es.filterMap f) (funext fun e => ?_)
  cases e with
  | command c => cases hc : c.joins <;> simp [Element.stays, Element.command?, hc, Option.filter]
  | dict items => rfl
  | messages ms => rfl
  | state key ms => rfl

theorem currentIn_stays (es : List (Element A M)) :
    currentIn (es.filter Element.stays) = currentIn es := by
  rw [currentIn, currentIn, commandsIn_filter, List.filter_filter]
  refine List.filter_congr (fun c _ => ?_)
  cases hc : c.joins with
  | true => rw [isParent_of_joins hc]; rfl
  | false => rw [Bool.not_false, Bool.and_true]

theorem parentsIn_stays (es : List (Element A M)) :
    parentsIn (es.filter Element.stays) = (parentsIn es).filter (fun c => !c.joins) := by
  rw [parentsIn, parentsIn, commandsIn_filter, List.filter_filter, List.filter_filter]
  exact List.filter_congr (fun c _ => Bool.and_comm _ _)

theorem updateRequests_stays (es : List (Element A M)) :
    (es.filter Element.stays).flatMap (Element.updateRequests root) =
      es.flatMap (Element.updateRequests root) := by
  induction es with
  | nil => rfl
  | cons e es ih =>
    cases hstays : e.stays with
    | true => rw [List.filter_cons_of_pos hstays, List.flatMap_cons, List.flatMap_cons, ih]
    | false =>
      have hnone : e.updateRequests root = [] := by
        cases e with
        | command c =>
          have hjoins : c.joins = true := by simpa [Element.stays] using hstays
          rw [Element.updateRequests, if_pos (isParent_of_joins hjoins)]
        | dict items => cases hstays
        | messages ms => cases hstays
        | state key ms => cases hstays
      rw [List.filter_cons_of_neg (Bool.eq_false_iff.mp hstays), ih, List.flatMap_cons, hnone,
        List.nil_append]

inductive Tail (cs : List (Command A)) : List (Command A) → Prop where
  | none (h : cs = []) : Tail cs []
  | one {d : Command A} (hne : cs ≠ []) (h : Joined cs d) : Tail cs [d]

theorem Tail.parent {ds : List (Command A)} (h : Tail cs ds) :
    ∀ d ∈ ds, d.graph.isParent = true := by
  cases h with
  | none _ => exact fun d hd => absurd hd List.not_mem_nil
  | one _ hd => exact List.forall_mem_singleton.mpr hd.parent

theorem exists_tail (cs : List (Command A)) :
    Tail cs (cs.foldl (fun p c => some (joined p c)) none).toList := by
  cases cs with
  | nil => exact .none rfl
  | cons c cs =>
    obtain ⟨d, hfold, hd⟩ := foldl_joined (List.cons_ne_nil c cs)
    rw [hfold]
    exact .one (List.cons_ne_nil c cs) hd

variable {outputs : List (Output A M)}

theorem any_isCommand (inputType : Prebuilt.InputType) (messagesKey : String)
    (flat : List (ToolOutput A M)) :
    flat.any ToolOutput.isCommand =
      !(commandsIn (flat.map (ToolOutput.element inputType messagesKey))).isEmpty := by
  induction flat with
  | nil => rfl
  | cons o flat ih =>
    rw [List.any_cons, List.map_cons, commandsIn]
    cases o with
    | message m =>
      rw [ToolOutput.element, List.filterMap_cons_none (command?_messagesElement _), ih]
      rfl
    | command c => rfl

theorem combine_commands
    (h : (commandsIn (toolElements inputType messagesKey outputs)).isEmpty = false) :
    ∃ ds,
      Tail ((commandsIn (toolElements inputType messagesKey outputs)).filter Command.joins) ds ∧
      combineToolOutputs inputType messagesKey outputs =
        .list (combined (toolElements inputType messagesKey outputs) ds) := by
  refine ⟨_, exists_tail _, ?_⟩
  have hany : (flatOutputs outputs).any ToolOutput.isCommand = true := by
    rw [any_isCommand inputType messagesKey]
    simpa [toolElements] using h
  rw [combineToolOutputs]
  simp only [hany, if_true, foldl_combineStep, List.nil_append]
  rfl

theorem combine_messages
    (h : (commandsIn (toolElements inputType messagesKey outputs)).isEmpty = true) :
    ∃ ms : List M, toolElements inputType messagesKey outputs =
        ms.map (fun m => messagesElement inputType messagesKey [m]) ∧
      combineToolOutputs inputType messagesKey outputs =
        .one (messagesElement inputType messagesKey ms) := by
  have hany : (flatOutputs outputs).any ToolOutput.isCommand = false := by
    rw [any_isCommand inputType messagesKey]
    simpa [toolElements] using h
  refine ⟨(flatOutputs outputs).filterMap ToolOutput.message?, ?_, ?_⟩
  · rw [toolElements]
    generalize flatOutputs outputs = flat at hany
    induction flat with
    | nil => rfl
    | cons o flat ih =>
      rw [List.any_cons, Bool.or_eq_false_iff] at hany
      cases o with
      | message m => exact congrArg (List.cons _) (ih hany.2)
      | command c => cases hany.1
  · rw [combineToolOutputs]
    simp only [hany, Bool.false_eq_true, if_false]

end Joined

section Combined

variable {g : StateGraph} {above : Option StateGraph} {inputType : Prebuilt.InputType}
  {messagesKey : String} {es : List (Element A M)} {ds : List (Command A)}

def ToolsRefused (g : StateGraph) (inputType : Prebuilt.InputType) (es : List (Element A M)) :
    Prop :=
  isRoot g = false ∧ inputType = .list ∧
    ((commandsIn es).isEmpty = true ∨ ∃ e ∈ es, e.isMessages = true)

def ToolsFail (g : StateGraph) (above : Option StateGraph) (inputType : Prebuilt.InputType)
    (es : List (Element A M)) : Prop :=
  ToolsRefused g inputType es ∨ (parentsIn es ≠ [] ∧ above = none)

-- The outputs applied whole: no command for the parent graph; or one alone asks for anything and
-- goes first; or all of them are joined, and none of these has an update.
def ToolsWhole (g : StateGraph) (above : Option StateGraph) (es : List (Element A M)) : Prop :=
  (parentsIn es = [] ∧ Kept g (asked (isRoot g) es)) ∨
    (∃ pre c post, parentsIn es = pre ++ c :: post ∧ (∀ d ∈ pre, d.joins = true) ∧
      c.joins = false ∧ Idle (asked (isRoot g) es) ∧
        Idle ((pre ++ post).flatMap Command.requests : List (Request A M)) ∧
          ∀ p ∈ above, Kept p (c.requests : List (Request A M))) ∨
    (parentsIn es ≠ [] ∧ (∀ c ∈ parentsIn es, c.joins = true) ∧ Idle (asked (isRoot g) es) ∧
      Idle ((parentsIn es).flatMap Command.updateRequests : List (Request A M)) ∧
        ∀ p ∈ above, Kept p ((parentsIn es).flatMap Command.gotoRequests : List (Request A M)))

theorem parentsIn_combined (h : ∀ d ∈ ds, d.graph.isParent = true) :
    parentsIn (combined es ds) =
      (parentsIn es).filter (fun c => !c.joins) ++ ds := by
  rw [← parentsIn_stays, parentsIn, combined, commandsIn_append, commandsIn_commands,
    List.filter_append, List.filter_eq_self.mpr h]
  rfl

theorem currentIn_combined (h : ∀ d ∈ ds, d.graph.isParent = true) :
    currentIn (combined es ds) = currentIn es := by
  have hnone : ds.filter (fun c => !c.graph.isParent) = [] :=
    List.filter_eq_nil_iff.mpr (fun d hd => by simp [h d hd])
  rw [← currentIn_stays es, currentIn, combined, commandsIn_append, commandsIn_commands,
    List.filter_append, hnone, List.append_nil]
  rfl

theorem updateRequests_combined (root : Bool) (h : ∀ d ∈ ds, d.graph.isParent = true) :
    (combined es ds).flatMap (Element.updateRequests root) =
      es.flatMap (Element.updateRequests root) := by
  have hnone : (ds.map (.command : Command A → Element A M)).flatMap
      (Element.updateRequests root) = [] := by
    rw [List.flatMap_eq_nil_iff]
    intro e he
    obtain ⟨d, hd, rfl⟩ := List.mem_map.mp he
    exact if_pos (h d hd)
  rw [combined, List.flatMap_append, hnone, List.append_nil, updateRequests_stays]

theorem isEmpty_combined (h : (commandsIn es).isEmpty = false)
    (htail : Tail ((commandsIn es).filter Command.joins) ds) :
    (commandsIn (combined es ds)).isEmpty = false := by
  rw [combined, commandsIn_append, commandsIn_commands, commandsIn_filter]
  cases htail with
  | none hnone =>
    have hall : (commandsIn es).filter (fun c => !c.joins) = commandsIn es := by
      refine List.filter_eq_self.mpr (fun c hc => ?_)
      simpa using List.filter_eq_nil_iff.mp hnone c hc
    rw [hall, List.append_nil, h]
  | @one d _ _ =>
    have hne := List.append_ne_nil_of_right_ne_nil ((commandsIn es).filter (fun c => !c.joins))
      (List.cons_ne_nil d [])
    exact List.isEmpty_eq_false_iff.mpr hne

theorem messages_combined :
    (∃ e ∈ combined es ds, e.isMessages = true) ↔
      ∃ e ∈ es, e.isMessages = true := by
  constructor
  · rintro ⟨e, he, hm⟩
    rcases List.mem_append.mp he with he | he
    · exact ⟨e, List.mem_of_mem_filter he, hm⟩
    · obtain ⟨d, -, rfl⟩ := List.mem_map.mp he
      cases hm
  · rintro ⟨e, he, hm⟩
    cases e with
    | messages ms => exact ⟨_, List.mem_append_left _ (List.mem_filter.mpr ⟨he, rfl⟩), rfl⟩
    | dict items => cases hm
    | state key ms => cases hm
    | command c => cases hm

theorem asked_combined (root : Bool) (h : (commandsIn es).isEmpty = false)
    (htail : Tail ((commandsIn es).filter Command.joins) ds) :
    (Returned.list (combined es ds)).asked root = asked root es := by
  rw [Returned.asked, Returned.updateRequests, Returned.elements,
    if_neg (Bool.eq_false_iff.mp (isEmpty_combined h htail)), currentIn_combined htail.parent,
    updateRequests_combined root htail.parent, asked]

theorem applied_current (hplain : ¬ Refused g (.list (combined es ds)))
    (h : (commandsIn es).isEmpty = false) (htail : Tail ((commandsIn es).filter Command.joins) ds)
    (hp : parentsIn es = []) :
    Applied g above (.list (combined es ds)) (asked (isRoot g) es) (askedAbove es) ↔
      Kept g (asked (isRoot g) es) := by
  have hds : ds = [] := by
    cases htail with
    | none _ => rfl
    | one hne _ =>
      refine absurd (List.filter_eq_nil_iff.mpr (fun c hc hjoins => ?_)) hne
      exact List.filter_eq_nil_iff.mp hp c hc (isParent_of_joins hjoins)
  have hparents : parentsIn (Returned.list (combined es ds)).elements = [] := by
    rw [Returned.elements, parentsIn_combined htail.parent, hp, hds]
    rfl
  rw [Applied, outcome_current hplain hparents, askedAbove, hp, asked_combined _ h htail]
  simp only [Option.some.injEq, forall_eq', delivered_perm_iff, List.flatMap_nil,
    List.Perm.refl, and_true]

theorem applied_lead (hplain : ¬ Refused g (.list (combined es ds)))
    (htail : Tail ((commandsIn es).filter Command.joins) ds) {pre post : List (Command A)}
    {c : Command A} (hp : parentsIn es = pre ++ c :: post) (hpre : ∀ d ∈ pre, d.joins = true)
    (hc : c.joins = false) (p : StateGraph) :
    Applied g (some p) (.list (combined es ds)) (asked (isRoot g) es) (askedAbove es) ↔
      Idle (asked (isRoot g) es) ∧ Kept p (c.requests : List (Request A M)) ∧
        Idle ((pre ++ post).flatMap Command.requests : List (Request A M)) := by
  have hnone : pre.filter (fun d => !d.joins) = [] :=
    List.filter_eq_nil_iff.mpr (fun d hd => by simp [hpre d hd])
  have hparents : parentsIn (Returned.list (combined es ds)).elements =
      c :: (post.filter (fun d => !d.joins) ++ ds) := by
    rw [Returned.elements, parentsIn_combined htail.parent, hp, List.filter_append, hnone,
      List.filter_cons_of_pos (by simp [hc])]
    rfl
  have hswap : ((pre ++ c :: post).flatMap Command.requests).Perm
      ((c.requests : List (Request A M)) ++ (pre ++ post).flatMap Command.requests) := by
    have hmiddle : (pre ++ c :: post).Perm (c :: (pre ++ post)) := List.perm_middle
    exact hmiddle.flatMap_right Command.requests
  rw [Applied, outcome_parent hplain hparents, askedAbove, hp]
  simp only [Option.some.injEq, forall_eq', perm_nil_iff_idle]
  rw [(hswap.flatMap_right Request.effects).congr_right, delivered_append_perm_iff]

theorem applied_joined (hplain : ¬ Refused g (.list (combined es ds)))
    (htail : Tail ((commandsIn es).filter Command.joins) ds) (hne : parentsIn es ≠ [])
    (hall : ∀ c ∈ parentsIn es, c.joins = true) (p : StateGraph) :
    Applied g (some p) (.list (combined es ds)) (asked (isRoot g) es) (askedAbove es) ↔
      Idle (asked (isRoot g) es) ∧
        Kept p ((parentsIn es).flatMap Command.gotoRequests : List (Request A M)) ∧
          Idle ((parentsIn es).flatMap Command.updateRequests : List (Request A M)) := by
  have hjoins : (commandsIn es).filter Command.joins = parentsIn es := by
    refine List.filter_congr (fun c hc => ?_)
    cases hparent : c.graph.isParent with
    | true => exact hall c (List.mem_filter.mpr ⟨hc, hparent⟩)
    | false =>
      exact Bool.eq_false_iff.mpr (fun h => absurd (isParent_of_joins h) (by simp [hparent]))
  rw [hjoins] at htail
  have hnone : (parentsIn es).filter (fun c => !c.joins) = [] :=
    List.filter_eq_nil_iff.mpr (fun c hc => by simp [hall c hc])
  cases htail with
  | none h => exact absurd h hne
  | @one d _ hd =>
    have hparents : parentsIn (Returned.list (combined es [d])).elements = [d] := by
      rw [Returned.elements, parentsIn_combined (List.forall_mem_singleton.mpr hd.parent), hnone]
      rfl
    have hswap : ((parentsIn es).flatMap Command.requests : List (Request A M)).Perm
        ((parentsIn es).flatMap Command.gotoRequests ++
          (parentsIn es).flatMap Command.updateRequests) :=
      ((List.flatMap_append_perm (parentsIn es) Command.updateRequests
        Command.gotoRequests).symm).trans List.perm_append_comm
    rw [Applied, outcome_parent hplain hparents, askedAbove]
    simp only [Option.some.injEq, forall_eq', perm_nil_iff_idle, hd.requests]
    rw [(hswap.flatMap_right Request.effects).congr_right, delivered_append_perm_iff]

theorem parents_split (cs : List (Command A)) :
    (∀ c ∈ cs, c.joins = true) ∨
      ∃ pre c post, cs = pre ++ c :: post ∧ (∀ d ∈ pre, d.joins = true) ∧ c.joins = false := by
  induction cs with
  | nil => exact Or.inl (fun c hc => absurd hc List.not_mem_nil)
  | cons c cs ih =>
    cases hc : c.joins with
    | false => exact Or.inr ⟨[], c, cs, rfl, fun d hd => absurd hd List.not_mem_nil, hc⟩
    | true =>
      rcases ih with hall | ⟨pre, d, post, rfl, hpre, hd⟩
      · exact Or.inl (List.forall_mem_cons.mpr ⟨hc, hall⟩)
      · exact Or.inr ⟨c :: pre, d, post, rfl, List.forall_mem_cons.mpr ⟨hc, hpre⟩, hd⟩

theorem lead_unique {pre pre' post post' : List (Command A)} {c c' : Command A}
    (h : pre ++ c :: post = pre' ++ c' :: post') (hpre : ∀ d ∈ pre, d.joins = true)
    (hpre' : ∀ d ∈ pre', d.joins = true) (hc : c.joins = false) (hc' : c'.joins = false) :
    pre = pre' ∧ c = c' ∧ post = post' := by
  induction pre generalizing pre' with
  | nil =>
    cases pre' with
    | nil => exact ⟨rfl, List.cons.inj h⟩
    | cons d pre' =>
      have hd := hpre' d List.mem_cons_self
      rw [← (List.cons.inj h).1, hc] at hd
      cases hd
  | cons d pre ih =>
    obtain ⟨hd, hrest⟩ := List.forall_mem_cons.mp hpre
    cases pre' with
    | nil =>
      rw [(List.cons.inj h).1, hc'] at hd
      cases hd
    | cons d' pre' =>
      obtain ⟨rfl, htail⟩ := List.cons.inj h
      obtain ⟨rfl, hlead⟩ := ih htail hrest (List.forall_mem_cons.mp hpre').2
      exact ⟨rfl, hlead⟩

theorem combined_applied_iff (hplain : ¬ Refused g (.list (combined es ds)))
    (h : (commandsIn es).isEmpty = false) (htail : Tail ((commandsIn es).filter Command.joins) ds)
    (habove : parentsIn es ≠ [] → above ≠ none) :
    Applied g above (.list (combined es ds)) (asked (isRoot g) es) (askedAbove es) ↔
      ToolsWhole g above es := by
  by_cases hp : parentsIn es = []
  · rw [applied_current hplain h htail hp, ToolsWhole, hp]
    simp
  obtain ⟨p, rfl⟩ := Option.ne_none_iff_exists'.mp (habove hp)
  rcases parents_split (parentsIn es) with hall | ⟨pre, c, post, hsplit, hpre, hc⟩
  · rw [applied_joined hplain htail hp hall p]
    constructor
    · rintro ⟨hidle, hkept, hupdates⟩
      exact Or.inr (Or.inr ⟨hp, hall, hidle, hupdates,
        fun q hq => Option.some.inj hq ▸ hkept⟩)
    · rintro (⟨hnone, -⟩ | ⟨pre, c, post, hsplit, -, hc, -⟩ | ⟨-, -, hidle, hupdates, hkept⟩)
      · exact absurd hnone hp
      · have hjoins := hall c (hsplit ▸ List.mem_append_right pre List.mem_cons_self)
        rw [hc] at hjoins
        cases hjoins
      · exact ⟨hidle, hkept p rfl, hupdates⟩
  · rw [applied_lead hplain htail hsplit hpre hc p]
    constructor
    · rintro ⟨hidle, hkept, hrest⟩
      exact Or.inr (Or.inl ⟨pre, c, post, hsplit, hpre, hc, hidle, hrest,
        fun q hq => Option.some.inj hq ▸ hkept⟩)
    · rintro (⟨hnone, -⟩ | ⟨pre', c', post', hsplit', hpre', hc', hidle, hrest, hkept⟩ |
        ⟨-, hall, -⟩)
      · exact absurd hnone hp
      · obtain ⟨rfl, rfl, rfl⟩ := lead_unique (hsplit.symm.trans hsplit') hpre hpre' hc hc'
        exact ⟨hidle, hkept p rfl, hrest⟩
      · have hjoins := hall c (hsplit ▸ List.mem_append_right pre List.mem_cons_self)
        rw [hc] at hjoins
        cases hjoins

-- One write for a list of messages is kept as one for each of them would be.
theorem exists_messages_request (g : StateGraph) (inputType : Prebuilt.InputType)
    (messagesKey : String) (root : Bool) :
    ∃ (request : List M → Request A M) (effect : M → Effect A M),
      (∀ ms, (messagesElement inputType messagesKey ms : Element A M).updateRequests root =
        [request ms]) ∧ (∀ ms, (request ms).effects = ms.map effect) ∧
          ∀ ms ms', kept g (request ms) = kept g (request ms') := by
  by_cases hlist : inputType = .list
  · refine ⟨fun ms => .update rootKey (.messages ms), .message rootKey, fun ms => ?_,
      fun ms => rfl, fun ms ms' => rfl⟩
    rw [messagesElement, if_pos hlist]
    rfl
  · cases root with
    | true =>
      refine ⟨fun ms => .update rootKey (.state messagesKey ms), .stateMessage rootKey messagesKey,
        fun ms => ?_, fun ms => rfl, fun ms ms' => rfl⟩
      rw [messagesElement, if_neg hlist]
      rfl
    | false =>
      refine ⟨fun ms => .update messagesKey (.messages ms), .message messagesKey, fun ms => ?_,
        fun ms => rfl, fun ms ms' => rfl⟩
      rw [messagesElement, if_neg hlist]
      rfl

theorem isMessages_messagesElement (ms : List M) :
    (messagesElement inputType messagesKey ms : Element A M).isMessages = true ↔
      inputType = .list := by
  unfold messagesElement
  split
  · rename_i h
    exact iff_of_true rfl h
  · rename_i h
    exact iff_of_false Bool.false_ne_true h

theorem commandsIn_messages (ms : List M) :
    commandsIn (ms.map (fun m => messagesElement inputType messagesKey [m]) :
      List (Element A M)) = [] := by
  rw [commandsIn, List.filterMap_eq_nil_iff]
  intro e he
  obtain ⟨m, -, rfl⟩ := List.mem_map.mp he
  exact command?_messagesElement _

theorem messages_applied_iff {r : Returned A M} {ms : List M}
    (hes : es = ms.map (fun m => messagesElement inputType messagesKey [m]))
    (hr : r = .one (messagesElement inputType messagesKey ms)) :
    Applied g above r (asked (isRoot g) es) (askedAbove es) ↔
      ToolsFail g above inputType es ∨ ToolsWhole g above es := by
  have hcommands : commandsIn es = [] := by rw [hes, commandsIn_messages]
  have hparents : parentsIn es = [] := by rw [parentsIn, hcommands, List.filter_nil]
  have hone : commandsIn r.elements = [] := by
    rw [hr]
    exact List.filterMap_cons_none (command?_messagesElement ms)
  have honeParents : parentsIn r.elements = [] := by rw [parentsIn, hone, List.filter_nil]
  have hrefused : Refused g r ↔ ToolsRefused g inputType es := by
    rw [Refused, ToolsRefused, hcommands, hr, Returned.Misplaced, isMessages_messagesElement]
    simp
  have hfail : ToolsFail g above inputType es ↔ Refused g r := by
    rw [ToolsFail, hparents, hrefused]
    simp
  have hwhole : ToolsWhole g above es ↔ Kept g (asked (isRoot g) es) := by
    rw [ToolsWhole, hparents]
    simp
  obtain ⟨request, effect, hupdates, heffects, hkept⟩ :=
    exists_messages_request (A := A) g inputType messagesKey (isRoot g)
  have hasked : r.asked (isRoot g) = [request ms] := by
    rw [Returned.asked, currentIn, hone, hr, Returned.updateRequests, hupdates]
    rfl
  have haskedEs : asked (isRoot g) es = ms.map (fun m => request [m]) := by
    rw [asked, currentIn, hcommands, List.filter_nil, List.flatMap_nil, List.append_nil, hes,
      List.flatMap_map]
    simp only [hupdates]
    exact List.map_eq_flatMap.symm
  have hsame : (asked (isRoot g) es).flatMap Request.effects =
      [request ms].flatMap Request.effects := by
    rw [haskedEs, List.flatMap_map, List.flatMap_singleton, heffects]
    simp only [heffects, List.map_cons, List.map_nil]
    exact List.map_eq_flatMap.symm
  have hkeptIff : Kept g [request ms] ↔ Kept g (asked (isRoot g) es) := by
    rw [haskedEs, Kept, Kept, List.forall_mem_singleton, List.forall_mem_map, heffects]
    constructor
    · intro h m hm _
      rw [hkept [m] ms]
      exact h (List.ne_nil_of_mem (List.mem_map_of_mem hm))
    · intro h hne
      obtain ⟨m, hm⟩ := List.exists_mem_of_ne_nil ms (fun hnil => hne (by rw [hnil]; rfl))
      rw [hkept ms [m]]
      exact h m hm (by rw [heffects]; exact List.cons_ne_nil _ _)
  by_cases hplain : Refused g r
  · refine iff_of_true (fun done hdone => ?_) (Or.inl (hfail.mpr hplain))
    rw [outcome_fails (Or.inl hplain)] at hdone
    cases hdone
  · rw [or_iff_right (fun h => hplain (hfail.mp h)), hwhole, ← hkeptIff, Applied,
      outcome_current hplain honeParents, hasked, hsame, askedAbove, hparents]
    simp only [Option.some.injEq, forall_eq', delivered_perm_iff, List.flatMap_nil,
      List.Perm.refl, and_true]

theorem tools_applied_iff (g : StateGraph) (above : Option StateGraph)
    (inputType : Prebuilt.InputType) (messagesKey : String) (outputs : List (Output A M)) :
    Applied g above (combineToolOutputs inputType messagesKey outputs)
        (asked (isRoot g) (toolElements inputType messagesKey outputs))
        (askedAbove (toolElements inputType messagesKey outputs)) ↔
      ToolsFail g above inputType (toolElements inputType messagesKey outputs) ∨
        ToolsWhole g above (toolElements inputType messagesKey outputs) := by
  cases hempty : (commandsIn (toolElements inputType messagesKey outputs)).isEmpty with
  | true =>
    obtain ⟨ms, hes, hr⟩ := combine_messages hempty
    exact messages_applied_iff hes hr
  | false =>
    obtain ⟨ds, htail, hr⟩ := combine_commands hempty
    have hlist : (∃ e ∈ toolElements inputType messagesKey outputs, e.isMessages = true) →
        inputType = .list := by
      rintro ⟨e, he, hm⟩
      obtain ⟨o, -, rfl⟩ := List.mem_map.mp he
      cases o with
      | message m => exact (isMessages_messagesElement [m]).mp hm
      | command c => cases hm
    have hrefused : Refused g (combineToolOutputs inputType messagesKey outputs) ↔
        ToolsRefused g inputType (toolElements inputType messagesKey outputs) := by
      rw [hr, Refused, ToolsRefused, Returned.Misplaced, messages_combined,
        isEmpty_combined hempty htail, hempty]
      simp only [Bool.false_eq_true, false_or]
      exact and_congr_right (fun _ => (and_iff_right_of_imp hlist).symm)
    by_cases hfail : ToolsFail g above inputType (toolElements inputType messagesKey outputs)
    · refine iff_of_true (fun done hdone => ?_) (Or.inl hfail)
      have hfails : Fails g above (combineToolOutputs inputType messagesKey outputs) := by
        refine hfail.imp hrefused.mpr (And.imp_left (fun hne hnone => hne ?_))
        rw [hr, Returned.elements, parentsIn_combined htail.parent, List.append_eq_nil_iff] at hnone
        obtain ⟨hstay, rfl⟩ := hnone
        cases htail with
        | none hjoins =>
          refine List.filter_eq_nil_iff.mpr (fun c hc hparent => ?_)
          have hcj := List.filter_eq_nil_iff.mp hjoins c hc
          have hcs := List.filter_eq_nil_iff.mp hstay c (List.mem_filter.mpr ⟨hc, hparent⟩)
          simp [hcj] at hcs
      rw [outcome_fails hfails] at hdone
      cases hdone
    · rw [or_iff_right hfail]
      obtain ⟨hplain, habove⟩ := not_or.mp hfail
      rw [← hrefused, hr] at hplain
      rw [hr]
      exact combined_applied_iff hplain hempty htail (fun hne hnone => habove ⟨hne, hnone⟩)

-- The condition holds of a list that a node returns and of what the tool node joins.
theorem commands_applied_whole_iff :
    (∀ (g : StateGraph) (above : Option StateGraph) (es : List (Element A M)),
      Applied g above (.list es) ((Returned.list es).asked (isRoot g)) (askedAbove es) ↔
        Fails g above (.list es) ∨ AskedWhole g above (.list es)) ∧
    ∀ (g : StateGraph) (above : Option StateGraph) (inputType : Prebuilt.InputType)
      (messagesKey : String) (outputs : List (Output A M)),
      Applied g above (combineToolOutputs inputType messagesKey outputs)
          (asked (isRoot g) (toolElements inputType messagesKey outputs))
          (askedAbove (toolElements inputType messagesKey outputs)) ↔
        ToolsFail g above inputType (toolElements inputType messagesKey outputs) ∨
          ToolsWhole g above (toolElements inputType messagesKey outputs) :=
  ⟨fun g above es => applied_iff g above (.list es), tools_applied_iff⟩

end Combined

section Dropped

def agentsGraph : StateGraph :=
  let channels : Dict String Channel := Dict.ofList [("total", .lastValue ⟨"total", none⟩)]
  (StateGraph.ofSchema channels [] ["total"] ["total"] none).setNode "next"
    ⟨["total"], none, none, none, false, none, [], false⟩ none

def handOff : Command Nat := ⟨.parent true, .dict [("total", 1)], .list [.send "next" 2]⟩

def goNext : Command Nat := ⟨.parent true, .none, .one (.node "next")⟩

-- The first list loses the update before the command, the joined command its own update.
theorem parent_commands_drop_updates :
    (¬ ∀ (g : StateGraph) (above : Option StateGraph) (es : List (Element Nat Nat)),
        Applied g above (.list es) ((Returned.list es).asked (isRoot g)) (askedAbove es)) ∧
      ¬ ∀ (g : StateGraph) (above : Option StateGraph) (inputType : Prebuilt.InputType)
        (messagesKey : String) (outputs : List (Output Nat Nat)),
        Applied g above (combineToolOutputs inputType messagesKey outputs)
          (asked (isRoot g) (toolElements inputType messagesKey outputs))
          (askedAbove (toolElements inputType messagesKey outputs)) := by
  refine ⟨fun h => ?_, fun h => ?_⟩
  · have hdone : (outcome agentsGraph (some agentsGraph) (.list [.dict [("total", 1)],
        .command goNext] : Returned Nat Nat)).map (fun d => d.current.length) = some 0 := by
      decide +kernel
    obtain ⟨done, heq, hlen⟩ := Option.map_eq_some_iff.mp hdone
    have hperm := (h agentsGraph (some agentsGraph) _ done heq).1.length_eq
    rw [hlen] at hperm
    revert hperm
    decide +kernel
  · have hdone : (outcome agentsGraph (some agentsGraph) (combineToolOutputs .dict "messages"
        [.one (.command handOff)] : Returned Nat Nat)).map (fun d => d.parent.length) = some 1 := by
      decide +kernel
    obtain ⟨done, heq, hlen⟩ := Option.map_eq_some_iff.mp hdone
    have hperm := (h agentsGraph (some agentsGraph) .dict "messages" _ done heq).2.length_eq
    rw [hlen] at hperm
    revert hperm
    decide +kernel

end Dropped

end Returning

end LangGraph

import Mathlib.Data.List.Flatten
import Mathlib.Data.List.Perm.Basic
import LangGraph.Graph.Compile
import LangGraph.Pregel.ApplyWrites

namespace Collections

variable {α β : Type}

theorem filter_flatMap_perm_iff {l : List α} {p : α → Bool} {f : α → List β} :
    ((l.filter p).flatMap f).Perm (l.flatMap f) ↔ ∀ x ∈ l, f x ≠ [] → p x = true := by
  induction l with
  | nil => simp
  | cons y l ih =>
    rw [List.forall_mem_cons, ← ih]
    cases hp : p y with
    | true =>
      rw [List.filter_cons_of_pos hp, List.flatMap_cons, List.flatMap_cons,
        List.perm_append_left_iff]
      exact ⟨fun h => ⟨fun _ => rfl, h⟩, And.right⟩
    | false =>
      rw [List.filter_cons_of_neg (by simp [hp]), List.flatMap_cons]
      constructor
      · intro h
        have hlen := h.length_eq
        rw [List.length_append] at hlen
        have hsub : ((l.filter p).flatMap f).Sublist (l.flatMap f) :=
          List.filter_sublist.flatMap f
        have hle := hsub.length_le
        have hempty : f y = [] := List.eq_nil_of_length_eq_zero (by omega)
        rw [hempty, List.nil_append] at h
        exact ⟨fun hne => absurd hempty hne, h⟩
      · rintro ⟨hy, hl⟩
        have hempty : f y = [] := by_contra (fun hne => Bool.noConfusion (hy hne))
        rw [hempty, List.nil_append]
        exact hl

end Collections

namespace LangGraph

open Collections

namespace Returning

section Data

variable (A M : Type)

inductive Target where
  | node (name : String)
  | send (node : String) (arg : A)

inductive Goto where
  | one (t : Target A)
  | tuple (ts : List (Target A))
  | list (ts : List (Target A))

-- Of a typed object the fields that get_update_as_tuples reads are kept.
inductive Update where
  | none
  | dict (items : List (String × A))
  | pairs (items : List (String × A))
  | typed (fields : List (String × A))
  | value (a : A)

-- `interned` says that the text is the very object that the class holds.
inductive Address where
  | current
  | parent (interned : Bool)

structure Command where
  graph : Address
  update : Update A
  goto : Goto A

-- The lists of messages that the tool node makes, alone or under a key, are kept apart.
inductive Element where
  | dict (items : List (String × A))
  | messages (ms : List M)
  | state (key : String) (ms : List M)
  | command (c : Command A)

inductive Returned where
  | one (e : Element A M)
  | list (es : List (Element A M))

inductive Content where
  | object (a : A)
  | dict (items : List (String × A))
  | messages (ms : List M)
  | state (key : String) (ms : List M)
  | elements (es : List (Element A M))
  | send (node : String) (arg : A)
  | none

inductive NodeError where
  | invalidUpdate
  | parentCommand (c : Command A)

inductive Effect where
  | write (channel : String) (content : Content A M)
  | message (channel : String) (m : M)
  | stateMessage (channel key : String) (m : M)

-- What an element asks of the graph it addresses.
inductive Request where
  | update (key : String) (content : Content A M)
  | goto (t : Target A)

structure Effects where
  current : List (Effect A M)
  parent : List (Effect A M)

end Data

variable {A M : Type}

def rootKey : String := "__root__"

def Target.isEnd : Target A → Bool
  | .node name => name = endName
  | .send _ _ => false

def Goto.targets : Goto A → List (Target A)
  | .one t => [t]
  | .tuple ts | .list ts => ts

def Update.asTuples : Update A → List (String × A)
  | .none => []
  | .dict items | .pairs items | .typed items => items
  | .value a => [(rootKey, a)]

def Address.isParent : Address → Bool
  | .current => false
  | .parent _ => true

def Target.write : Target A → String × Content A M
  | .node name => (branchTo name, .none)
  | .send name arg => (Key.tasks, .send name arg)

-- END is not a node, no target is left of it.
def Command.branches (c : Command A) : List (Target A) :=
  c.goto.targets.filter (fun t => !t.isEnd)

def Command.updates (c : Command A) : List (String × Content A M) :=
  c.update.asTuples.map (fun u => (u.1, .object u.2))

def Element.command? : Element A M → Option (Command A)
  | .command c => some c
  | _ => none

def Returned.elements : Returned A M → List (Element A M)
  | .one e => [e]
  | .list es => es

def commandsIn (es : List (Element A M)) : List (Command A) := es.filterMap Element.command?

def getRootElement : Element A M → List (String × Content A M)
  | .dict items => [(rootKey, .dict items)]
  | .messages ms => [(rootKey, .messages ms)]
  | .state key ms => [(rootKey, .state key ms)]
  | .command c => if c.graph.isParent then [] else c.updates

def getRoot : Returned A M → List (String × Content A M)
  | .one e => getRootElement e
  | .list es =>
      if (commandsIn es).isEmpty then [(rootKey, .elements es)]
      else es.flatMap getRootElement

def getUpdatesElement (outputKeys : List String) :
    Element A M → Except (NodeError A) (List (String × Content A M))
  | .dict items =>
      .ok ((items.filter (fun u => u.1 ∈ outputKeys)).map (fun u => (u.1, .object u.2)))
  | .state key ms => .ok (([(key, .messages ms)] : List _).filter (fun u => u.1 ∈ outputKeys))
  | .command c =>
      if c.graph.isParent then .ok [] else .ok (c.updates.filter (fun u => u.1 ∈ outputKeys))
  | .messages _ => .error .invalidUpdate

def getUpdates (outputKeys : List String) :
    Returned A M → Except (NodeError A) (List (String × Content A M))
  | .one e => getUpdatesElement outputKeys e
  | .list es =>
      if (commandsIn es).isEmpty then .error .invalidUpdate
      else (es.mapM (getUpdatesElement outputKeys)).map List.flatten

def controlCommands : List (Command A) → Except (NodeError A) (List (String × Content A M))
  | [] => .ok []
  | c :: cs =>
      if c.graph.isParent then .error (.parentCommand c)
      else (controlCommands cs).map (fun rtn => c.branches.map Target.write ++ rtn)

def controlBranch (r : Returned A M) : Except (NodeError A) (List (String × Content A M)) :=
  controlCommands (commandsIn r.elements)

def isRoot (g : StateGraph) : Bool := g.outputKeys = [rootKey]

def updatesMapper (g : StateGraph) (r : Returned A M) :
    Except (NodeError A) (List (String × Content A M)) :=
  if isRoot g then .ok (getRoot r) else getUpdates g.outputKeys r

def assembleWrites (g : StateGraph) (r : Returned A M) :
    Except (NodeError A) (List (String × Content A M)) := do
  let updates ← updatesMapper g r
  let branches ← controlBranch r
  .ok (updates ++ branches)

def knownPacket (g : StateGraph) : Content A M → Bool
  | .send node _ => node ∈ g.attach.nodes.keys
  | _ => false

-- What apply_writes hands to a channel; of the packets, what prepare_push makes a task of.
def reaches (g : StateGraph) (w : String × Content A M) : Bool :=
  w.1 ∉ ignoredWrites ∧ w.1 ∈ g.attach.channels.keys ∧
    (w.1 = Key.tasks → knownPacket g w.2)

def pieces : String × Content A M → List (Effect A M)
  | (channel, .messages ms) => ms.map (.message channel)
  | (channel, .state key ms) => ms.map (.stateMessage channel key)
  | (channel, content) => [.write channel content]

def delivered (g : StateGraph) (ws : List (String × Content A M)) : List (Effect A M) :=
  (ws.filter (reaches g)).flatMap pieces

-- `none` when the node fails; a command for the parent graph that finds none ends the run.
def outcome (g : StateGraph) (above : Option StateGraph) (r : Returned A M) :
    Option (Effects A M) :=
  match assembleWrites g r with
  | .ok ws => some ⟨delivered g ws, []⟩
  | .error .invalidUpdate => none
  | .error (.parentCommand c) =>
      match above with
      | none => none
      | some p =>
          match assembleWrites p (.one (.command { c with graph := .current }) : Returned A M) with
          | .ok ws => some ⟨[], delivered p ws⟩
          | .error _ => none

section Requests

def Request.write : Request A M → String × Content A M
  | .update key content => (key, content)
  | .goto t => t.write

def Request.effects (q : Request A M) : List (Effect A M) := pieces q.write

def Command.updateRequests (c : Command A) : List (Request A M) :=
  c.updates.map (fun u => .update u.1 u.2)

def Command.gotoRequests (c : Command A) : List (Request A M) := c.branches.map .goto

def Command.requests (c : Command A) : List (Request A M) := c.updateRequests ++ c.gotoRequests

def Element.updateRequests (root : Bool) : Element A M → List (Request A M)
  | .dict items =>
      if root then [.update rootKey (.dict items)]
      else items.map (fun u => .update u.1 (.object u.2))
  | .messages ms => [.update rootKey (.messages ms)]
  | .state key ms =>
      if root then [.update rootKey (.state key ms)] else [.update key (.messages ms)]
  | .command c => if c.graph.isParent then [] else c.updateRequests

def Element.isMessages : Element A M → Bool
  | .messages _ => true
  | _ => false

def parentsIn (es : List (Element A M)) : List (Command A) :=
  (commandsIn es).filter (fun c => c.graph.isParent)

def currentIn (es : List (Element A M)) : List (Command A) :=
  (commandsIn es).filter (fun c => !c.graph.isParent)

-- What a list of elements asks of the graph of the node, and what of the parent graph.
def asked (root : Bool) (es : List (Element A M)) : List (Request A M) :=
  es.flatMap (Element.updateRequests root) ++ (currentIn es).flatMap Command.gotoRequests

def askedAbove (es : List (Element A M)) : List (Request A M) :=
  (parentsIn es).flatMap Command.requests

-- A list without a command is one value.
def Returned.updateRequests (root : Bool) : Returned A M → List (Request A M)
  | .one e => e.updateRequests root
  | .list es =>
      if (commandsIn es).isEmpty then [.update rootKey (.elements es)]
      else es.flatMap (Element.updateRequests root)

def Returned.asked (root : Bool) (r : Returned A M) : List (Request A M) :=
  r.updateRequests root ++ (currentIn r.elements).flatMap Command.gotoRequests

def passes (g : StateGraph) : Request A M → Bool
  | .update key _ => isRoot g ∨ key ∈ g.outputKeys
  | .goto _ => true

def kept (g : StateGraph) (q : Request A M) : Bool := passes g q && reaches g q.write

-- A request for no message at all is kept in any case.
def Kept (g : StateGraph) (qs : List (Request A M)) : Prop :=
  ∀ q ∈ qs, q.effects ≠ [] → kept g q = true

def Idle (qs : List (Request A M)) : Prop := ∀ q ∈ qs, q.effects = []

def Returned.Misplaced : Returned A M → Prop
  | .one e => e.isMessages = true
  | .list es => (commandsIn es).isEmpty = true ∨ ∃ e ∈ es, e.isMessages = true

def Refused (g : StateGraph) (r : Returned A M) : Prop := isRoot g = false ∧ r.Misplaced

end Requests

section Assembled

variable {g : StateGraph} {r : Returned A M} {es : List (Element A M)}

def assembled (g : StateGraph) (qs : List (Request A M)) : List (String × Content A M) :=
  (qs.filter (passes g)).map Request.write

theorem assembled_append (ps qs : List (Request A M)) :
    assembled g (ps ++ qs) = assembled g ps ++ assembled g qs := by
  rw [assembled, List.filter_append, List.map_append]
  rfl

theorem assembled_flatMap {α : Type} (f : α → List (Request A M)) (xs : List α) :
    assembled g (xs.flatMap f) = xs.flatMap (fun x => assembled g (f x)) := by
  induction xs with
  | nil => rfl
  | cons x xs ih => rw [List.flatMap_cons, List.flatMap_cons, assembled_append, ih]

theorem assembled_updates (us : List (String × Content A M)) :
    assembled g (us.map (fun u => .update u.1 u.2)) =
      us.filter (fun u => passes g (.update u.1 u.2 : Request A M)) := by
  rw [assembled, List.filter_map, List.map_map]
  exact List.map_id _

theorem assembled_gotos (c : Command A) :
    assembled g (c.gotoRequests : List (Request A M)) = c.branches.map Target.write := by
  have hpass : ∀ q ∈ (c.gotoRequests : List (Request A M)), passes g q = true := by
    intro q hq
    obtain ⟨t, -, rfl⟩ := List.mem_map.mp hq
    rfl
  rw [assembled, List.filter_eq_self.mpr hpass, Command.gotoRequests, List.map_map]
  rfl

theorem getRootElement_eq (hroot : isRoot g = true) (e : Element A M) :
    getRootElement e = assembled g (e.updateRequests true) := by
  have hpass (q : Request A M) : passes g q = true := by
    cases q with
    | update key content => simp [passes, hroot]
    | goto t => rfl
  have hall (qs : List (Request A M)) : assembled g qs = qs.map Request.write := by
    rw [assembled, List.filter_eq_self.mpr (fun q _ => hpass q)]
  cases e with
  | dict items => rw [hall]; rfl
  | messages ms => rw [hall]; rfl
  | state key ms => rw [hall]; rfl
  | command c =>
    rw [getRootElement, Element.updateRequests]
    split
    · rfl
    · rw [hall, Command.updateRequests, List.map_map]
      exact (List.map_id _).symm

theorem getUpdatesElement_eq (hroot : isRoot g = false) {e : Element A M}
    (h : e.isMessages = false) : getUpdatesElement g.outputKeys e =
      .ok (assembled g (e.updateRequests false)) := by
  have hpass (key : String) (content : Content A M) :
      passes g (.update key content : Request A M) = decide (key ∈ g.outputKeys) := by
    simp [passes, hroot]
  cases e with
  | dict items =>
    have hmap : items.map (fun u => (.update u.1 (.object u.2) : Request A M)) =
        (items.map (fun u => (u.1, (.object u.2 : Content A M)))).map
          (fun u => .update u.1 u.2) := by
      rw [List.map_map]
      rfl
    simp only [getUpdatesElement, Element.updateRequests, Bool.false_eq_true, if_false, hmap,
      assembled_updates, hpass, List.filter_map]
    rfl
  | messages ms => cases h
  | state key ms =>
    have hone : ([.update key (.messages ms)] : List (Request A M)) =
        [(key, (.messages ms : Content A M))].map (fun u => .update u.1 u.2) := rfl
    simp only [getUpdatesElement, Element.updateRequests, Bool.false_eq_true, if_false, hone,
      assembled_updates, hpass]
  | command c =>
    rw [getUpdatesElement, Element.updateRequests]
    split
    · rfl
    · simp only [Command.updateRequests, assembled_updates, hpass]

theorem controlCommands_eq (cs : List (Command A)) :
    (controlCommands cs : Except (NodeError A) (List (String × Content A M))) =
      match cs.filter (fun c => c.graph.isParent) with
      | [] => .ok (assembled g (cs.flatMap Command.gotoRequests))
      | c :: _ => .error (.parentCommand c) := by
  induction cs with
  | nil => rfl
  | cons c cs ih =>
    rw [controlCommands]
    cases hp : c.graph.isParent with
    | true => rw [List.filter_cons_of_pos (by simpa using hp)]; rfl
    | false =>
      rw [List.filter_cons_of_neg (by simp [hp]), ih, List.flatMap_cons, assembled_append,
        assembled_gotos, if_neg Bool.false_ne_true]
      cases cs.filter (fun c => c.graph.isParent) with
      | nil => rfl
      | cons d ds => rfl

theorem getUpdates_elements (hroot : isRoot g = false) (h : ∀ e ∈ es, e.isMessages = false) :
    es.mapM (getUpdatesElement g.outputKeys) =
      .ok (es.map (fun e => assembled g (e.updateRequests false))) := by
  induction es with
  | nil => rfl
  | cons e es ih =>
    obtain ⟨he, hes⟩ := List.forall_mem_cons.mp h
    rw [List.mapM_cons, getUpdatesElement_eq hroot he, ih hes]
    rfl

theorem getUpdates_messages {keys : List String} (h : ∃ e ∈ es, e.isMessages = true) :
    es.mapM (getUpdatesElement keys) = .error .invalidUpdate := by
  induction es with
  | nil =>
    obtain ⟨e, he, -⟩ := h
    cases he
  | cons e es ih =>
    rw [List.mapM_cons]
    cases he : e.isMessages with
    | true =>
      cases e with
      | messages ms => rfl
      | dict items => cases he
      | state key ms => cases he
      | command c => cases he
    | false =>
      have hrest : ∃ e ∈ es, e.isMessages = true := by
        obtain ⟨d, hd, hm⟩ := h
        rcases List.mem_cons.mp hd with rfl | hd
        · exact absurd hm (by simp [he])
        · exact ⟨d, hd, hm⟩
      have hok : ∃ ws, getUpdatesElement keys e = .ok ws := by
        cases e with
        | messages ms => cases he
        | dict items => exact ⟨_, rfl⟩
        | state key ms => exact ⟨_, rfl⟩
        | command c =>
          rw [getUpdatesElement]
          split
          · exact ⟨_, rfl⟩
          · exact ⟨_, rfl⟩
      obtain ⟨ws, hws⟩ := hok
      rw [hws, ih hrest]
      rfl

theorem getRoot_eq (hroot : isRoot g = true) (r : Returned A M) :
    getRoot r = assembled g (r.updateRequests true) := by
  cases r with
  | one e => exact getRootElement_eq hroot e
  | list es =>
    rw [getRoot, Returned.updateRequests]
    split
    · rw [assembled, List.filter_cons_of_pos (by simp [passes, hroot])]
      rfl
    · rw [assembled_flatMap]
      exact congrArg (fun f => es.flatMap f) (funext (getRootElement_eq hroot))

theorem getUpdates_eq (hroot : isRoot g = false) (h : ¬ r.Misplaced) :
    getUpdates g.outputKeys r = .ok (assembled g (r.updateRequests false)) := by
  cases r with
  | one e => exact getUpdatesElement_eq hroot (Bool.eq_false_iff.mpr h)
  | list es =>
    obtain ⟨hne, hall⟩ := not_or.mp h
    have hplain : ∀ e ∈ es, e.isMessages = false :=
      fun e he => Bool.eq_false_iff.mpr (fun hm => hall ⟨e, he, hm⟩)
    rw [getUpdates, Returned.updateRequests, if_neg hne, if_neg hne,
      getUpdates_elements hroot hplain, assembled_flatMap]
    rfl

theorem getUpdates_misplaced {keys : List String} (h : r.Misplaced) :
    getUpdates keys r = .error .invalidUpdate := by
  cases r with
  | one e =>
    cases e with
    | messages ms => rfl
    | dict items => cases h
    | state key ms => cases h
    | command c => cases h
  | list es =>
    rw [getUpdates]
    split
    · rfl
    · rename_i hne
      rw [getUpdates_messages (h.resolve_left hne)]
      rfl

theorem assembleWrites_refused (h : Refused g r) :
    assembleWrites g r = .error .invalidUpdate := by
  rw [assembleWrites, updatesMapper, if_neg (Bool.eq_false_iff.mp h.1), getUpdates_misplaced h.2]
  rfl

theorem updatesMapper_eq (h : ¬ Refused g r) :
    updatesMapper g r = .ok (assembled g (r.updateRequests (isRoot g))) := by
  rw [updatesMapper]
  cases hroot : isRoot g with
  | true => rw [if_pos rfl, getRoot_eq hroot]
  | false => rw [if_neg Bool.false_ne_true, getUpdates_eq hroot (fun hm => h ⟨hroot, hm⟩)]

theorem assembleWrites_eq (h : ¬ Refused g r) :
    assembleWrites g r =
      match parentsIn r.elements with
      | [] => .ok (assembled g (r.asked (isRoot g)))
      | c :: _ => .error (.parentCommand c) := by
  rw [assembleWrites, updatesMapper_eq h, controlBranch, controlCommands_eq (g := g), ← parentsIn]
  cases hp : parentsIn r.elements with
  | nil =>
    have hcurrent : currentIn r.elements = commandsIn r.elements := by
      refine List.filter_eq_self.mpr (fun c hc => ?_)
      have hno := List.filter_eq_nil_iff.mp hp c hc
      simpa using hno
    rw [Returned.asked, assembled_append, hcurrent]
    rfl
  | cons c cs => rfl

end Assembled

section Outcome

variable {g : StateGraph} {above : Option StateGraph} {r : Returned A M}

-- Every request applied once in the graph it is for, unless the node fails.
def Applied (g : StateGraph) (above : Option StateGraph) (r : Returned A M)
    (current parent : List (Request A M)) : Prop :=
  ∀ done, outcome g above r = some done →
    done.current.Perm (current.flatMap Request.effects) ∧
      done.parent.Perm (parent.flatMap Request.effects)

def Fails (g : StateGraph) (above : Option StateGraph) (r : Returned A M) : Prop :=
  Refused g r ∨ (parentsIn r.elements ≠ [] ∧ above = none)

theorem delivered_assembled (qs : List (Request A M)) :
    delivered g (assembled g qs) = (qs.filter (kept g)).flatMap Request.effects := by
  rw [delivered, assembled, List.filter_map, List.filter_filter, List.flatMap_map]
  refine congrArg (fun f => (qs.filter f).flatMap Request.effects) (funext fun q => ?_)
  exact Bool.and_comm _ _

theorem delivered_perm_iff (qs : List (Request A M)) :
    (delivered g (assembled g qs)).Perm (qs.flatMap Request.effects) ↔ Kept g qs := by
  rw [delivered_assembled]
  exact filter_flatMap_perm_iff

theorem perm_nil_iff_idle (qs : List (Request A M)) :
    ([] : List (Effect A M)).Perm (qs.flatMap Request.effects) ↔ Idle qs := by
  rw [List.nil_perm, List.flatMap_eq_nil_iff]
  rfl

theorem assembleWrites_command (p : StateGraph) (c : Command A) :
    assembleWrites p (.one (.command { c with graph := .current }) : Returned A M) =
      .ok (assembled p c.requests) := by
  have hplain : ¬ Refused p (.one (.command { c with graph := .current }) : Returned A M) :=
    fun h => Bool.false_ne_true h.2
  rw [assembleWrites_eq hplain]
  have hnone : parentsIn (Returned.one (.command { c with graph := .current }) :
      Returned A M).elements = [] := rfl
  rw [hnone]
  exact congrArg (fun qs => Except.ok (assembled p (c.updateRequests ++ qs)))
    (List.append_nil c.gotoRequests)

theorem delivered_append_perm_iff (qs rest : List (Request A M)) :
    (delivered g (assembled g qs)).Perm ((qs ++ rest).flatMap Request.effects) ↔
      Kept g qs ∧ Idle rest := by
  rw [List.flatMap_append]
  constructor
  · intro h
    have hlen := h.length_eq
    rw [List.length_append] at hlen
    have hle : (delivered g (assembled g qs)).length ≤ (qs.flatMap Request.effects).length := by
      rw [delivered_assembled]
      exact (List.filter_sublist.flatMap Request.effects).length_le
    have hidle : rest.flatMap Request.effects = [] :=
      List.eq_nil_of_length_eq_zero (by omega)
    rw [hidle, List.append_nil] at h
    exact ⟨(delivered_perm_iff qs).mp h, List.flatMap_eq_nil_iff.mp hidle⟩
  · rintro ⟨hkept, hidle⟩
    rw [List.flatMap_eq_nil_iff.mpr hidle, List.append_nil]
    exact (delivered_perm_iff qs).mpr hkept

theorem outcome_fails (h : Fails g above r) : outcome g above r = none := by
  by_cases hrefused : Refused g r
  · rw [outcome, assembleWrites_refused hrefused]
  · obtain ⟨hparents, rfl⟩ := h.resolve_left hrefused
    rw [outcome, assembleWrites_eq hrefused]
    cases hp : parentsIn r.elements with
    | nil => exact absurd hp hparents
    | cons c cs => rfl

theorem outcome_current (h : ¬ Refused g r) (hp : parentsIn r.elements = []) :
    outcome g above r = some ⟨delivered g (assembled g (r.asked (isRoot g))), []⟩ := by
  rw [outcome, assembleWrites_eq h, hp]

theorem outcome_parent (h : ¬ Refused g r) {c : Command A} {cs : List (Command A)}
    (hp : parentsIn r.elements = c :: cs) (p : StateGraph) :
    outcome g (some p) r = some ⟨[], delivered p (assembled p c.requests)⟩ := by
  rw [outcome, assembleWrites_eq h, hp]
  simp only [assembleWrites_command]

-- The list applied whole: no command is for the parent graph, or one is and nothing else asks for
-- anything.
def AskedWhole (g : StateGraph) (above : Option StateGraph) (r : Returned A M) : Prop :=
  (parentsIn r.elements = [] ∧ Kept g (r.asked (isRoot g))) ∨
    ∃ c cs, parentsIn r.elements = c :: cs ∧ Idle (r.asked (isRoot g)) ∧
      Idle (cs.flatMap Command.requests : List (Request A M)) ∧
        ∀ p ∈ above, Kept p (c.requests : List (Request A M))

theorem applied_iff (g : StateGraph) (above : Option StateGraph) (r : Returned A M) :
    Applied g above r (r.asked (isRoot g)) (askedAbove r.elements) ↔
      Fails g above r ∨ AskedWhole g above r := by
  by_cases hfails : Fails g above r
  · refine iff_of_true (fun done hdone => ?_) (Or.inl hfails)
    rw [outcome_fails hfails] at hdone
    cases hdone
  rw [or_iff_right hfails]
  obtain ⟨hplain, habove⟩ := not_or.mp hfails
  unfold Applied AskedWhole askedAbove
  cases hp : parentsIn r.elements with
  | nil =>
    rw [outcome_current hplain hp]
    simp only [Option.some.injEq, forall_eq', delivered_perm_iff, List.flatMap_nil,
      List.Perm.refl, and_true, true_and, reduceCtorEq, false_and, exists_false, or_false]
  | cons c cs =>
    cases above with
    | none => exact absurd ⟨by simp [hp], rfl⟩ habove
    | some p =>
      rw [outcome_parent hplain hp]
      simp only [Option.some.injEq, forall_eq', perm_nil_iff_idle, List.flatMap_cons,
        delivered_append_perm_iff, reduceCtorEq, false_and, false_or, List.cons.injEq,
        Option.mem_def]
      constructor
      · rintro ⟨hidle, hkept, hrest⟩
        exact ⟨c, cs, ⟨rfl, rfl⟩, hidle, hrest, hkept⟩
      · rintro ⟨c', cs', ⟨rfl, rfl⟩, hidle, hrest, hkept⟩
        exact ⟨hidle, hkept, hrest⟩

end Outcome

end Returning

end LangGraph

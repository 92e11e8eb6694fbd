import LangGraph.Collections.Dict
import Mathlib.Data.List.Induction
import Mathlib.Logic.Function.Basic

namespace LangGraph

open Collections

variable {α : Type}

-- A dict with a list under "$writes" refers to that list; any other object is plain.
inductive Written (α : Type) where
  | none
  | plain (a : α)
  | wrapped (writes : Nat) (others : List (String × α))
  deriving DecidableEq

abbrev WrittenLists (α : Type) := Nat → List (Written α)

-- An entry of the result: a written value, or a dict made here with a list of its own.
inductive ResultEntry (α : Type) where
  | value (v : Written α)
  | writes (vs : List (Written α))
  deriving DecidableEq

namespace ResultEntry

def add : Option (ResultEntry α) → Written α → ResultEntry α
  | some (.writes vs), v => .writes (vs ++ [v])
  | some (.value (.wrapped n _)), _ => .value (.wrapped n [])
  | some (.value (.plain a)), v => .writes [.plain a, v]
  | some (.value .none), v => .value v
  | none, v => .value v

-- The list of a written dict is extended in place.
def append : Option (ResultEntry α) → Written α → WrittenLists α → WrittenLists α
  | some (.value (.wrapped n _)), v, lists => Function.update lists n (lists n ++ [v])
  | _, _, lists => lists

def read (lists : WrittenLists α) : ResultEntry α → List (Written α)
  | .value (.wrapped n _) => lists n
  | .value .none => [.none]
  | .value (.plain a) => [.plain a]
  | .writes vs => vs

end ResultEntry

structure FoldedWrites (α : Type) where
  result : Dict String (ResultEntry α)
  lists : WrittenLists α

namespace FoldedWrites

def add (r : FoldedWrites α) (w : String × Written α) : FoldedWrites α where
  result := r.result.set w.1 (ResultEntry.add (r.result.get? w.1) w.2)
  lists := ResultEntry.append (r.result.get? w.1) w.2 r.lists

def mapTaskResultWrites (lists : WrittenLists α) (writes : List (String × Written α)) :
    FoldedWrites α :=
  writes.foldl add ⟨∅, lists⟩

def readWrites (r : FoldedWrites α) (chan : String) : List (Written α) :=
  ((r.result.get? chan).map (ResultEntry.read r.lists)).getD []

end FoldedWrites

def valuesTo (chan : String) (writes : List (String × Written α)) : List (Written α) :=
  (writes.filter (fun w => w.1 = chan)).map Prod.snd

def Recovered (lists : WrittenLists α) (writes : List (String × Written α)) : Prop :=
  (FoldedWrites.mapTaskResultWrites lists writes).lists = lists ∧
    ∀ chan, (FoldedWrites.mapTaskResultWrites lists writes).readWrites chan = valuesTo chan writes

-- The values without a None that another value takes the place of.
def remembered : List (Written α) → List (Written α)
  | .none :: v :: vs => remembered (v :: vs)
  | vs => vs

-- A list is only taken for the values if it is these values.
def Plainly (lists : WrittenLists α) (vs : List (Written α)) : Prop :=
  match remembered vs with
  | [.wrapped n _] => lists n = vs
  | .wrapped _ _ :: _ :: _ => False
  | rest => rest = vs

def Overgrown (vs : List (Written α)) : Prop :=
  ∃ n others v rest, remembered vs = .wrapped n others :: v :: rest

def extendValues : List (Written α) → Written α → List (Written α)
  | [.none], v => [v]
  | vs, v => vs ++ [v]

theorem remembered_concat (vs : List (Written α)) (v : Written α) :
    remembered (vs ++ [v]) = extendValues (remembered vs) v := by
  induction vs with
  | nil => cases v <;> rfl
  | cons u vs ih =>
    cases vs with
    | nil => cases u <;> cases v <;> rfl
    | cons u' vs =>
      cases u with
      | none => exact ih
      | plain a => rfl
      | wrapped n others => rfl

theorem remembered_not_none (vs : List (Written α)) (v : Written α) (rest : List (Written α)) :
    remembered vs ≠ .none :: v :: rest := by
  induction vs with
  | nil => simp [remembered]
  | cons u vs ih =>
    cases u with
    | none =>
      cases vs with
      | nil => simp [remembered]
      | cons u' vs => exact ih
    | plain a => simp [remembered]
    | wrapped n others => simp [remembered]

-- The entry of a channel with these values.
def entryOf : List (Written α) → Option (ResultEntry α)
  | [] => none
  | [v] => some (.value v)
  | .wrapped n _ :: _ :: _ => some (.value (.wrapped n []))
  | vs => some (.writes vs)

theorem entryOf_concat (vs : List (Written α)) (v : Written α) :
    entryOf (remembered (vs ++ [v])) = some (ResultEntry.add (entryOf (remembered vs)) v) := by
  rw [remembered_concat]
  have hnot := remembered_not_none vs
  generalize remembered vs = us at hnot
  match us with
  | [] => rfl
  | [.none] => rfl
  | [.plain a] => rfl
  | [.wrapped n others] => rfl
  | .none :: u :: us => exact absurd rfl (hnot u us)
  | .plain a :: u :: us => simp [extendValues, entryOf, ResultEntry.add]
  | .wrapped n others :: u :: us => simp [extendValues, entryOf, ResultEntry.add]

theorem overgrown_concat {vs : List (Written α)} {v : Written α} :
    Overgrown (vs ++ [v]) ↔
      Overgrown vs ∨ ∃ n others, entryOf (remembered vs) = some (.value (.wrapped n others)) := by
  rw [Overgrown, remembered_concat, Overgrown]
  generalize remembered vs = us
  match us with
  | [] => simp [extendValues, entryOf]
  | [.none] => simp [extendValues, entryOf]
  | [.plain a] => simp [extendValues, entryOf]
  | [.wrapped n others] => simp [extendValues, entryOf]
  | .none :: u :: us => simp [extendValues, entryOf]
  | .plain a :: u :: us => simp [extendValues, entryOf]
  | .wrapped n others :: u :: us => simp [extendValues, entryOf]

theorem valuesTo_concat (chan : String) (writes : List (String × Written α))
    (w : String × Written α) :
    valuesTo chan (writes ++ [w]) =
      if w.1 = chan then valuesTo chan writes ++ [w.2] else valuesTo chan writes := by
  rw [valuesTo, List.filter_append, List.map_append]
  split
  · rename_i hw
    simp [valuesTo, hw]
  · rename_i hw
    simp [valuesTo, hw]

theorem append_grow (e : Option (ResultEntry α)) (v : Written α) (lists : WrittenLists α)
    (n : Nat) : ∃ more, ResultEntry.append e v lists n = lists n ++ more := by
  match e with
  | some (.value (.wrapped m others)) =>
    by_cases hn : n = m
    · subst hn
      exact ⟨[v], Function.update_self n _ lists⟩
    · refine ⟨[], ?_⟩
      rw [List.append_nil]
      exact Function.update_of_ne hn _ lists
  | none => exact ⟨[], (List.append_nil _).symm⟩
  | some (.writes vs) => exact ⟨[], (List.append_nil _).symm⟩
  | some (.value .none) => exact ⟨[], (List.append_nil _).symm⟩
  | some (.value (.plain a)) => exact ⟨[], (List.append_nil _).symm⟩

theorem append_same_iff (e : Option (ResultEntry α)) (v : Written α) (lists : WrittenLists α) :
    ResultEntry.append e v lists = lists ↔ ∀ n others, e ≠ some (.value (.wrapped n others)) := by
  match e with
  | some (.value (.wrapped n others)) =>
    refine iff_of_false (fun h => ?_) (fun h => h n others rfl)
    have hn : lists n ++ [v] = lists n := (Function.update_self n _ lists).symm.trans (congrFun h n)
    simp at hn
  | none => exact iff_of_true rfl (by simp)
  | some (.writes vs) => exact iff_of_true rfl (by simp)
  | some (.value .none) => exact iff_of_true rfl (by simp)
  | some (.value (.plain a)) => exact iff_of_true rfl (by simp)

namespace FoldedWrites

variable (lists : WrittenLists α) (writes : List (String × Written α))

theorem map_concat (w : String × Written α) :
    mapTaskResultWrites lists (writes ++ [w]) = (mapTaskResultWrites lists writes).add w := by
  rw [mapTaskResultWrites, List.foldl_append]
  rfl

theorem lists_concat (w : String × Written α) :
    (mapTaskResultWrites lists (writes ++ [w])).lists =
      ResultEntry.append ((mapTaskResultWrites lists writes).result.get? w.1) w.2
        (mapTaskResultWrites lists writes).lists := by
  rw [map_concat]
  rfl

theorem get?_map (chan : String) :
    (mapTaskResultWrites lists writes).result.get? chan =
      entryOf (remembered (valuesTo chan writes)) := by
  induction writes using List.reverseRecOn with
  | nil => rfl
  | append_singleton writes w ih =>
    rw [map_concat, valuesTo_concat, add, Dict.get?_set]
    by_cases hw : chan = w.1
    · subst hw
      rw [if_pos rfl, if_pos rfl, entryOf_concat, ih]
    · rw [if_neg hw, if_neg (fun h => hw h.symm), ih]

theorem lists_grow (n : Nat) :
    ∃ more, (mapTaskResultWrites lists writes).lists n = lists n ++ more := by
  induction writes using List.reverseRecOn with
  | nil => exact ⟨[], (List.append_nil _).symm⟩
  | append_singleton writes w ih =>
    obtain ⟨more, hmore⟩ := ih
    obtain ⟨last, hlast⟩ := append_grow
      ((mapTaskResultWrites lists writes).result.get? w.1) w.2
      (mapTaskResultWrites lists writes).lists n
    refine ⟨more ++ last, ?_⟩
    rw [lists_concat, hlast, hmore, List.append_assoc]

-- No list of a written value has been extended.
theorem lists_same_iff :
    (mapTaskResultWrites lists writes).lists = lists ↔
      ∀ chan, ¬ Overgrown (valuesTo chan writes) := by
  induction writes using List.reverseRecOn with
  | nil => exact iff_of_true rfl (fun chan h => by simp [Overgrown, valuesTo, remembered] at h)
  | append_singleton writes w ih =>
    have hsame : (mapTaskResultWrites lists (writes ++ [w])).lists = lists ↔
        (mapTaskResultWrites lists writes).lists = lists ∧
          ∀ n others, entryOf (remembered (valuesTo w.1 writes)) ≠
            some (.value (.wrapped n others)) := by
      rw [lists_concat, ← get?_map lists]
      constructor
      · intro h
        have hbefore : (mapTaskResultWrites lists writes).lists = lists := by
          funext n
          obtain ⟨more, hmore⟩ := lists_grow lists writes n
          obtain ⟨last, hlast⟩ := append_grow ((mapTaskResultWrites lists writes).result.get? w.1)
            w.2 (mapTaskResultWrites lists writes).lists n
          have hn := congrFun h n
          rw [hlast, hmore, List.append_assoc] at hn
          have hnil : more ++ last = [] := List.append_cancel_left (hn.trans (List.append_nil _).symm)
          rw [hmore, (List.append_eq_nil_iff.mp hnil).1, List.append_nil]
        refine ⟨hbefore, (append_same_iff _ w.2 lists).mp ?_⟩
        rwa [hbefore] at h
      · rintro ⟨hbefore, h⟩
        rw [hbefore]
        exact (append_same_iff _ w.2 lists).mpr h
    rw [hsame, ih]
    constructor
    · rintro ⟨hall, hentry⟩ chan
      rw [valuesTo_concat]
      split
      · rename_i hw
        subst hw
        exact fun h => (overgrown_concat.mp h).elim (hall w.1) (fun ⟨n, others, h⟩ => hentry n others h)
      · exact hall chan
    · intro hall
      refine ⟨fun chan h => hall chan ?_, fun n others h => hall w.1 ?_⟩
      · rw [valuesTo_concat]
        split
        · exact overgrown_concat.mpr (Or.inl h)
        · exact h
      · rw [valuesTo_concat, if_pos rfl]
        exact overgrown_concat.mpr (Or.inr ⟨n, others, h⟩)

theorem plainly_iff (vs : List (Written α)) :
    Plainly lists vs ↔ ¬ Overgrown vs ∧
      ((entryOf (remembered vs)).map (ResultEntry.read lists)).getD [] = vs := by
  have hnot := remembered_not_none vs
  unfold Plainly Overgrown
  generalize remembered vs = us at hnot
  match us with
  | [] => simp [entryOf]
  | [.none] => simp [entryOf, ResultEntry.read]
  | [.plain a] => simp [entryOf, ResultEntry.read]
  | [.wrapped n others] => simp [entryOf, ResultEntry.read]
  | .none :: u :: us => exact absurd rfl (hnot u us)
  | .plain a :: u :: us => simp [entryOf, ResultEntry.read]
  | .wrapped n others :: u :: us => simp

end FoldedWrites

theorem recovered_iff (lists : WrittenLists α) (writes : List (String × Written α)) :
    Recovered lists writes ↔ ∀ chan, Plainly lists (valuesTo chan writes) := by
  rw [Recovered, FoldedWrites.lists_same_iff]
  constructor
  · rintro ⟨hsame, hread⟩ chan
    rw [FoldedWrites.plainly_iff]
    refine ⟨hsame chan, ?_⟩
    have hchan := hread chan
    rwa [FoldedWrites.readWrites, FoldedWrites.get?_map,
      (FoldedWrites.lists_same_iff lists writes).mpr hsame] at hchan
  · intro hplain
    have hsame (chan : String) : ¬ Overgrown (valuesTo chan writes) :=
      ((FoldedWrites.plainly_iff lists _).mp (hplain chan)).1
    refine ⟨hsame, fun chan => ?_⟩
    rw [FoldedWrites.readWrites, FoldedWrites.get?_map,
      (FoldedWrites.lists_same_iff lists writes).mpr hsame]
    exact ((FoldedWrites.plainly_iff lists _).mp (hplain chan)).2

theorem recovered_none_lost :
    ¬ ∃ decode : FoldedWrites Nat → String → List (Written Nat), ∀ lists writes chan,
        decode (FoldedWrites.mapTaskResultWrites lists writes) chan = valuesTo chan writes := by
  rintro ⟨decode, h⟩
  have hsame : FoldedWrites.mapTaskResultWrites (fun _ => []) [("m", .none), ("m", .plain 1)] =
      FoldedWrites.mapTaskResultWrites (fun _ => []) [("m", (.plain 1 : Written Nat))] := rfl
  have htwo := h (fun _ => []) [("m", .none), ("m", .plain 1)] "m"
  rw [hsame, h] at htwo
  exact absurd htwo (by decide)

end LangGraph

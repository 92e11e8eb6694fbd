import LangGraph.Pregel.Algo

namespace LangGraph

theorem append_separator_inj {α : Type} {a : α} {xs ys us vs : List α} (hu : a ∉ us)
    (hv : a ∉ vs) (h : xs ++ a :: us = ys ++ a :: vs) : xs = ys ∧ us = vs := by
  rcases List.append_eq_append_iff.mp h with ⟨as, hys, has⟩ | ⟨as, hxs, has⟩
  · cases as with
    | nil => exact ⟨by simpa using hys.symm, (List.cons.inj has).2⟩
    | cons b bs =>
      have hmem : a ∈ us := by simp [(List.cons.inj has).2]
      exact absurd hmem hu
  · cases as with
    | nil => exact ⟨by simpa using hxs, (List.cons.inj has).2.symm⟩
    | cons b bs =>
      have hmem : a ∈ vs := by simp [(List.cons.inj has).2]
      exact absurd hmem hv

theorem toList_pad (width n : Nat) :
    (pad width n).toList =
      List.replicate (width - (toString n).length) '0' ++ Nat.toDigits 10 n := by
  simp [pad]

theorem ofDigitChars_pad (width n : Nat) : Nat.ofDigitChars 10 (pad width n).toList 0 = n := by
  rw [toList_pad, Nat.ofDigitChars_append]
  simp

theorem pad_inj {width m n : Nat} (h : (pad width m).toList = (pad width n).toList) : m = n := by
  rw [← ofDigitChars_pad width m, ← ofDigitChars_pad width n, h]

theorem isDigit_of_mem_pad {width n : Nat} {c : Char} (h : c ∈ (pad width n).toList) :
    c.isDigit := by
  rw [toList_pad] at h
  rcases List.mem_append.mp h with h | h
  · rw [(List.mem_replicate.mp h).2]
    decide
  · exact Nat.isDigit_of_mem_toDigits (by decide) (by decide) h

theorem comma_not_mem_pad (width n : Nat) : ',' ∉ ' ' :: (pad width n).toList := by
  intro h
  rcases List.mem_cons.mp h with h | h
  · cases h
  · have hd := isDigit_of_mem_pad h
    simp at hd

theorem pad_ne_nil (width n : Nat) : (pad width n).toList ≠ [] := by
  rw [toList_pad]
  exact List.append_ne_nil_of_right_ne_nil _ Nat.toDigits_ne_nil

-- The paths of the tasks of a superstep: nodes, sends and calls made from a task.
inductive TaskPath : List PathPart → Prop
  | pull (name : String) : TaskPath [.str Key.pull, .str name]
  | send (idx : Nat) : TaskPath [.str Key.push, .int idx, .bool false]
  | call {parent : List PathPart} (h : TaskPath parent) (idx : Nat) :
      TaskPath [.str Key.push, .tuple parent, .int idx, .bool true]

namespace TaskPath

def text (path : List PathPart) : List Char := (taskPathStr (.tuple path)).toList

def key (path : List PathPart) : List Char := text (path.take 3)

def pullPrefix : List Char := '~' :: Key.pull.toList ++ [',', ' ']

def pushPrefix : List Char := '~' :: Key.push.toList ++ [',', ' ']

theorem text_eq (path : List PathPart) :
    text path = '~' :: [',', ' '].intercalate ((taskPathStrs path).map String.toList) := by
  simp only [text, taskPathStr, String.toList_append, String.toList_intercalate]
  rfl

theorem key_pull (name : String) :
    key [.str Key.pull, .str name] = pullPrefix ++ name.toList := by
  simp only [key, text_eq, List.take, taskPathStrs, taskPathStr, List.map,
    List.intercalate_cons_cons, List.intercalate_singleton, pullPrefix, List.cons_append,
    List.append_assoc]

theorem key_send (idx : Nat) : key [.str Key.push, .int idx, .bool false] =
    pushPrefix ++ (pad 10 idx).toList ++ ',' :: ' ' :: (pad 10 0).toList := by
  simp only [key, text_eq, List.take, taskPathStrs, taskPathStr, List.map,
    List.intercalate_cons_cons, List.intercalate_singleton, pushPrefix, List.cons_append,
    List.append_assoc, List.nil_append, Bool.toNat_false]

theorem key_call (parent : List PathPart) (idx : Nat) :
    key [.str Key.push, .tuple parent, .int idx, .bool true] =
      pushPrefix ++ text parent ++ ',' :: ' ' :: (pad 10 idx).toList := by
  simp only [key, text_eq, List.take, taskPathStrs, taskPathStr, List.map,
    List.intercalate_cons_cons, List.intercalate_singleton, pushPrefix, List.cons_append,
    List.append_assoc, List.nil_append, String.toList_append, String.toList_intercalate]
  rfl

theorem text_call (parent : List PathPart) (idx : Nat) :
    text [.str Key.push, .tuple parent, .int idx, .bool true] =
      key [.str Key.push, .tuple parent, .int idx, .bool true] ++
        ',' :: ' ' :: (pad 10 1).toList := by
  simp only [key, text_eq, List.take, taskPathStrs, taskPathStr, List.map,
    List.intercalate_cons_cons, List.intercalate_singleton, List.cons_append,
    List.append_assoc, List.nil_append, Bool.toNat_true]

theorem tilde_text (path : List PathPart) : ∃ rest, text path = '~' :: rest := by
  simp [text, taskPathStr]

theorem pull_ne_push (xs ys : List Char) : pullPrefix ++ xs ≠ pushPrefix ++ ys := by
  intro h
  have hlen : pullPrefix.length = pushPrefix.length := by decide
  have hpre : pullPrefix = pushPrefix := (List.append_inj h hlen).1
  exact absurd hpre (by decide)

theorem pad_ne_text (n : Nat) (path : List PathPart) (xs ys : List Char) :
    (pad 10 n).toList ++ xs ≠ text path ++ ys := by
  intro h
  obtain ⟨rest, htext⟩ := tilde_text path
  obtain ⟨d, ds, hpad⟩ := List.exists_cons_of_ne_nil (pad_ne_nil 10 n)
  rw [htext, hpad] at h
  have htilde : d = '~' := (List.cons.inj h).1
  have hdigit : d.isDigit := isDigit_of_mem_pad (hpad ▸ List.mem_cons_self)
  rw [htilde] at hdigit
  cases hdigit

theorem append_pad_inj {xs ys : List Char} {m n : Nat}
    (h : xs ++ ',' :: ' ' :: (pad 10 m).toList = ys ++ ',' :: ' ' :: (pad 10 n).toList) :
    xs = ys ∧ m = n := by
  obtain ⟨hleft, hright⟩ :=
    append_separator_inj (comma_not_mem_pad 10 m) (comma_not_mem_pad 10 n) h
  exact ⟨hleft, pad_inj (List.cons.inj hright).2⟩

theorem send_ne_call (i j : Nat) (parent : List PathPart) (ys : List Char) :
    key [.str Key.push, .int i, .bool false] ≠
      key [.str Key.push, .tuple parent, .int j, .bool true] ++ ys := by
  rw [key_send, key_call, List.append_assoc, List.append_assoc, List.append_assoc]
  intro h
  exact pad_ne_text i parent _ _ (List.append_cancel_left h)

-- The text of a path has its key in front, and what follows is the mark of a call.
theorem key_of_text {p q : List PathPart} (hp : TaskPath p) (hq : TaskPath q)
    (h : text p = text q) : key p = key q := by
  cases hp with
  | pull m =>
    cases hq with
    | pull n => exact h
    | send j => exact h
    | call hq j =>
      rw [text_call, key_call, List.append_assoc, List.append_assoc] at h
      exact absurd ((key_pull m).symm.trans h) (pull_ne_push _ _)
  | send i =>
    cases hq with
    | pull n => exact h
    | send j => exact h
    | call hq j =>
      rw [text_call] at h
      exact absurd h (send_ne_call i j _ _)
  | call hp i =>
    cases hq with
    | pull n =>
      rw [text_call, key_call, List.append_assoc, List.append_assoc] at h
      exact absurd ((key_pull n).symm.trans h.symm) (pull_ne_push _ _)
    | send j =>
      rw [text_call] at h
      exact absurd h.symm (send_ne_call j i _ _)
    | call hq j =>
      rw [text_call, text_call] at h
      exact List.append_cancel_right h

theorem key_inj {p q : List PathPart} (hp : TaskPath p) (hq : TaskPath q) (h : key p = key q) :
    p = q := by
  induction hp generalizing q with
  | pull m =>
    cases hq with
    | pull n =>
      rw [key_pull, key_pull] at h
      rw [String.toList_injective (List.append_cancel_left h)]
    | send j =>
      rw [key_pull, key_send, List.append_assoc] at h
      exact absurd h (pull_ne_push _ _)
    | call hq j =>
      rw [key_pull, key_call, List.append_assoc] at h
      exact absurd h (pull_ne_push _ _)
  | send i =>
    cases hq with
    | pull n =>
      rw [key_pull, key_send, List.append_assoc] at h
      exact absurd h.symm (pull_ne_push _ _)
    | send j =>
      rw [key_send, key_send] at h
      rw [pad_inj (List.append_cancel_left (List.append_cancel_right h))]
    | call hq j =>
      exact absurd (h.trans (List.append_nil _).symm) (send_ne_call i j _ [])
  | call hp i ih =>
    cases hq with
    | pull n =>
      rw [key_pull, key_call, List.append_assoc] at h
      exact absurd h.symm (pull_ne_push _ _)
    | send j =>
      exact absurd (h.symm.trans (List.append_nil _).symm) (send_ne_call j i _ [])
    | call hq j =>
      rw [key_call, key_call] at h
      obtain ⟨htext, rfl⟩ := append_pad_inj h
      rw [ih hq (key_of_text hp hq (List.append_cancel_left htext))]

end TaskPath

theorem sortKey_inj {s t : PregelTaskWrites} (hs : TaskPath s.path) (ht : TaskPath t.path)
    (h : s.sortKey = t.sortKey) : s.path = t.path :=
  TaskPath.key_inj hs ht (congrArg String.toList h)

end LangGraph

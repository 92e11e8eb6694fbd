import LangGraph.Pregel.ExitTaskIds

namespace LangGraph

open Collections

namespace Versions

inductive Version where
  | int (v : Nat)
  | str (v : String)

-- `int`, on digits.
def readInt (cs : List Char) : Option Nat :=
  if cs ≠ [] ∧ cs.all Char.isDigit then some (Nat.ofDigitChars 10 cs 0) else none

def written (v : Nat) (nextH : String) : String := pad 32 v ++ "." ++ nextH

-- `nextH` is the random number that is drawn, as it is written.
def getNextVersion (nextH : String) : Option Version → Option String
  | none => some (written 1 nextH)
  | some (.int v) => some (written (v + 1) nextH)
  | some (.str s) => (readInt (s.toList.takeWhile (· ≠ '.'))).map (fun v => written (v + 1) nextH)

def versionsFrom : Option Version → List String → Option (List String)
  | _, [] => some []
  | current, nextH :: nextHs =>
      (getNextVersion nextH current).bind (fun s =>
        (versionsFrom (some (.str s)) nextHs).map (s :: ·))

theorem readInt_written (v : Nat) (nextH : String) :
    readInt ((written v nextH).toList.takeWhile (· ≠ '.')) = some v := by
  have hdigits : ∀ c ∈ (pad 32 v).toList, c.isDigit = true := fun c hc => isDigit_of_mem_pad hc
  have hdot : ∀ c ∈ (pad 32 v).toList, decide (c ≠ '.') = true := by
    intro c hc
    refine decide_eq_true ?_
    rintro rfl
    exact absurd (hdigits '.' hc) (by decide)
  have htake : (written v nextH).toList.takeWhile (· ≠ '.') = (pad 32 v).toList := by
    rw [written, String.toList_append, String.toList_append, List.append_assoc,
      List.takeWhile_append_of_pos hdot]
    exact List.append_nil _
  rw [htake, readInt, if_pos ⟨pad_ne_nil 32 v, List.all_eq_true.mpr hdigits⟩, ofDigitChars_pad]

theorem written_lt {v w : Nat} (h : v < w) (hw : w < 10 ^ 32) (nextH nextH' : String) :
    written v nextH < written w nextH' := by
  have hdigits : (pad 32 v).toList < (pad 32 w).toList := by
    rw [ExitTaskIds.pad_of_lt (h.trans hw), ExitTaskIds.pad_of_lt hw]
    refine map_lt_map (fun d _ e he hlt => ?_) (Digits.digits_lt h hw)
    exact hexDigit_lt e ((Digits.lt_of_mem_digits (by decide) he).trans (by decide)) d hlt
  have hlength : (pad 32 v).toList.length = (pad 32 w).toList.length := by
    rw [ExitTaskIds.pad_of_lt (h.trans hw), ExitTaskIds.pad_of_lt hw, List.length_map,
      List.length_map, Digits.length_digits, Digits.length_digits]
  rw [String.lt_iff_toList_lt, written, written, String.toList_append, String.toList_append,
    String.toList_append, String.toList_append, List.append_assoc, List.append_assoc]
  exact append_lt_append hdigits hlength

theorem versionsFrom_above {current : Option Version} {v : Nat}
    (hcurrent : ∀ nextH, getNextVersion nextH current = some (written (v + 1) nextH))
    {nextHs : List String} (h : v + nextHs.length < 10 ^ 32) :
    ∃ versions, versionsFrom current nextHs = some versions ∧ versions.length = nextHs.length ∧
      (∀ s ∈ versions, ∀ nextH, written v nextH < s) ∧ versions.Pairwise (· < ·) := by
  induction nextHs generalizing current v with
  | nil => exact ⟨[], rfl, rfl, fun s hs => (by cases hs), List.Pairwise.nil⟩
  | cons nextH nextHs ih =>
    rw [List.length_cons] at h
    have hread (nextH' : String) : getNextVersion nextH' (some (.str (written (v + 1) nextH))) =
        some (written (v + 1 + 1) nextH') := by
      rw [getNextVersion, readInt_written, Option.map_some]
    obtain ⟨versions, heq, hlength, habove, hpairwise⟩ := ih hread (by omega)
    have hfirst (nextH' : String) : written v nextH' < written (v + 1) nextH :=
      written_lt (Nat.lt_succ_self v) (by omega) nextH' nextH
    refine ⟨written (v + 1) nextH :: versions, ?_, ?_, ?_, ?_⟩
    · rw [versionsFrom, hcurrent, Option.bind_some, heq, Option.map_some]
    · rw [List.length_cons, List.length_cons, hlength]
    · exact List.forall_mem_cons.mpr ⟨hfirst, fun s hs nextH' =>
        String.lt_trans (hfirst nextH') (habove s hs nextH)⟩
    · exact List.pairwise_cons.mpr ⟨fun s hs => habove s hs nextH, hpairwise⟩

-- Whatever the random parts, the versions drawn from none or from an integer of an older saver
-- grow as strings while the count has 32 digits.
theorem versions_increase (start : Option Nat) (nextHs : List String)
    (h : start.getD 0 + nextHs.length < 10 ^ 32) :
    ∃ versions, versionsFrom (start.map .int) nextHs = some versions ∧
      versions.length = nextHs.length ∧ versions.Pairwise (· < ·) := by
  have hstart (nextH : String) :
      getNextVersion nextH (start.map .int) = some (written (start.getD 0 + 1) nextH) := by
    cases start <;> rfl
  obtain ⟨versions, heq, hlength, -, hpairwise⟩ := versionsFrom_above hstart h
  exact ⟨versions, heq, hlength, hpairwise⟩

theorem versions_increase_three :
    ∃ versions, versionsFrom ((some 9).map .int) ["0.9", "0.25", "1e-05"] = some versions ∧
      versions.length = 3 ∧ versions.Pairwise (· < ·) :=
  versions_increase (some 9) ["0.9", "0.25", "1e-05"] (by decide)

end Versions

end LangGraph

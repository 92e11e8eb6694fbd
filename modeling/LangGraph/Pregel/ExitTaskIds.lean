import LangGraph.Checkpoint.Ids
import LangGraph.Pregel.Checkpoint
import LangGraph.Pregel.TaskPath

namespace LangGraph

open Collections

namespace UUID

def hexValue (c : Char) : Option Nat :=
  if '0' ≤ c ∧ c ≤ '9' then some (c.toNat - 48)
  else if 'a' ≤ c ∧ c ≤ 'f' then some (c.toNat - 87)
  else if 'A' ≤ c ∧ c ≤ 'F' then some (c.toNat - 55)
  else none

-- `text.replace(pattern, "")`. The number says how many characters of a match are still to go.
def removed (pattern : List Char) : Nat → List Char → List Char
  | _, [] => []
  | n + 1, _ :: cs => removed pattern n cs
  | 0, c :: cs =>
      if pattern.isPrefixOf (c :: cs) then removed pattern (pattern.length - 1) cs
      else c :: removed pattern 0 cs

def stripped (braces cs : List Char) : List Char :=
  ((cs.dropWhile (fun c => decide (c ∈ braces))).reverse.dropWhile
    (fun c => decide (c ∈ braces))).reverse

def hexText (hex : String) : List Char :=
  (stripped "{}".toList
    (removed "uuid:".toList 0 (removed "urn:".toList 0 hex.toList))).filter (fun c => c ≠ '-')

-- `uuid.UUID(hex)`
def ofHex (hex : String) : Except String UUID :=
  if (hexText hex).length = 32 then
    match (hexText hex).mapM hexValue with
    | some ds => ofInt (Digits.value 16 ds) none
    | none =>
        .error ("invalid literal for int() with base 16: '" ++ String.ofList (hexText hex) ++ "'")
  else .error "badly formed hexadecimal UUID string"

end UUID

namespace ExitTaskIds

def exitDeltaTaskId (step : Int) (taskId : String) : Except String String :=
  (UUID.ofHex taskId).map (fun u => LangGraph.exitDeltaTaskId step u.str)

def Valid (s : String) : Prop := ∃ u, UUID.ofHex s = .ok u

def Ordered (r r' : Except String String) : Prop :=
  ∃ id id', r = .ok id ∧ r' = .ok id' ∧ Valid id ∧ Valid id' ∧ id < id'

section Text

-- What stands in a UUID: digits of base 16 and hyphens.
def HexText (cs : List Char) : Prop := ∀ c ∈ cs, c = '-' ∨ ∃ d < 16, c = UUID.hexDigit d

variable {cs cs' : List Char}

theorem HexText.append (h : HexText cs) (h' : HexText cs') : HexText (cs ++ cs') := by
  intro c hc
  rcases List.mem_append.mp hc with hc | hc
  · exact h c hc
  · exact h' c hc

theorem hexText_digits {ds : List Nat} (h : ∀ d ∈ ds, d < 16) :
    HexText (ds.map UUID.hexDigit) := by
  intro c hc
  obtain ⟨d, hd, rfl⟩ := List.mem_map.mp hc
  exact Or.inr ⟨d, h d hd, rfl⟩

theorem hexText_dashed (ks : List Nat) (h : HexText cs) : HexText (UUID.dashed ks cs) := by
  induction ks generalizing cs with
  | nil => exact h
  | cons k ks ih =>
    intro c hc
    rcases List.mem_append.mp hc with hc | hc
    · exact h c (List.mem_of_mem_take hc)
    · rcases List.mem_cons.mp hc with rfl | hc
      · exact Or.inl rfl
      · exact ih (fun c hc => h c (List.mem_of_mem_drop hc)) c hc

theorem HexText.not_mem (h : HexText cs) {x : Char} (hhyphen : x ≠ '-')
    (hx : ∀ d < 16, x ≠ UUID.hexDigit d) : x ∉ cs := by
  intro hmem
  rcases h x hmem with rfl | ⟨d, hd, rfl⟩
  · exact hhyphen rfl
  · exact hx d hd rfl

theorem removed_of_not_mem {x : Char} {pattern : List Char} (h : x ∉ cs) :
    UUID.removed (x :: pattern) 0 cs = cs := by
  induction cs with
  | nil => rfl
  | cons c cs ih =>
    have hne : x ≠ c := fun heq => h (heq ▸ List.mem_cons_self)
    have hno : (x :: pattern).isPrefixOf (c :: cs) = false := by
      simp [List.isPrefixOf, hne]
    rw [UUID.removed, hno, ih (fun hmem => h (List.mem_cons_of_mem _ hmem))]
    rfl

theorem dropWhile_of_none {p : Char → Bool} (h : ∀ c ∈ cs, p c = false) : cs.dropWhile p = cs := by
  cases cs with
  | nil => rfl
  | cons c cs => rw [List.dropWhile_cons_of_neg (by simp [h c List.mem_cons_self])]

theorem stripped_of_none {braces : List Char} (h : ∀ c ∈ cs, c ∉ braces) :
    UUID.stripped braces cs = cs := by
  rw [UUID.stripped, dropWhile_of_none (fun c hc => decide_eq_false (h c hc)),
    dropWhile_of_none (fun c hc => decide_eq_false (h c (List.mem_reverse.mp hc))),
    List.reverse_reverse]

theorem HexText.hexText (h : HexText cs) :
    UUID.hexText (String.ofList cs) = cs.filter (fun c => c ≠ '-') := by
  have hu : 'u' ∉ cs := h.not_mem (by decide) (by decide)
  have hbraces : ∀ c ∈ cs, c ∉ "{}".toList := by
    intro c hc hbrace
    have hcases : c = '{' ∨ c = '}' := by simpa using hbrace
    rcases hcases with rfl | rfl
    · exact h.not_mem (by decide) (by decide) hc
    · exact h.not_mem (by decide) (by decide) hc
  have hurn : UUID.removed "urn:".toList 0 cs = cs := removed_of_not_mem hu
  have huuid : UUID.removed "uuid:".toList 0 cs = cs := removed_of_not_mem hu
  have htext : (String.ofList cs).toList = cs := String.toList_ofList
  rw [UUID.hexText, htext, hurn, huuid, stripped_of_none hbraces]

theorem filter_digits {ds : List Nat} (h : ∀ d ∈ ds, d < 16) :
    (ds.map UUID.hexDigit).filter (fun c => c ≠ '-') = ds.map UUID.hexDigit := by
  refine List.filter_eq_self.mpr (fun c hc => ?_)
  obtain ⟨d, hd, rfl⟩ := List.mem_map.mp hc
  have hne : ∀ d < 16, decide (UUID.hexDigit d ≠ '-') = true := by decide
  exact hne d (h d hd)

theorem filter_dashed (ks : List Nat) (cs : List Char) :
    (UUID.dashed ks cs).filter (fun c => c ≠ '-') = cs.filter (fun c => c ≠ '-') := by
  induction ks generalizing cs with
  | nil => rfl
  | cons k ks ih =>
    rw [UUID.dashed, List.filter_append, List.filter_cons_of_neg (by decide), ih,
      ← List.filter_append, List.take_append_drop]

theorem dashed_inj (ks : List Nat) (hlength : cs.length = cs'.length)
    (h : UUID.dashed ks cs = UUID.dashed ks cs') : cs = cs' := by
  induction ks generalizing cs cs' with
  | nil => exact h
  | cons k ks ih =>
    have htaken : (cs.take k).length = (cs'.take k).length := by
      rw [List.length_take, List.length_take, hlength]
    obtain ⟨htake, hrest⟩ := List.append_inj h htaken
    have hdrop : cs.drop k = cs'.drop k :=
      ih (by rw [List.length_drop, List.length_drop, hlength]) (List.cons.inj hrest).2
    rw [← List.take_append_drop k cs, htake, hdrop, List.take_append_drop]

theorem mapM_hexValue {ds : List Nat} (h : ∀ d ∈ ds, d < 16) :
    (ds.map UUID.hexDigit).mapM UUID.hexValue = some ds := by
  induction ds with
  | nil => rfl
  | cons d ds ih =>
    have hvalue : ∀ d < 16, UUID.hexValue (UUID.hexDigit d) = some d := by decide
    rw [List.map_cons, List.mapM_cons, hvalue d (h d List.mem_cons_self),
      ih (fun e he => h e (List.mem_cons_of_mem _ he))]
    rfl

theorem hexDigit_injective {ds ds' : List Nat} (h : ∀ d ∈ ds, d < 16) (h' : ∀ d ∈ ds', d < 16)
    (heq : ds.map UUID.hexDigit = ds'.map UUID.hexDigit) : ds = ds' := by
  have hvalues := mapM_hexValue h
  rw [heq, mapM_hexValue h'] at hvalues
  exact (Option.some.inj hvalues).symm

end Text

section Parsed

variable {cs : List Char} {ds : List Nat}

theorem not_valid (h : HexText cs) (hlength : (cs.filter (fun c => c ≠ '-')).length ≠ 32) :
    ¬ Valid (String.ofList cs) := by
  rintro ⟨u, hu⟩
  rw [UUID.ofHex, h.hexText, if_neg hlength] at hu
  cases hu

theorem ofHex_eq (h : HexText cs) (hds : ∀ d ∈ ds, d < 16) (hlength : ds.length = 32)
    (hdigits : cs.filter (fun c => c ≠ '-') = ds.map UUID.hexDigit) :
    UUID.ofHex (String.ofList cs) = UUID.ofInt (Digits.value 16 ds) none := by
  rw [UUID.ofHex, h.hexText, hdigits, List.length_map, if_pos hlength, mapM_hexValue hds]

theorem ofInt_of_lt {n : Nat} (h : n < 2 ^ 128) : UUID.ofInt n none = .ok ⟨n, h⟩ := by
  rw [UUID.ofInt, dif_pos h]

theorem valid_of_digits (h : HexText cs) (hds : ∀ d ∈ ds, d < 16) (hlength : ds.length = 32)
    (hdigits : cs.filter (fun c => c ≠ '-') = ds.map UUID.hexDigit) :
    Valid (String.ofList cs) := by
  have hvalue : Digits.value 16 ds < 2 ^ 128 := by
    have hlt := Digits.value_lt hds
    rw [hlength] at hlt
    exact lt_of_lt_of_le hlt (by decide)
  exact ⟨_, (ofHex_eq h hds hlength hdigits).trans (ofInt_of_lt hvalue)⟩

theorem digits_lt_sixteen {k n : Nat} : ∀ d ∈ Digits.digits 16 k n, d < 16 :=
  fun _ hd => Digits.lt_of_mem_digits (by decide) hd

theorem ofHex_str (u : UUID) : UUID.ofHex u.str = .ok u := by
  have htext := hexText_dashed [8, 4, 4, 4] (hexText_digits (@digits_lt_sixteen 32 u.int))
  have hdigits := (filter_dashed [8, 4, 4, 4] ((Digits.digits 16 32 u.int).map UUID.hexDigit)).trans
    (filter_digits digits_lt_sixteen)
  have hvalue : Digits.value 16 (Digits.digits 16 32 u.int) = u.int := by
    rw [Digits.value_digits]
    exact Nat.mod_eq_of_lt (lt_of_lt_of_le u.bounded (by decide))
  rw [UUID.str, ofHex_eq htext digits_lt_sixteen (Digits.length_digits 16 32 u.int) hdigits,
    hvalue, ofInt_of_lt u.bounded]

end Parsed

section Field

def field (step : Int) : List Char :=
  if step < 0 then '-' :: (pad 7 step.natAbs).toList else (pad 8 step.natAbs).toList

def tail (u : UUID) : List Char :=
  '-' :: UUID.dashed [4, 4, 4] ((Digits.digits 16 24 u.int).map UUID.hexDigit)

theorem drop_str (u : UUID) : u.str.toList.drop 8 = tail u := by
  have hlength : (((Digits.digits 16 32 u.int).map UUID.hexDigit).take 8).length = 8 := by
    rw [List.length_take, List.length_map, Digits.length_digits]
    rfl
  rw [UUID.str, String.toList_ofList, UUID.dashed, List.drop_left' hlength, ← List.map_drop,
    Digits.drop_digits 16 24 8, tail]

theorem exitDeltaTaskId_str (step : Int) (u : UUID) :
    exitDeltaTaskId step u.str = .ok (String.ofList (field step ++ tail u)) := by
  rw [exitDeltaTaskId, ofHex_str, Except.map, LangGraph.exitDeltaTaskId, drop_str]
  refine congrArg Except.ok (String.toList_inj.mp ?_)
  rw [String.toList_append, String.toList_ofList, String.toList_ofList, field]
  split_ifs
  · rw [String.toList_append]
    rfl
  · rfl

theorem digitChar_eq : ∀ d < 10, Nat.digitChar d = UUID.hexDigit d := by decide

theorem length_toString (n : Nat) : (toString n).length = (Nat.toDigits 10 n).length := by
  rw [Nat.toString_eq_ofList_toDigits, String.length_ofList]

theorem pad_of_lt {k n : Nat} (h : n < 10 ^ (k + 1)) :
    (pad (k + 1) n).toList = (Digits.digits 10 (k + 1) n).map UUID.hexDigit := by
  induction k generalizing n with
  | zero =>
    have hn : n < 10 := by simpa using h
    rw [toList_pad, Nat.toDigits_of_lt_base hn, digitChar_eq n hn]
    have hone : 0 + 1 - (toString n).length = 0 := by
      have hpos : 0 < (Nat.toDigits 10 n).length := Nat.length_toDigits_pos
      rw [length_toString]
      omega
    rw [hone]
    simp [Digits.digits, Nat.mod_eq_of_lt hn]
  | succ k ih =>
    have hquotient : n / 10 < 10 ^ (k + 1) := by
      rw [Nat.pow_succ] at h
      omega
    have hlast : n % 10 < 10 := Nat.mod_lt _ (by decide)
    rw [Digits.digits_concat, List.map_append, ← ih hquotient, List.map_singleton,
      ← digitChar_eq _ hlast, toList_pad, toList_pad]
    rw [length_toString, length_toString, List.append_assoc]
    rcases Nat.lt_or_ge n 10 with hsmall | hlarge
    · have hzero : n / 10 = 0 := Nat.div_eq_of_lt hsmall
      have hzeros : List.replicate (k + 1) '0' = List.replicate k '0' ++ ['0'] :=
        List.replicate_succ'
      rw [hzero, Nat.toDigits_zero, Nat.toDigits_of_lt_base hsmall, Nat.mod_eq_of_lt hsmall]
      simp [hzeros]
    · rw [Nat.toDigits_of_base_le (by decide) hlarge, List.length_append, List.length_singleton]
      have hwidth : k + 1 + 1 - ((Nat.toDigits 10 (n / 10)).length + 1) =
          k + 1 - (Nat.toDigits 10 (n / 10)).length := by omega
      rw [hwidth]

theorem length_pad (k n : Nat) : (pad k n).toList.length = max k (Nat.toDigits 10 n).length := by
  rw [toList_pad, List.length_append, List.length_replicate, length_toString]
  omega

theorem hexText_pad (k n : Nat) : HexText (pad k n).toList := by
  intro c hc
  have hdigit : 48 ≤ c.toNat ∧ c.toNat ≤ 57 := Char.isDigit_iff_toNat.mp (isDigit_of_mem_pad hc)
  refine Or.inr ⟨c.toNat - 48, by omega, ?_⟩
  have hlow : c.toNat - 48 < 10 := by omega
  have hsame : 48 + (c.toNat - 48) = c.toNat := by omega
  rw [UUID.hexDigit, if_pos hlow, hsame, Char.ofNat_toNat]

theorem filter_pad (k n : Nat) :
    (pad k n).toList.filter (fun c => c ≠ '-') = (pad k n).toList := by
  refine List.filter_eq_self.mpr (fun c hc => decide_eq_true ?_)
  rintro rfl
  have hdigit := isDigit_of_mem_pad hc
  simp at hdigit

theorem hexText_tail (u : UUID) : HexText (tail u) := by
  intro c hc
  rcases List.mem_cons.mp hc with rfl | hc
  · exact Or.inl rfl
  · exact hexText_dashed [4, 4, 4] (hexText_digits digits_lt_sixteen) c hc

theorem filter_tail (u : UUID) :
    (tail u).filter (fun c => c ≠ '-') = (Digits.digits 16 24 u.int).map UUID.hexDigit := by
  rw [tail, List.filter_cons_of_neg (by decide), filter_dashed, filter_digits digits_lt_sixteen]

end Field

section Order

variable {s t : Int}

theorem hexText_field (s : Int) : HexText (field s) := by
  rw [field]
  split_ifs
  · intro c hc
    rcases List.mem_cons.mp hc with rfl | hc
    · exact Or.inl rfl
    · exact hexText_pad 7 _ c hc
  · exact hexText_pad 8 _

theorem field_of_nonneg (h : 0 ≤ s) : field s = (pad 8 s.toNat).toList := by
  rw [field, if_neg (not_lt.mpr h)]
  have hsame : s.natAbs = s.toNat := by omega
  rw [hsame]

theorem field_of_lt (h : 0 ≤ s) (hlt : s < 10 ^ 8) :
    field s = (Digits.digits 10 8 s.toNat).map UUID.hexDigit := by
  rw [field_of_nonneg h]
  exact pad_of_lt (by omega)

-- The eight places are filled by the steps from 0 on, as long as they have eight digits.
theorem length_field_eq (h : -1 ≤ s) :
    ((field s).filter (fun c => c ≠ '-')).length = 8 ↔ 0 ≤ s ∧ s < 10 ^ 8 := by
  rcases Int.lt_or_le s 0 with hneg | hpos
  · obtain rfl : s = -1 := by omega
    decide
  · rw [field_of_nonneg hpos, filter_pad, length_pad]
    have hdigits : (Nat.toDigits 10 s.toNat).length ≤ 8 ↔ s.toNat < 10 ^ 8 :=
      Nat.length_toDigits_le_iff (by decide) (by decide)
    omega

theorem valid_iff (h : -1 ≤ s) (u : UUID) :
    Valid (String.ofList (field s ++ tail u)) ↔ 0 ≤ s ∧ s < 10 ^ 8 := by
  have htext : HexText (field s ++ tail u) := (hexText_field s).append (hexText_tail u)
  constructor
  · intro hvalid
    refine (length_field_eq h).mp ?_
    by_contra hne
    refine not_valid htext ?_ hvalid
    rw [List.filter_append, filter_tail, List.length_append, List.length_map,
      Digits.length_digits]
    omega
  · rintro ⟨hpos, hlt⟩
    have hten : ∀ d ∈ Digits.digits 10 8 s.toNat, d < 16 := by
      intro d hd
      exact lt_trans (Digits.lt_of_mem_digits (by decide) hd) (by decide)
    refine @valid_of_digits _ (Digits.digits 10 8 s.toNat ++ Digits.digits 16 24 u.int) htext
      ?_ ?_ ?_
    · intro d hd
      rcases List.mem_append.mp hd with hd | hd
      · exact hten d hd
      · exact digits_lt_sixteen d hd
    · rw [List.length_append, Digits.length_digits, Digits.length_digits]
    · rw [List.filter_append, filter_tail, field_of_lt hpos hlt, filter_digits hten,
        List.map_append]

theorem field_lt_field (hs : 0 ≤ s) (hst : s < t) (ht : t < 10 ^ 8) : field s < field t := by
  rw [field_of_lt hs (hst.trans ht), field_of_lt (hs.trans hst.le) ht]
  have hdigits : Digits.digits 10 8 s.toNat < Digits.digits 10 8 t.toNat :=
    Digits.digits_lt (by omega) (by omega)
  refine map_lt_map (fun d _ e he hlt => ?_) hdigits
  exact hexDigit_lt e (lt_trans (Digits.lt_of_mem_digits (by decide) he) (by decide)) d hlt

theorem ordered_iff (hs : -1 ≤ s) (hst : s < t) (a b : UUID) :
    Ordered (exitDeltaTaskId s a.str) (exitDeltaTaskId t b.str) ↔ 0 ≤ s ∧ t < 10 ^ 8 := by
  rw [exitDeltaTaskId_str, exitDeltaTaskId_str]
  constructor
  · rintro ⟨id, id', h, h', hvalid, hvalid', -⟩
    obtain rfl := Except.ok.inj h
    obtain rfl := Except.ok.inj h'
    exact ⟨((valid_iff hs a).mp hvalid).1, ((valid_iff (by omega) b).mp hvalid').2⟩
  · rintro ⟨hpos, hlt⟩
    refine ⟨_, _, rfl, rfl, (valid_iff hs a).mpr ⟨hpos, hst.trans hlt⟩,
      (valid_iff (by omega) b).mpr ⟨hpos.trans hst.le, hlt⟩, ?_⟩
    rw [String.lt_iff_toList_lt, String.toList_ofList, String.toList_ofList]
    refine append_lt_append (field_lt_field hpos hst hlt) ?_
    rw [field_of_lt hpos (hst.trans hlt), field_of_lt (hpos.trans hst.le) hlt, List.length_map,
      List.length_map, Digits.length_digits, Digits.length_digits]

-- Of a task id, the first of its five groups is lost.
theorem exitDeltaTaskId_inj (s : Int) (a b : UUID) :
    exitDeltaTaskId s a.str = exitDeltaTaskId s b.str ↔ a.int % 2 ^ 96 = b.int % 2 ^ 96 := by
  rw [exitDeltaTaskId_str, exitDeltaTaskId_str]
  have hpow : (16 : Nat) ^ 24 = 2 ^ 96 := by decide
  constructor
  · intro h
    have hchars := String.toList_inj.mpr (Except.ok.inj h)
    rw [String.toList_ofList, String.toList_ofList] at hchars
    have htail := (List.cons.inj (List.append_cancel_left hchars)).2
    have hdigits := dashed_inj [4, 4, 4] (by
      rw [List.length_map, List.length_map, Digits.length_digits, Digits.length_digits]) htail
    rw [← hpow]
    exact Digits.digits_inj (hexDigit_injective digits_lt_sixteen digits_lt_sixteen hdigits)
  · intro h
    have hdigits : Digits.digits 16 24 a.int = Digits.digits 16 24 b.int := by
      rw [← Digits.digits_mod 16 24 0 a.int, ← Digits.digits_mod 16 24 0 b.int, Nat.add_zero,
        hpow, h]
    rw [tail, tail, hdigits]

end Order

theorem exit_delta_task_id_iff {s t : Int} (hs : -1 ≤ s) (hst : s < t) (a b c : UUID) :
    (Ordered (exitDeltaTaskId s a.str) (exitDeltaTaskId t b.str) ↔ 0 ≤ s ∧ t < 10 ^ 8) ∧
      (exitDeltaTaskId s a.str ≠ exitDeltaTaskId s c.str ↔
        a.int % 2 ^ 96 ≠ c.int % 2 ^ 96) :=
  ⟨ordered_iff hs hst a b, (exitDeltaTaskId_inj s a c).not⟩

theorem first_steps_ordered :
    let taskId : UUID := ⟨0x4f7226e40270bf161ef8fb321bef9f3d, by decide⟩
    let nullTaskId : UUID := ⟨0, by decide⟩
    Ordered (exitDeltaTaskId 1 taskId.str) (exitDeltaTaskId 7 taskId.str) ∧
      exitDeltaTaskId 1 taskId.str ≠ exitDeltaTaskId 1 nullTaskId.str := by
  intro taskId nullTaskId
  have h := exit_delta_task_id_iff (s := 1) (t := 7) (by omega) (by omega) taskId taskId nullTaskId
  refine ⟨h.1.mpr (by omega), h.2.mpr ?_⟩
  have hne : 0x4f7226e40270bf161ef8fb321bef9f3d % 2 ^ 96 ≠ 0 % 2 ^ 96 := by norm_num
  exact hne

theorem input_step_not_a_uuid :
    let nullTaskId : UUID := ⟨0, by decide⟩
    let taskId : UUID := ⟨2 ^ 96, by decide⟩
    exitDeltaTaskId (-1) nullTaskId.str = .ok "-0000001-0000-0000-0000-000000000000" ∧
      ¬ Valid "-0000001-0000-0000-0000-000000000000" ∧
      exitDeltaTaskId 3 nullTaskId.str = exitDeltaTaskId 3 taskId.str := by
  intro nullTaskId taskId
  have htext : String.ofList (field (-1) ++ tail nullTaskId) =
      "-0000001-0000-0000-0000-000000000000" := by
    decide
  have hcollide : 0 % 2 ^ 96 = 2 ^ 96 % 2 ^ 96 := by norm_num
  refine ⟨(exitDeltaTaskId_str (-1) nullTaskId).trans (congrArg Except.ok htext), ?_,
    (exitDeltaTaskId_inj 3 nullTaskId taskId).mpr hcollide⟩
  rw [← htext, valid_iff (by omega)]
  omega

end ExitTaskIds

end LangGraph

import LangGraph.Checkpoint.Memory
import LangGraph.Collections.Digits
import Mathlib.Data.Nat.Bitwise

namespace LangGraph

open Collections

-- The 128 bits of a UUID.
structure UUID where
  int : Nat
  bounded : int < 2 ^ 128

namespace UUID

section Init

theorem ldiff_lt {m n k : Nat} (h : m < 2 ^ k) : Nat.ldiff m n < 2 ^ k := by
  refine Nat.lt_pow_two_of_testBit _ (fun i hi => ?_)
  rw [Nat.testBit_ldiff, Nat.testBit_lt_two_pow (lt_of_lt_of_le h (Nat.pow_le_pow_right (by decide) hi))]
  rfl

def setVariant (int : Nat) : Nat := Nat.ldiff int (0xC000 <<< 48) ||| 0x8000 <<< 48

def setVersion (int version : Nat) : Nat := Nat.ldiff int (0xF000 <<< 64) ||| version <<< 76

theorem setVariant_lt {int : Nat} (h : int < 2 ^ 128) : setVariant int < 2 ^ 128 :=
  Nat.or_lt_two_pow (ldiff_lt h) (by decide)

theorem setVersion_lt {int version : Nat} (h : int < 2 ^ 128) (hv : version ≤ 8) :
    setVersion int version < 2 ^ 128 := by
  refine Nat.or_lt_two_pow (ldiff_lt h) ?_
  rw [Nat.shiftLeft_eq]
  omega

def ofInt (int : Nat) (version : Option Nat) : Except String UUID :=
  if h : int < 2 ^ 128 then
    match version with
    | none => .ok ⟨int, h⟩
    | some v =>
        if hv : 6 ≤ v ∧ v ≤ 8 then
          .ok ⟨setVersion (setVariant int) v, setVersion_lt (setVariant_lt h) hv.2⟩
        else .error "illegal version number"
  else .error "int is out of range (need a 128-bit value)"

end Init

variable (u : UUID)

def timeLow : Nat := u.int >>> 96

def timeMid : Nat := (u.int >>> 80) &&& 0xffff

def timeHiVersion : Nat := (u.int >>> 64) &&& 0xffff

-- The version is only read where the variant is the one of RFC 4122.
def version : Option Nat :=
  if u.int &&& (0x8000 <<< 48) ≠ 0 ∧ u.int &&& (0x4000 <<< 48) = 0 then
    some ((u.int >>> 76) &&& 0xf)
  else none

def subsec : Nat := ((u.int >>> 64) &&& 0x0FFF) <<< 8 ||| ((u.int >>> 54) &&& 0xFF)

def subsecDecode (value : Int) : Int := -(-value * 10 ^ 6 / 2 ^ 20)

def time : Int :=
  if u.version = some 6 then
    (u.timeLow <<< 28 ||| u.timeMid <<< 12 ||| (u.timeHiVersion &&& 0x0FFF) : Nat)
  else if u.version = some 7 then (u.int >>> 80 : Nat)
  else if u.version = some 8 then (u.int >>> 80 : Nat) * 10 ^ 6 + subsecDecode u.subsec
  else ((u.timeHiVersion &&& 0x0fff) <<< 48 ||| u.timeMid <<< 32 ||| u.timeLow : Nat)

def hexDigit (d : Nat) : Char := if d < 10 then Char.ofNat (48 + d) else Char.ofNat (87 + d)

-- `%032x`, cut after 8, 4, 4 and 4 digits.
def dashed : List Nat → List Char → List Char
  | [], cs => cs
  | k :: ks, cs => cs.take k ++ '-' :: dashed ks (cs.drop k)

def str : String := String.ofList (dashed [8, 4, 4, 4] ((Digits.digits 16 32 u.int).map hexDigit))

end UUID

-- Python's `&` of an int of any sign with `2 ^ k - 1`.
def lowBits (k : Nat) (v : Int) : Nat := (v % 2 ^ k).toNat

def uuidEpoch : Int := 0x01B21DD213814000

-- One call: what `time.time_ns` reads, the arguments, and what `getrandbits` gives in their place.
structure Uuid6Call where
  nanoseconds : Int64
  node : Option Int
  clockSeq : Option Int
  randomNode : Int
  randomClockSeq : Int

def nextTimestamp (last : Option Int) (nanoseconds : Int64) : Int :=
  let timestamp := nanoseconds.toInt / 100 + uuidEpoch
  match last with
  | some l => if timestamp ≤ l then l + 1 else timestamp
  | none => timestamp

def uuidInt (timestamp node clockSeq : Int) : Nat :=
  lowBits 48 (timestamp / 2 ^ 12) <<< 80 ||| lowBits 12 timestamp <<< 64 |||
    lowBits 14 clockSeq <<< 48 ||| lowBits 48 node

-- The timestamp that is remembered for the next call, and the id.
def uuid6 (last : Option Int) (call : Uuid6Call) : Int × Except String UUID :=
  let timestamp := nextTimestamp last call.nanoseconds
  let clockSeq := call.clockSeq.getD call.randomClockSeq
  let node := call.node.getD call.randomNode
  (timestamp, UUID.ofInt (uuidInt timestamp node clockSeq) (some 6))

-- Calls made one after the other in one process.
def uuid6s : Option Int → List Uuid6Call → List (Int × Except String UUID)
  | _, [] => []
  | last, call :: calls => uuid6 last call :: uuid6s (some (uuid6 last call).1) calls

section Layout

theorem lowBits_lt (k : Nat) (v : Int) : lowBits k v < 2 ^ k := by
  have hpos : (0 : Int) < 2 ^ k := Int.pow_pos (by decide)
  refine (Int.toNat_lt (Int.emod_nonneg v hpos.ne')).mpr ?_
  push_cast
  exact Int.emod_lt_of_pos v hpos

theorem shiftLeft_eq (a p : Nat) : a <<< p = 2 ^ p * a := by
  rw [Nat.shiftLeft_eq, Nat.mul_comm]

-- The bits below the version, and below the variant.
theorem fields_lt (timestamp node clockSeq : Int) :
    2 ^ 48 * lowBits 14 clockSeq + lowBits 48 node < 2 ^ 62 ∧
      2 ^ 64 * lowBits 12 timestamp + (2 ^ 48 * lowBits 14 clockSeq + lowBits 48 node) < 2 ^ 76 := by
  have hseq := field_lt (lowBits_lt 48 node) (lowBits_lt 14 clockSeq)
  exact ⟨hseq, field_lt (p := 64) (lt_of_lt_of_le hseq (by decide)) (lowBits_lt 12 timestamp)⟩

theorem uuidInt_eq (timestamp node clockSeq : Int) : uuidInt timestamp node clockSeq =
    2 ^ 80 * lowBits 48 (timestamp / 2 ^ 12) + (2 ^ 64 * lowBits 12 timestamp +
      (2 ^ 48 * lowBits 14 clockSeq + lowBits 48 node)) := by
  obtain ⟨hseq, hlow⟩ := fields_lt timestamp node clockSeq
  rw [uuidInt, Nat.or_assoc, Nat.or_assoc, shiftLeft_eq, shiftLeft_eq, shiftLeft_eq,
    ← Nat.two_pow_add_eq_or_of_lt (lowBits_lt 48 node),
    ← Nat.two_pow_add_eq_or_of_lt (lt_of_lt_of_le hseq (by decide)),
    ← Nat.two_pow_add_eq_or_of_lt (lt_of_lt_of_le hlow (by decide))]

-- The id as version 6 lays it out.
def layout (high low seq node : Nat) : Nat :=
  2 ^ 80 * high + 2 ^ 76 * 6 + 2 ^ 64 * low + 2 ^ 62 * 2 + 2 ^ 48 * seq + node

theorem setVersion_setVariant (timestamp node clockSeq : Int) :
    UUID.setVersion (UUID.setVariant (uuidInt timestamp node clockSeq)) 6 =
      layout (lowBits 48 (timestamp / 2 ^ 12)) (lowBits 12 timestamp) (lowBits 14 clockSeq)
        (lowBits 48 node) := by
  obtain ⟨hseq, hlow⟩ := fields_lt timestamp node clockSeq
  have hvariant : UUID.setVariant (uuidInt timestamp node clockSeq) =
      2 ^ 64 * (2 ^ 16 * lowBits 48 (timestamp / 2 ^ 12) + lowBits 12 timestamp) +
        (2 ^ 62 * 2 + (2 ^ 48 * lowBits 14 clockSeq + lowBits 48 node)) := by
    have hset := set_field (p := 62) (w := 2) (v := 2)
      (2 ^ 16 * lowBits 48 (timestamp / 2 ^ 12) + lowBits 12 timestamp) hseq (by decide)
    have hsplit : 2 ^ 80 * lowBits 48 (timestamp / 2 ^ 12) + (2 ^ 64 * lowBits 12 timestamp +
        (2 ^ 48 * lowBits 14 clockSeq + lowBits 48 node)) =
        2 ^ (62 + 2) * (2 ^ 16 * lowBits 48 (timestamp / 2 ^ 12) + lowBits 12 timestamp) +
          (2 ^ 48 * lowBits 14 clockSeq + lowBits 48 node) := by
      ring
    have hmask : 0xC000 <<< 48 = (2 ^ 2 - 1) <<< 62 := by decide
    have hvalue : 0x8000 <<< 48 = 2 <<< 62 := by decide
    rw [UUID.setVariant, uuidInt_eq, hsplit, hmask, hvalue, hset]
  have hvlow : 2 ^ 64 * lowBits 12 timestamp +
      (2 ^ 62 * 2 + (2 ^ 48 * lowBits 14 clockSeq + lowBits 48 node)) < 2 ^ 76 := by
    have hlt := lowBits_lt 12 timestamp
    omega
  have hset := set_field (p := 76) (w := 4) (v := 6) (lowBits 48 (timestamp / 2 ^ 12)) hvlow
    (by decide)
  rw [hvariant, UUID.setVersion, layout]
  have hsplit : 2 ^ 64 * (2 ^ 16 * lowBits 48 (timestamp / 2 ^ 12) + lowBits 12 timestamp) +
      (2 ^ 62 * 2 + (2 ^ 48 * lowBits 14 clockSeq + lowBits 48 node)) =
      2 ^ (76 + 4) * lowBits 48 (timestamp / 2 ^ 12) + (2 ^ 64 * lowBits 12 timestamp +
        (2 ^ 62 * 2 + (2 ^ 48 * lowBits 14 clockSeq + lowBits 48 node))) := by
    ring
  have hmask : 0xF000 <<< 64 = (2 ^ 4 - 1) <<< 76 := by decide
  rw [hsplit, hmask, hset]
  ring

end Layout

section Fields

variable {u : UUID} {high low seq node : Nat}

theorem version_of_layout (h : u.int = layout high low seq node) (hlow : low < 2 ^ 12)
    (hseq : seq < 2 ^ 14) (hnode : node < 2 ^ 48) : u.version = some 6 := by
  have hset : u.int &&& (0x8000 <<< 48) ≠ 0 := by
    have hmask : 0x8000 <<< 48 = 2 ^ 63 := by decide
    have hbit : u.int.testBit 63 = true := by
      rw [Nat.testBit_eq_decide_div_mod_eq, decide_eq_true_iff, h, layout]
      omega
    rw [hmask, Nat.and_two_pow, hbit]
    decide
  have hclear : u.int &&& (0x4000 <<< 48) = 0 := by
    have hmask : 0x4000 <<< 48 = 2 ^ 62 := by decide
    have hbit : u.int.testBit 62 = false := by
      rw [Nat.testBit_eq_decide_div_mod_eq, decide_eq_false_iff_not, h, layout]
      omega
    rw [hmask, Nat.and_two_pow, hbit]
    decide
  have hwidth : (0xf : Nat) = 2 ^ 4 - 1 := rfl
  rw [UUID.version, if_pos ⟨hset, hclear⟩, hwidth, Nat.and_two_pow_sub_one_eq_mod,
    Nat.shiftRight_eq_div_pow, h, layout]
  congr 1
  omega

theorem time_of_layout (h : u.int = layout high low seq node) (hlow : low < 2 ^ 12)
    (hseq : seq < 2 ^ 14) (hnode : node < 2 ^ 48) : u.time = 2 ^ 12 * high + low := by
  have hwidth : (0xffff : Nat) = 2 ^ 16 - 1 := rfl
  have hlowWidth : (0x0FFF : Nat) = 2 ^ 12 - 1 := rfl
  rw [UUID.time, if_pos (version_of_layout h hlow hseq hnode), UUID.timeLow, UUID.timeMid,
    UUID.timeHiVersion, h, layout, hwidth, hlowWidth, Nat.and_two_pow_sub_one_eq_mod,
    Nat.and_two_pow_sub_one_eq_mod, Nat.and_two_pow_sub_one_eq_mod, Nat.shiftRight_eq_div_pow,
    Nat.shiftRight_eq_div_pow, Nat.shiftRight_eq_div_pow, shiftLeft_eq, shiftLeft_eq,
    Nat.or_assoc, ← Nat.two_pow_add_eq_or_of_lt (Nat.mod_lt _ (by decide)),
    ← Nat.two_pow_add_eq_or_of_lt (by omega)]
  push_cast
  omega

end Fields

section Order

-- A version 6 id that holds the timestamp `t`.
def Laid (u : UUID) (t : Nat) : Prop :=
  t < 2 ^ 60 ∧ ∃ seq node, seq < 2 ^ 14 ∧ node < 2 ^ 48 ∧
    u.int = layout (t / 2 ^ 12) (t % 2 ^ 12) seq node

variable {u u' : UUID} {t t' : Nat}

theorem Laid.time (h : Laid u t) : u.time = t := by
  obtain ⟨-, seq, node, hseq, hnode, hint⟩ := h
  rw [time_of_layout hint (Nat.mod_lt _ (by decide)) hseq hnode]
  omega

theorem Laid.lt (h : Laid u t) (h' : Laid u' t') (hlt : t < t') : u.int < u'.int := by
  obtain ⟨-, seq, node, hseq, hnode, hint⟩ := h
  obtain ⟨-, seq', node', hseq', hnode', hint'⟩ := h'
  rw [hint, hint', layout, layout]
  omega

theorem hexDigit_lt : ∀ e < 16, ∀ d < e, UUID.hexDigit d < UUID.hexDigit e := by decide

theorem dashed_lt {cs cs' : List Char} (ks : List Nat) (h : cs < cs')
    (hlength : cs.length = cs'.length) : UUID.dashed ks cs < UUID.dashed ks cs' := by
  induction ks generalizing cs cs' with
  | nil => exact h
  | cons k ks ih =>
    rw [UUID.dashed, UUID.dashed]
    rcases split_lt k h hlength with hbefore | ⟨hsame, hafter⟩
    · exact append_lt_append hbefore (by rw [List.length_take, List.length_take, hlength])
    · rw [hsame]
      refine append_lt_append_left (List.cons_lt_cons_iff.mpr (Or.inr ⟨rfl, ih hafter ?_⟩)) _
      rw [List.length_drop, List.length_drop, hlength]

theorem str_lt (h : u.int < u'.int) : u.str < u'.str := by
  have hdigits : Digits.digits 16 32 u.int < Digits.digits 16 32 u'.int :=
    Digits.digits_lt h (lt_of_lt_of_le u'.bounded (by decide))
  have hchars : (Digits.digits 16 32 u.int).map UUID.hexDigit <
      (Digits.digits 16 32 u'.int).map UUID.hexDigit := by
    refine map_lt_map (fun d _ e he hlt => ?_) hdigits
    exact hexDigit_lt e (Digits.lt_of_mem_digits (by decide) he) d hlt
  rw [String.lt_iff_toList_lt, UUID.str, UUID.str, String.toList_ofList, String.toList_ofList]
  refine dashed_lt _ hchars ?_
  rw [List.length_map, List.length_map, Digits.length_digits, Digits.length_digits]

end Order

section Calls

variable {last : Option Int}

theorem le_nextTimestamp (hlast : ∀ l ∈ last, 0 ≤ l) (nanoseconds : Int64) :
    0 ≤ nextTimestamp last nanoseconds := by
  have hread : -2 ^ 63 ≤ nanoseconds.toInt := nanoseconds.le_toInt
  cases last with
  | none =>
    rw [nextTimestamp, uuidEpoch]
    omega
  | some l =>
    have hl := hlast l rfl
    rw [nextTimestamp, uuidEpoch]
    split
    · omega
    · omega

theorem lt_nextTimestamp (l : Int) (nanoseconds : Int64) :
    l < nextTimestamp (some l) nanoseconds := by
  rw [nextTimestamp]
  split
  · omega
  · omega

theorem laid_uuid6 (hlast : ∀ l ∈ last, 0 ≤ l) {call : Uuid6Call}
    (hlt : (uuid6 last call).1 < 2 ^ 60) :
    ∃ u t, (uuid6 last call).1 = (t : Nat) ∧ (uuid6 last call).2 = .ok u ∧ Laid u t := by
  have hle : 0 ≤ (uuid6 last call).1 := le_nextTimestamp hlast call.nanoseconds
  obtain ⟨t, ht⟩ := Int.eq_ofNat_of_zero_le hle
  obtain ⟨seq, hseq⟩ : ∃ seq, seq = call.clockSeq.getD call.randomClockSeq := ⟨_, rfl⟩
  obtain ⟨node, hnode⟩ : ∃ node, node = call.node.getD call.randomNode := ⟨_, rfl⟩
  have hid : (uuid6 last call).2 = UUID.ofInt (uuidInt t node seq) (some 6) := by
    rw [← ht, hseq, hnode]
    rfl
  have hbits : lowBits 48 ((t : Int) / 2 ^ 12) = t / 2 ^ 12 ∧ lowBits 12 (t : Int) = t % 2 ^ 12 := by
    unfold lowBits
    omega
  have hbounded : uuidInt t node seq < 2 ^ 128 := by
    have hlow := (fields_lt t node seq).2
    have hhigh := lowBits_lt 48 ((t : Int) / 2 ^ 12)
    rw [uuidInt_eq]
    omega
  refine ⟨⟨_, UUID.setVersion_lt (UUID.setVariant_lt hbounded) (show 6 ≤ 8 by decide)⟩, t, ht, ?_, ?_⟩
  · rw [hid, UUID.ofInt, dif_pos hbounded]
    rfl
  · refine ⟨by omega, lowBits 14 seq, lowBits 48 node, lowBits_lt 14 seq, lowBits_lt 48 node, ?_⟩
    rw [← hbits.1, ← hbits.2]
    exact setVersion_setVariant t node seq

theorem laid_uuid6s (calls : List Uuid6Call) (hlast : ∀ l ∈ last, 0 ≤ l)
    (h : ∀ e ∈ uuid6s last calls, e.1 < 2 ^ 60) :
    ∃ ids : List UUID, (uuid6s last calls).map Prod.snd = ids.map Except.ok ∧
      ids.map UUID.time = (uuid6s last calls).map Prod.fst ∧
      ids.Pairwise (fun u u' => u.int < u'.int) ∧
      ∀ u ∈ ids, ∃ t, Laid u t ∧ ∀ l ∈ last, l < t := by
  induction calls generalizing last with
  | nil => exact ⟨[], rfl, rfl, List.Pairwise.nil, nofun⟩
  | cons call calls ih =>
    obtain ⟨hcall, hcalls⟩ := List.forall_mem_cons.mp h
    obtain ⟨u, t, ht, hu, hlaid⟩ := laid_uuid6 hlast hcall
    have hnext : ∀ l ∈ some (uuid6 last call).1, 0 ≤ l := by
      intro l hl
      rw [← Option.some.inj hl, ht]
      exact Int.natCast_nonneg t
    obtain ⟨ids, hids, htimes, hordered, hall⟩ := ih hnext hcalls
    have hlater : ∀ l ∈ last, l < (uuid6 last call).1 := by
      intro l hl
      obtain rfl : last = some l := hl
      exact lt_nextTimestamp l call.nanoseconds
    refine ⟨u :: ids, ?_, ?_, List.pairwise_cons.mpr ⟨fun u' hu' => ?_, hordered⟩, ?_⟩
    · rw [uuid6s, List.map_cons, List.map_cons, hids, hu]
    · rw [uuid6s, List.map_cons, List.map_cons, htimes, hlaid.time, ht]
    · obtain ⟨t', hlaid', hlt⟩ := hall u' hu'
      have hbefore := hlt _ rfl
      rw [ht] at hbefore
      exact hlaid.lt hlaid' (by omega)
    · refine List.forall_mem_cons.mpr ⟨⟨t, hlaid, fun l hl => ht ▸ hlater l hl⟩, fun u' hu' => ?_⟩
      obtain ⟨t', hlaid', hlt⟩ := hall u' hu'
      exact ⟨t', hlaid', fun l hl => (hlater l hl).trans (hlt _ rfl)⟩

theorem latest_of_ordered {Ver : Type} {s : InMemorySaver Ver} {ids : List String}
    (hids : ∀ id, id ∈ s.storage.keys ↔ id ∈ ids) (h : ids.Pairwise (· < ·)) :
    s.latest = ids.getLast? := by
  cases hlast : ids.getLast? with
  | none =>
    have hnil := List.getLast?_eq_none_iff.mp hlast
    have hkeys : s.storage.keys = [] := by
      refine List.eq_nil_iff_forall_not_mem.mpr (fun id hid => ?_)
      rw [hids, hnil] at hid
      exact List.not_mem_nil hid
    rw [InMemorySaver.latest, hkeys]
    rfl
  | some id =>
    refine List.max?_eq_some_iff.mpr ⟨(hids id).mpr (List.mem_of_getLast? hlast), fun other ho => ?_⟩
    obtain ⟨before, rfl⟩ := List.getLast?_eq_some_iff.mp hlast
    rcases List.mem_append.mp ((hids other).mp ho) with hbefore | hsame
    · exact ((List.pairwise_append.mp h).2.2 other hbefore id (List.mem_singleton_self id)).le
    · exact le_of_eq (List.mem_singleton.mp hsame)

-- The ids of successive calls increase as strings, so the saver takes the last one for the latest.
theorem uuid6_strictly_increasing (calls : List Uuid6Call)
    (h : ∀ e ∈ uuid6s none calls, e.1 < 2 ^ 60) :
    ∃ ids : List UUID, (uuid6s none calls).map Prod.snd = ids.map Except.ok ∧
      (ids.map UUID.str).Pairwise (· < ·) ∧
      ids.map UUID.time = (uuid6s none calls).map Prod.fst ∧
      ∀ (Ver : Type) (s : InMemorySaver Ver),
        (∀ id, id ∈ s.storage.keys ↔ id ∈ ids.map UUID.str) →
          s.latest = (ids.map UUID.str).getLast? := by
  obtain ⟨ids, hids, htimes, hordered, -⟩ := laid_uuid6s calls (fun l hl => by cases hl) h
  have hstrings : (ids.map UUID.str).Pairwise (· < ·) :=
    List.pairwise_map.mpr (hordered.imp str_lt)
  exact ⟨ids, hids, hstrings, htimes, fun Ver s hkeys => latest_of_ordered hkeys hstrings⟩

-- The clock goes back between the calls, and the arguments may be negative.
theorem uuid6_strictly_increasing_backwards : ∃ ids : List UUID,
    (uuid6s none [⟨1700000000000000000, none, some (-1), 5, 7⟩, ⟨0, some (-3), none, 1, 2⟩]).map
        Prod.snd = ids.map Except.ok ∧
      (ids.map UUID.str).Pairwise (· < ·) ∧
      ids.map UUID.time = (uuid6s none
        [⟨1700000000000000000, none, some (-1), 5, 7⟩, ⟨0, some (-3), none, 1, 2⟩]).map Prod.fst ∧
      ∀ (Ver : Type) (s : InMemorySaver Ver),
        (∀ id, id ∈ s.storage.keys ↔ id ∈ ids.map UUID.str) →
          s.latest = (ids.map UUID.str).getLast? :=
  uuid6_strictly_increasing _ (by decide +kernel)

end Calls

end LangGraph

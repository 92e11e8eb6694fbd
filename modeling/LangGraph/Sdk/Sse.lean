import Mathlib.Data.List.Basic
import Mathlib.Tactic.Common

namespace LangGraph

namespace Bytes

def lf : UInt8 := 10

def cr : UInt8 := 13

def newline (b : UInt8) : Prop := b = lf ∨ b = cr

instance (b : UInt8) : Decidable (newline b) := inferInstanceAs (Decidable (_ ∨ _))

def addFirst (b : UInt8) : List (List UInt8) → List (List UInt8)
  | [] => [[b]]
  | line :: lines => (b :: line) :: lines

-- A line feed right after a carriage return belongs to the same line end.
def splitFrom : Bool → List UInt8 → List (List UInt8)
  | _, [] => []
  | afterCr, b :: bs =>
      if afterCr = true ∧ b = lf then splitFrom false bs
      else if newline b then [] :: splitFrom (b = cr) bs
      else addFirst b (splitFrom false bs)

-- `bytes.splitlines`.
def splitlines (bs : List UInt8) : List (List UInt8) := splitFrom false bs

def addStart (start : List UInt8) : List (List UInt8) → List (List UInt8)
  | [] => if start = [] then [] else [start]
  | line :: lines => (start ++ line) :: lines

example : splitlines [97, cr, lf, cr, 98, lf] = [[97], [], [98]] := by decide

section Splitlines

variable {b : UInt8} {bs start : List UInt8} {lines more : List (List UInt8)} {afterCr : Bool}

theorem splitFrom_plain (hb : ¬ newline b) :
    splitFrom afterCr (b :: bs) = addFirst b (splitFrom false bs) := by
  rw [splitFrom, if_neg (fun h => hb (Or.inl h.2)), if_neg hb]

theorem splitlines_ne_nil (h : bs ≠ []) : splitlines bs ≠ [] := by
  cases bs with
  | nil => exact absurd rfl h
  | cons b bs =>
    rw [splitlines, splitFrom, if_neg (fun h => nomatch h.1)]
    split
    · exact List.cons_ne_nil _ _
    · cases splitFrom false bs with
      | nil => exact List.cons_ne_nil _ _
      | cons line lines => exact List.cons_ne_nil _ _

theorem addFirst_append (h : lines ≠ []) : addFirst b (lines ++ more) = addFirst b lines ++ more := by
  cases lines with
  | nil => exact absurd rfl h
  | cons line lines => rfl

theorem addStart_append (h : lines ≠ []) :
    addStart start (lines ++ more) = addStart start lines ++ more := by
  cases lines with
  | nil => exact absurd rfl h
  | cons line lines => rfl

theorem splitlines_start (h : ∀ b ∈ start, ¬ newline b) (bs : List UInt8) :
    splitlines (start ++ bs) = addStart start (splitlines bs) := by
  induction start with
  | nil =>
    rw [List.nil_append]
    cases splitlines bs with
    | nil => rfl
    | cons line lines => rfl
  | cons b start ih =>
    obtain ⟨hb, hstart⟩ := List.forall_mem_cons.mp h
    have hrest : splitFrom false (start ++ bs) = addStart start (splitlines bs) := ih hstart
    rw [List.cons_append, splitlines, splitFrom_plain hb, hrest]
    cases splitlines bs with
    | nil =>
      cases start with
      | nil => rfl
      | cons c start => rfl
    | cons line lines => rfl

theorem splitFrom_true (h : bs.head? ≠ some lf) : splitFrom true bs = splitlines bs := by
  cases bs with
  | nil => rfl
  | cons b bs =>
    have hb : b ≠ lf := fun heq => h (congrArg some heq)
    have hskip (afterCr : Bool) : ¬ (afterCr = true ∧ b = lf) := fun h => hb h.2
    rw [splitlines, splitFrom, splitFrom, if_neg (hskip true), if_neg (hskip false)]

-- After a line end the lines start afresh, unless a line feed follows a carriage return.
theorem splitFrom_closed (afterCr : Bool) {e : UInt8} (hlast : bs.getLast? = some e)
    (he : newline e) {rest : List UInt8} (hrest : e = cr → rest.head? ≠ some lf) :
    splitFrom afterCr (bs ++ rest) = splitFrom afterCr bs ++ splitlines rest := by
  induction bs generalizing afterCr with
  | nil => cases hlast
  | cons b bs ih =>
    cases bs with
    | nil =>
      obtain rfl : b = e := Option.some.inj hlast
      rw [List.singleton_append, splitFrom, splitFrom, if_pos he, if_pos he]
      split
      · rfl
      · rcases he with rfl | rfl
        · rfl
        · exact congrArg ([] :: ·) (splitFrom_true (hrest rfl))
    | cons c bs =>
      rw [List.getLast?_cons_cons] at hlast
      rw [List.cons_append, splitFrom, splitFrom, ih _ hlast, ih _ hlast]
      split
      · rfl
      · split
        · rfl
        · exact addFirst_append (splitlines_ne_nil (List.cons_ne_nil c bs))

-- After any other byte the last line is still open.
theorem splitFrom_open (afterCr : Bool) (h : ∃ b, bs.getLast? = some b ∧ ¬ newline b) :
    ∃ init last, splitFrom afterCr bs = init ++ [last] ∧ (∀ b ∈ last, ¬ newline b) ∧
      ∀ rest, splitFrom afterCr (bs ++ rest) = init ++ splitlines (last ++ rest) := by
  obtain ⟨e, hlast, he⟩ := h
  induction bs generalizing afterCr with
  | nil => cases hlast
  | cons b bs ih =>
    cases bs with
    | nil =>
      obtain rfl : b = e := Option.some.inj hlast
      refine ⟨[], [b], splitFrom_plain he, List.forall_mem_singleton.mpr he, fun rest => ?_⟩
      rw [List.singleton_append, splitFrom_plain he, splitlines, splitFrom_plain he]
      rfl
    | cons c bs =>
      rw [List.getLast?_cons_cons] at hlast
      by_cases hskip : afterCr = true ∧ b = lf
      · obtain ⟨init, last, heq, hplain, hrest⟩ := ih false hlast
        refine ⟨init, last, ?_, hplain, fun rest => ?_⟩
        · rw [splitFrom, if_pos hskip, heq]
        · rw [List.cons_append, splitFrom, if_pos hskip, hrest]
      · by_cases hb : newline b
        · obtain ⟨init, last, heq, hplain, hrest⟩ := ih (b = cr) hlast
          refine ⟨[] :: init, last, ?_, hplain, fun rest => ?_⟩
          · rw [splitFrom, if_neg hskip, if_pos hb, heq, List.cons_append]
          · rw [List.cons_append, splitFrom, if_neg hskip, if_pos hb, hrest, List.cons_append]
        · obtain ⟨init, last, heq, hplain, hrest⟩ := ih false hlast
          cases init with
          | nil =>
            refine ⟨[], b :: last, ?_, List.forall_mem_cons.mpr ⟨hb, hplain⟩, fun rest => ?_⟩
            · rw [splitFrom_plain hb, heq]
              rfl
            · rw [List.cons_append, splitFrom_plain hb, hrest, splitlines, splitlines,
                List.cons_append, splitFrom_plain hb]
              rfl
          | cons line lines =>
            refine ⟨(b :: line) :: lines, last, ?_, hplain, fun rest => ?_⟩
            · rw [splitFrom_plain hb, heq]
              rfl
            · rw [List.cons_append, splitFrom_plain hb, hrest]
              rfl

end Splitlines

end Bytes

open Bytes

structure BytesLineDecoder where
  buffer : List UInt8
  trailingCr : Bool

namespace BytesLineDecoder

def fresh : BytesLineDecoder := ⟨[], false⟩

-- The pending `\r` goes in front, and one at the end is kept back for the next call.
def withheld (d : BytesLineDecoder) (text : List UInt8) : List UInt8 × Bool :=
  let text := if d.trailingCr then cr :: text else text
  if text.getLast? = some cr then (text.dropLast, true) else (text, false)

-- What the buffer becomes and the lines that are complete.
def absorb (buffer text : List UInt8) : List UInt8 × List (List UInt8) :=
  match text.getLast? with
  | none => (buffer, [])
  | some b =>
      let lines := splitlines text
      if lines.length = 1 ∧ ¬ newline b then (buffer ++ lines.headD [], [])
      else
        let (lines, buffer) :=
          if buffer ≠ [] then ((buffer ++ lines.headD []) :: lines.tail, []) else (lines, buffer)
        if newline b then (buffer, lines) else (buffer ++ lines.getLastD [], lines.dropLast)

def decode (d : BytesLineDecoder) (text : List UInt8) : BytesLineDecoder × List (List UInt8) :=
  let (text, trailingCr) := d.withheld text
  let (buffer, lines) := absorb d.buffer text
  (⟨buffer, trailingCr⟩, lines)

def flush (d : BytesLineDecoder) : BytesLineDecoder × List (List UInt8) :=
  if d.buffer = [] ∧ d.trailingCr = false then (d, []) else (⟨[], false⟩, [d.buffer])

-- `iter_lines_raw` and `aiter_lines_raw`.
def linesFrom (d : BytesLineDecoder) : List (List UInt8) → List (List UInt8)
  | [] => d.flush.2
  | chunk :: chunks => (d.decode chunk).2 ++ linesFrom (d.decode chunk).1 chunks

def iterLinesRaw (chunks : List (List UInt8)) : List (List UInt8) := fresh.linesFrom chunks

-- The bytes that are held back.
def pending (d : BytesLineDecoder) : List UInt8 :=
  d.buffer ++ if d.trailingCr then [cr] else []

def Plain (d : BytesLineDecoder) : Prop := ∀ b ∈ d.buffer, ¬ newline b

variable {d : BytesLineDecoder} {text rest : List UInt8}

theorem withheld_spec (d : BytesLineDecoder) (text : List UInt8) :
    ((d.withheld text).1.getLast? = some cr → (d.withheld text).2 = true) ∧
      (if d.trailingCr then [cr] else []) ++ text =
        (d.withheld text).1 ++ if (d.withheld text).2 then [cr] else [] := by
  have hfront : (if d.trailingCr then cr :: text else text) =
      (if d.trailingCr then [cr] else []) ++ text := by
    split
    · rfl
    · rfl
  rw [withheld, hfront]
  obtain ⟨front, hsame⟩ : ∃ front, front = (if d.trailingCr then [cr] else []) ++ text := ⟨_, rfl⟩
  rw [← hsame]
  split
  · rename_i hlast
    refine ⟨fun _ => rfl, ?_⟩
    obtain ⟨init, rfl⟩ := List.getLast?_eq_some_iff.mp hlast
    rw [List.dropLast_concat]
    rfl
  · rename_i hlast
    exact ⟨fun h => absurd h hlast, (List.append_nil _).symm⟩

theorem addStart_eq {buffer : List UInt8} {lines : List (List UInt8)} (h : lines ≠ []) :
    (if buffer ≠ [] then ((buffer ++ lines.headD []) :: lines.tail, []) else (lines, buffer)) =
      (addStart buffer lines, ([] : List UInt8)) := by
  cases lines with
  | nil => exact absurd rfl h
  | cons line lines =>
    cases buffer with
    | nil => rfl
    | cons b buffer => rfl

theorem absorb_spec {buffer : List UInt8} (hbuffer : ∀ b ∈ buffer, ¬ newline b)
    (text : List UInt8) : (∀ b ∈ (absorb buffer text).1, ¬ newline b) ∧
      ∀ rest : List UInt8, (text.getLast? = some cr → rest.head? ≠ some lf) → (absorb buffer text).2 ++ splitlines ((absorb buffer text).1 ++ rest) =
        splitlines (buffer ++ (text ++ rest)) := by
  unfold absorb
  cases hb : text.getLast? with
  | none =>
    obtain rfl := List.getLast?_eq_none_iff.mp hb
    exact ⟨hbuffer, fun rest _ => rfl⟩
  | some b =>
    have htext : text ≠ [] := by
      rintro rfl
      cases hb
    by_cases hnewline : newline b
    · have hmany : ¬ ((splitlines text).length = 1 ∧ ¬ newline b) := fun h => h.2 hnewline
      simp only [if_neg hmany, addStart_eq (splitlines_ne_nil htext), if_pos hnewline]
      refine ⟨nofun, fun rest hrest => ?_⟩
      have hclosed : splitlines (text ++ rest) = splitlines text ++ splitlines rest :=
        splitFrom_closed false hb hnewline (fun h => hrest (congrArg some h))
      rw [splitlines_start hbuffer, hclosed, addStart_append (splitlines_ne_nil htext),
        List.nil_append]
    · obtain ⟨init, last, hlines, hplain, hrest⟩ := splitFrom_open false ⟨b, hb, hnewline⟩
      have hlines : splitlines text = init ++ [last] := hlines
      have hrest (rest : List UInt8) : splitlines (text ++ rest) =
          init ++ splitlines (last ++ rest) := hrest rest
      cases init with
      | nil =>
        have hone : (splitlines text).length = 1 ∧ ¬ newline b := by
          rw [hlines]
          exact ⟨rfl, hnewline⟩
        simp only [if_pos hone]
        rw [hlines]
        have hboth : ∀ b ∈ buffer ++ last, ¬ newline b :=
          List.forall_mem_append.mpr ⟨hbuffer, hplain⟩
        refine ⟨hboth, fun rest _ => ?_⟩
        have hhead : ([] ++ [last]).headD [] = last := rfl
        rw [hhead, List.nil_append, splitlines_start hbuffer, hrest, List.nil_append,
          ← splitlines_start hbuffer, List.append_assoc]
      | cons line init =>
        have hmany : ¬ ((splitlines text).length = 1 ∧ ¬ newline b) := by
          rw [hlines]
          simp
        simp only [if_neg hmany, addStart_eq (splitlines_ne_nil htext), if_neg hnewline]
        have hstart : addStart buffer (splitlines text) =
            addStart buffer (line :: init) ++ [last] := by
          rw [hlines, addStart_append (List.cons_ne_nil line init)]
        rw [hstart, List.getLastD_concat, List.dropLast_concat, List.nil_append]
        refine ⟨hplain, fun rest _ => ?_⟩
        rw [splitlines_start hbuffer, hrest, addStart_append (List.cons_ne_nil line init)]

theorem decode_spec (hd : d.Plain) (text : List UInt8) : (d.decode text).1.Plain ∧
    ∀ rest, (d.decode text).2 ++ splitlines ((d.decode text).1.pending ++ rest) =
      splitlines (d.pending ++ (text ++ rest)) := by
  obtain ⟨hlast, htext⟩ := d.withheld_spec text
  obtain ⟨hplain, hlines⟩ := absorb_spec hd (d.withheld text).1
  refine ⟨hplain, fun rest => ?_⟩
  have hsame : d.pending ++ (text ++ rest) = d.buffer ++ ((d.withheld text).1 ++
      ((if (d.withheld text).2 then [cr] else []) ++ rest)) := by
    rw [pending, List.append_assoc, ← List.append_assoc _ text, htext, List.append_assoc]
  have hnext : (d.withheld text).1.getLast? = some cr →
      ((if (d.withheld text).2 then [cr] else []) ++ rest).head? ≠ some lf := by
    intro h
    rw [hlast h, if_pos rfl, List.singleton_append, List.head?_cons, Option.some_inj.ne]
    decide
  rw [hsame, ← hlines _ hnext, ← List.append_assoc]
  rfl

theorem flush_spec (hd : d.Plain) : d.flush.2 = splitlines d.pending := by
  rw [pending, splitlines_start hd, flush]
  cases d.trailingCr with
  | false =>
    cases d.buffer with
    | nil => rfl
    | cons b buffer => rfl
  | true =>
    have hline : splitlines [cr] = [[]] := by decide
    rw [if_pos rfl, hline, if_neg (fun h => nomatch h.2), addStart, List.append_nil]

theorem linesFrom_eq (hd : d.Plain) (chunks : List (List UInt8)) :
    d.linesFrom chunks = splitlines (d.pending ++ chunks.flatten) := by
  induction chunks generalizing d with
  | nil => rw [linesFrom, flush_spec hd, List.flatten_nil, List.append_nil]
  | cons chunk chunks ih =>
    obtain ⟨hplain, hlines⟩ := decode_spec hd chunk
    rw [linesFrom, ih hplain, hlines, List.flatten_cons]

theorem iterLinesRaw_eq_splitlines (chunks : List (List UInt8)) :
    iterLinesRaw chunks = splitlines chunks.flatten := by
  have hfresh : fresh.Plain := fun b hb => absurd hb List.not_mem_nil
  exact linesFrom_eq hfresh chunks

end BytesLineDecoder

end LangGraph

import Mathlib.Algebra.GroupWithZero.Nat
import OsLab.Lib.Streams
import OsLab.Sjf.Model

/-!
# Readdata — the workload file of the simulator

`readdata` takes the file line by line and each line blank by blank.  The first piece of a line is the
arrival time and makes the entries of the per-process vectors; the other pieces are the bursts, up to
the terminator -1.  A piece without digits counts as 0.

* A `queue<int>` is the list of its entries, front first.
* The map `arrival` is a function of the time; a time without an entry has the empty vector.
* The local variable `sum` is never read.  It is left out, and so is its overflow in a file of large
  numbers.

What the file means is said by its lines (`Line`): markup, blank lines, and data lines in which one
or more blanks separate the integers.  `readdata_iff` says for which of these files the vectors
describe the data lines.
-/

namespace OsLab
namespace Sjf

open OsLab.Lib

/-! ## The parser -/

/-- The globals that `readdata` fills, and the line counter `j`. -/
structure ReadData where
  process : List (List Int)
  ptot : List Int
  trTime : List Int
  waitTime : List Int
  rtimeTotal : List Int
  btimeTotal : List Int
  ptimeTotal : List Int
  penalty : List Rat
  iocheck : List Int
  arrival : Int → List Nat
  j : Nat

def ReadData.empty : ReadData :=
  { process := []
    ptot := []
    trTime := []
    waitTime := []
    rtimeTotal := []
    btimeTotal := []
    ptimeTotal := []
    penalty := []
    iocheck := []
    arrival := fun _ => []
    j := 0 }

/-- The block for the first piece of a line (`i == 0`). -/
def register (r : ReadData) (x : Int) : ReadData :=
  { r with
    trTime := r.trTime ++ [0]
    waitTime := r.waitTime ++ [0]
    rtimeTotal := r.rtimeTotal ++ [-1]
    btimeTotal := r.btimeTotal ++ [0]
    penalty := r.penalty ++ [0]
    ptot := r.ptot ++ [x]
    arrival := Function.update r.arrival x (r.arrival x ++ [r.j])
    ptimeTotal := r.ptimeTotal ++ [0]
    iocheck := r.iocheck ++ [0] }

/-- The locals of the loop over the pieces of a line. -/
structure LineState where
  data : ReadData
  q : List Int
  i : Nat

def readPiece (st : LineState) (num : List Char) : LineState :=
  let x := (extractInt num).value
  if st.i = 0 then { st with data := register st.data x, i := st.i + 1 }
  else if x ≠ -1 then { st with q := st.q ++ [x], i := st.i + 1 }
  else { st with i := st.i + 1 }

def readLine (r : ReadData) (myText : List Char) : ReadData :=
  if myText.head? = some '<' then r
  else
    let st := (getlines ' ' myText).foldl readPiece ⟨r, [], 0⟩
    { st.data with j := st.data.j + 1, process := st.data.process ++ [st.q] }

def readdata (file : List Char) : ReadData :=
  (getlines '\n' file).foldl readLine ReadData.empty

/-! ## What the parser reads -/

/-- The numbers that the pieces of a line are read as. -/
def row (myText : List Char) : List Int :=
  (getlines ' ' myText).map fun num => (extractInt num).value

/-- The vectors for the rows of the lines that are not markup. -/
structure Reads (rows : List (List Int)) (r : ReadData) : Prop where
  j : r.j = rows.length
  process : r.process = rows.map fun xs => xs.tail.filter (· ≠ -1)
  ptot : r.ptot = rows.filterMap List.head?
  arrival : ∀ t, r.arrival t =
    (List.range rows.length).filter fun pid => rows[pid]?.bind List.head? = some t
  trTime : r.trTime = List.replicate r.ptot.length 0
  waitTime : r.waitTime = List.replicate r.ptot.length 0
  rtimeTotal : r.rtimeTotal = List.replicate r.ptot.length (-1)
  btimeTotal : r.btimeTotal = List.replicate r.ptot.length 0
  ptimeTotal : r.ptimeTotal = List.replicate r.ptot.length 0
  penalty : r.penalty = List.replicate r.ptot.length 0
  iocheck : r.iocheck = List.replicate r.ptot.length 0

/-- Behind the first piece everything but -1 is queued. -/
theorem foldl_readPiece (pieces : List (List Char)) (st : LineState) (hi : st.i ≠ 0) :
    pieces.foldl readPiece st =
      ⟨st.data,
        st.q ++ (pieces.map fun num => (extractInt num).value).filter (· ≠ -1),
        st.i + pieces.length⟩ := by
  induction pieces generalizing st with
  | nil => simp
  | cons num pieces ih =>
      by_cases hx : (extractInt num).value = -1
      · have hpiece : readPiece st num = { st with i := st.i + 1 } := by
          simp [readPiece, hi, hx]
        rw [List.foldl_cons, hpiece, ih _ (Nat.succ_ne_zero _)]
        simp [hx, Nat.add_comm, Nat.add_left_comm]
      · have hpiece : readPiece st num =
            { st with q := st.q ++ [(extractInt num).value], i := st.i + 1 } := by
          simp [readPiece, hi, hx]
        rw [List.foldl_cons, hpiece, ih _ (Nat.succ_ne_zero _)]
        simp [hx, Nat.add_comm, Nat.add_left_comm]

/-- One line, by its first number: a line without pieces registers no process but queues one. -/
theorem readLine_eq {r : ReadData} {myText : List Char} (hmarkup : myText.head? ≠ some '<') :
    readLine r myText =
      { (row myText).head?.elim r (register r) with
        j := r.j + 1
        process := r.process ++ [(row myText).tail.filter (· ≠ -1)] } := by
  rw [readLine, if_neg hmarkup, row]
  cases getlines ' ' myText with
  | nil => rfl
  | cons num pieces =>
      rw [List.foldl_cons]
      rw [show readPiece ⟨r, [], 0⟩ num = ⟨register r (extractInt num).value, [], 1⟩ from rfl,
        foldl_readPiece pieces _ (Nat.succ_ne_zero 0)]
      simp [register]

theorem reads_empty : Reads [] ReadData.empty :=
  ⟨rfl, rfl, rfl, fun _ => rfl, rfl, rfl, rfl, rfl, rfl, rfl, rfl⟩

/-- The numbers of the processes with a given arrival, when one more row is read. -/
theorem arrival_concat (rows : List (List Int)) (xs : List Int) (t : Int) :
    ((List.range (rows ++ [xs]).length).filter fun pid =>
        (rows ++ [xs])[pid]?.bind List.head? = some t) =
      ((List.range rows.length).filter fun pid => rows[pid]?.bind List.head? = some t) ++
        if xs.head? = some t then [rows.length] else [] := by
  rw [List.length_append, List.length_singleton, List.range_succ, List.filter_append]
  congr 1
  · refine List.filter_congr ?_
    intro pid hpid
    rw [List.getElem?_append_left (List.mem_range.1 hpid)]
  · simp [List.filter_cons]

theorem Reads.readLine {rows : List (List Int)} {r : ReadData} (h : Reads rows r)
    {myText : List Char} (hmarkup : myText.head? ≠ some '<') :
    Reads (rows ++ [row myText]) (readLine r myText) := by
  rw [readLine_eq hmarkup]
  cases hrow : row myText with
  | nil =>
      refine ⟨by simp [h.j], by simp [h.process], by simp [h.ptot], ?_, h.trTime, h.waitTime,
        h.rtimeTotal, h.btimeTotal, h.ptimeTotal, h.penalty, h.iocheck⟩
      intro t
      rw [arrival_concat]
      simpa using h.arrival t
  | cons x xs =>
      refine ⟨by simp [h.j], by simp [h.process], by simp [h.ptot, register], ?_, ?_, ?_, ?_, ?_,
        ?_, ?_, ?_⟩
      · intro t
        rw [arrival_concat]
        by_cases ht : x = t
        · simp [register, ht, h.arrival, h.j]
        · simp [register, ht, Function.update_of_ne (Ne.symm ht), h.arrival]
      · simp [register, h.trTime, List.replicate_succ']
      · simp [register, h.waitTime, List.replicate_succ']
      · simp [register, h.rtimeTotal, List.replicate_succ']
      · simp [register, h.btimeTotal, List.replicate_succ']
      · simp [register, h.ptimeTotal, List.replicate_succ']
      · simp [register, h.penalty, List.replicate_succ']
      · simp [register, h.iocheck, List.replicate_succ']

/-! ## What the file means -/

/-- A data line: the arrival time, the bursts, and -1.  A gap counts the blanks in front of a number
beyond the one that has to be there. -/
structure DataLine where
  first : Numeral
  bursts : List (Nat × Numeral)
  lastGap : Nat

inductive Line
  | markup (rest : List Char)
  | blank (blanks : Nat)
  | data (d : DataLine)

/-- The bursts and the terminator, behind the blank that follows the arrival time. -/
def burstsText (lastGap : Nat) : List (Nat × Numeral) → List Char
  | [] => List.replicate lastGap ' ' ++ ['-', '1']
  | (gap, x) :: bursts =>
      List.replicate gap ' ' ++ (x.text ++ ' ' :: burstsText lastGap bursts)

def Line.text : Line → List Char
  | .markup rest => '<' :: rest
  | .blank blanks => List.replicate blanks ' '
  | .data d => d.first.text ++ ' ' :: burstsText d.lastGap d.bursts

def DataLine.burstValues (d : DataLine) : List Int :=
  d.bursts.map fun b => b.2.value

def Line.data? : Line → Option DataLine
  | .data d => some d
  | _ => none

def Line.isBlank : Line → Bool
  | .blank _ => true
  | _ => false

def dataLines (lines : List Line) : List DataLine :=
  lines.filterMap Line.data?

/-- The vectors describe the data lines `ds`, one process a line. -/
structure Describes (ds : List DataLine) (r : ReadData) : Prop where
  process : r.process = ds.map DataLine.burstValues
  ptot : r.ptot = ds.map fun d => d.first.value
  arrival : ∀ t, r.arrival t =
    (List.range ds.length).filter fun pid => ds[pid]?.map (fun d => d.first.value) = some t
  lengths : r.process.length = ds.length ∧ r.ptot.length = ds.length ∧
    r.trTime.length = ds.length ∧ r.waitTime.length = ds.length ∧
    r.rtimeTotal.length = ds.length ∧ r.btimeTotal.length = ds.length ∧
    r.ptimeTotal.length = ds.length ∧ r.penalty.length = ds.length ∧
    r.iocheck.length = ds.length

/-- The integers are separated by single blanks and fit the type `int`, and no burst is -1. -/
structure DataLine.Clean (d : DataLine) : Prop where
  first : clampInt d.first.value = d.first.value
  bursts : ∀ b ∈ d.bursts, b.1 = 0 ∧ b.2.value ≠ -1 ∧ clampInt b.2.value = b.2.value
  lastGap : d.lastGap = 0

def Line.Clean : Line → Prop
  | .markup _ => True
  | .blank _ => False
  | .data d => d.Clean

/-! ## The rows of the lines -/

theorem getlines_blanks (k : Nat) (text : List Char) :
    getlines ' ' (List.replicate k ' ' ++ text) = List.replicate k [] ++ getlines ' ' text := by
  induction k with
  | zero => rfl
  | succ k ih => rw [List.replicate_succ, List.cons_append, getlines_delim, ih]; rfl

theorem mem_numeral_text {x : Numeral} {c : Char} (hc : c ∈ x.text) :
    c = '+' ∨ c = '-' ∨ ∃ d, c = digitChar d := by
  rcases List.mem_append.1 hc with hsign | hdigits
  · cases hs : x.sign with
    | none => simp [hs, Sign.text] at hsign
    | plus => exact .inl (by simpa [hs, Sign.text] using hsign)
    | minus => exact .inr (.inl (by simpa [hs, Sign.text] using hsign))
  · rcases List.mem_map.1 hdigits with ⟨d, _, rfl⟩
    exact .inr (.inr ⟨d, rfl⟩)

theorem numeral_text_ne {x : Numeral} {c : Char} (hc : c ∈ x.text) : c ≠ ' ' ∧ c ≠ '<' := by
  have hdigit : ∀ d : Fin 10, digitChar d ≠ ' ' ∧ digitChar d ≠ '<' := by decide
  rcases mem_numeral_text hc with rfl | rfl | ⟨d, rfl⟩
  · decide
  · decide
  · exact hdigit d

theorem row_numeral (x : Numeral) (text : List Char) :
    row (x.text ++ ' ' :: text) = clampInt x.value :: row text := by
  have hblank : ' ' ∉ x.text := fun hc => (numeral_text_ne hc).1 rfl
  rw [row, getlines_append hblank, List.map_cons, extractInt_numeral, row]

/-- Every blank too many is read as a 0. -/
theorem row_blanks (k : Nat) (text : List Char) :
    row (List.replicate k ' ' ++ text) = List.replicate k 0 ++ row text := by
  have hzero : (extractInt []).value = 0 := rfl
  rw [row, getlines_blanks, List.map_append, List.map_replicate, hzero, row]

theorem row_burstsText (lastGap : Nat) (bursts : List (Nat × Numeral)) :
    row (burstsText lastGap bursts) =
      (bursts.flatMap fun b => List.replicate b.1 0 ++ [clampInt b.2.value]) ++
        (List.replicate lastGap 0 ++ [-1]) := by
  induction bursts with
  | nil =>
      have hend : row ['-', '1'] = [-1] := by decide
      rw [burstsText, row_blanks, hend]
      rfl
  | cons b bursts ih =>
      rw [burstsText, row_blanks, row_numeral, ih]
      simp

theorem head?_numeral_append (x : Numeral) (text : List Char) :
    (x.text ++ text).head? ≠ some '<' := by
  cases htext : x.text with
  | nil =>
      rcases x with ⟨sign, digits, hne⟩
      simp [Numeral.text, hne] at htext
  | cons c rest =>
      have hc : c ∈ x.text := htext ▸ List.mem_cons_self
      simpa using (numeral_text_ne hc).2

/-- The numbers read behind the arrival time. -/
def DataLine.rest (d : DataLine) : List Int :=
  (d.bursts.flatMap fun b => List.replicate b.1 0 ++ [clampInt b.2.value]) ++
    (List.replicate d.lastGap 0 ++ [-1])

/-- The row of a line; markup has none. -/
def Line.row : Line → Option (List Int)
  | .markup _ => none
  | .blank blanks => some (List.replicate blanks 0)
  | .data d => some (clampInt d.first.value :: d.rest)

theorem readLine_line {rows : List (List Int)} {r : ReadData} (h : Reads rows r) (line : Line) :
    Reads (rows ++ line.row.toList) (readLine r line.text) := by
  cases line with
  | markup rest => simpa [Line.row, Line.text, readLine] using h
  | blank blanks =>
      have hmarkup : (Line.blank blanks).text.head? ≠ some '<' := by
        cases blanks with
        | zero => simp [Line.text]
        | succ k => simp [Line.text, List.replicate_succ]
      have hrow : row (Line.blank blanks).text = List.replicate blanks 0 := by
        have hnil : row [] = [] := rfl
        rw [Line.text, ← List.append_nil (List.replicate blanks ' '), row_blanks, hnil,
          List.append_nil]
      simpa [Line.row, hrow] using h.readLine hmarkup
  | data d =>
      have hmarkup : (Line.data d).text.head? ≠ some '<' := head?_numeral_append _ _
      have hrow : row (Line.data d).text = clampInt d.first.value :: d.rest := by
        rw [Line.text, row_numeral, row_burstsText, DataLine.rest]
      simpa [Line.row, hrow] using h.readLine hmarkup

theorem foldl_readLine {rows : List (List Int)} {r : ReadData} (h : Reads rows r)
    (lines : List Line) :
    Reads (rows ++ lines.filterMap Line.row) ((lines.map Line.text).foldl readLine r) := by
  induction lines generalizing rows r with
  | nil => simpa using h
  | cons line lines ih =>
      have hnext := ih (readLine_line h line)
      cases hrow : line.row with
      | none => simpa [hrow] using hnext
      | some xs => simpa [hrow] using hnext

/-- The vectors after the whole file. -/
theorem readdata_reads {file : List Char} {lines : List Line}
    (hlines : getlines '\n' file = lines.map Line.text) :
    Reads (lines.filterMap Line.row) (readdata file) := by
  rw [readdata, hlines]
  exact foldl_readLine reads_empty lines

/-! ## Files that are read as they are meant -/

theorem clampInt_eq_neg_one {v : Int} : clampInt v = -1 ↔ v = -1 := by
  simp only [clampInt, INT_MIN, INT_MAX]
  omega

theorem length_flatMap_gaps (bursts : List (Nat × Numeral)) :
    (bursts.flatMap fun b => List.replicate b.1 (0 : Int) ++ [clampInt b.2.value]).length =
      bursts.length + (bursts.map Prod.fst).sum := by
  induction bursts with
  | nil => rfl
  | cons b bursts ih =>
      rw [List.flatMap_cons, List.length_append, ih]
      simp only [List.length_append, List.length_replicate, List.length_cons, List.length_nil,
        List.map_cons, List.sum_cons]
      omega

theorem flatMap_gaps_zero {bursts : List (Nat × Numeral)} (hgaps : ∀ b ∈ bursts, b.1 = 0) :
    (bursts.flatMap fun b => List.replicate b.1 (0 : Int) ++ [clampInt b.2.value]) =
      bursts.map fun b => clampInt b.2.value := by
  induction bursts with
  | nil => rfl
  | cons b bursts ih =>
      rw [List.flatMap_cons, ih fun b' hb' => hgaps b' (List.mem_cons_of_mem _ hb'),
        hgaps b List.mem_cons_self]
      rfl

/-- A terminator between the bursts is dropped; without one everything in front of the last -1 is
queued. -/
theorem filter_rest {d : DataLine} (hne : ∀ b ∈ d.bursts, b.2.value ≠ -1) :
    d.rest.filter (· ≠ -1) =
      (d.bursts.flatMap fun b => List.replicate b.1 0 ++ [clampInt b.2.value]) ++
        List.replicate d.lastGap 0 := by
  have hbursts : ∀ x ∈ d.bursts.flatMap fun b => List.replicate b.1 (0 : Int) ++
      [clampInt b.2.value], x ≠ -1 := by
    intro x hx
    rcases List.mem_flatMap.1 hx with ⟨b, hb, hxb⟩
    rcases List.mem_append.1 hxb with hzero | hvalue
    · rw [List.eq_of_mem_replicate hzero]
      decide
    · rw [List.mem_singleton.1 hvalue]
      exact fun h => hne b hb (clampInt_eq_neg_one.1 h)
  rw [DataLine.rest, List.filter_append, List.filter_append, List.filter_eq_self.2]
  · simp
  · simpa using hbursts

/-- The queue holds the bursts exactly for single blanks, no inner -1 and numbers in range. -/
theorem filter_rest_eq_iff (d : DataLine) :
    d.rest.filter (· ≠ -1) = d.burstValues ↔
      (∀ b ∈ d.bursts, b.1 = 0 ∧ b.2.value ≠ -1 ∧ clampInt b.2.value = b.2.value) ∧
        d.lastGap = 0 := by
  constructor
  · intro h
    have hne : ∀ b ∈ d.bursts, b.2.value ≠ -1 := by
      intro b hb
      have hmem : b.2.value ∈ d.rest.filter (· ≠ -1) := by
        rw [h]
        exact List.mem_map.2 ⟨b, hb, rfl⟩
      simpa using (List.mem_filter.1 hmem).2
    rw [filter_rest hne, DataLine.burstValues] at h
    -- There are as many numbers as bursts, so no blank was read as one.
    have hlength := congrArg List.length h
    rw [List.length_append, length_flatMap_gaps, List.length_replicate, List.length_map] at hlength
    have hsum : (d.bursts.map Prod.fst).sum = 0 := by omega
    have hlast : d.lastGap = 0 := by omega
    have hgaps : ∀ b ∈ d.bursts, b.1 = 0 := fun b hb =>
      List.sum_eq_zero_iff_forall_eq_nat.1 hsum b.1 (List.mem_map.2 ⟨b, hb, rfl⟩)
    rw [flatMap_gaps_zero hgaps, hlast, List.replicate_zero, List.append_nil] at h
    have hclamp := List.map_inj_left.1 h
    exact ⟨fun b hb => ⟨hgaps b hb, hne b hb, hclamp b hb⟩, hlast⟩
  · rintro ⟨hbursts, hlast⟩
    rw [filter_rest fun b hb => (hbursts b hb).2.1, flatMap_gaps_zero fun b hb => (hbursts b hb).1,
      hlast, List.replicate_zero, List.append_nil, DataLine.burstValues]
    exact List.map_inj_left.2 fun b hb => (hbursts b hb).2.2

/-- Every line that is not markup adds a process; the blank ones are too many. -/
theorem length_rows (lines : List Line) :
    (lines.filterMap Line.row).length =
      (dataLines lines).length + lines.countP Line.isBlank := by
  induction lines with
  | nil => rfl
  | cons line lines ih =>
      cases line with
      | markup rest =>
          simpa [Line.row, dataLines, Line.data?, Line.isBlank, List.filterMap_cons] using ih
      | blank blanks =>
          simp [Line.row, dataLines, Line.data?, Line.isBlank, List.filterMap_cons,
            List.countP_cons] at ih ⊢
          omega
      | data d =>
          simp [Line.row, dataLines, Line.data?, Line.isBlank] at ih ⊢
          omega

theorem rows_of_no_blank {lines : List Line} (hblank : ∀ k, Line.blank k ∉ lines) :
    lines.filterMap Line.row = (dataLines lines).map fun d => clampInt d.first.value :: d.rest := by
  induction lines with
  | nil => rfl
  | cons line lines ih =>
      have htail := ih fun k hk => hblank k (List.mem_cons_of_mem _ hk)
      cases line with
      | markup rest => simpa [Line.row, dataLines, Line.data?, List.filterMap_cons] using htail
      | blank blanks => exact absurd List.mem_cons_self (hblank blanks)
      | data d => simpa [Line.row, dataLines, Line.data?, List.filterMap_cons] using htail

theorem mem_dataLines {lines : List Line} {d : DataLine} :
    d ∈ dataLines lines ↔ Line.data d ∈ lines := by
  simp only [dataLines, List.mem_filterMap]
  constructor
  · rintro ⟨line, hline, hd⟩
    cases line with
    | markup rest => simp [Line.data?] at hd
    | blank blanks => simp [Line.data?] at hd
    | data d' => simpa [← (Option.some.inj hd)] using hline
  · intro hd
    exact ⟨.data d, hd, rfl⟩

theorem forall_clean_iff {lines : List Line} :
    (∀ line ∈ lines, line.Clean) ↔
      (∀ k, Line.blank k ∉ lines) ∧ ∀ d ∈ dataLines lines, d.Clean := by
  constructor
  · intro h
    exact ⟨fun k hk => h _ hk, fun d hd => h _ (mem_dataLines.1 hd)⟩
  · rintro ⟨hblank, hdata⟩ line hline
    cases line with
    | markup rest => trivial
    | blank blanks => exact hblank blanks hline
    | data d => exact hdata d (mem_dataLines.2 hline)

/-- Without blank lines the vectors describe the data lines exactly when each is read as meant. -/
theorem describes_iff {ds : List DataLine} {r : ReadData}
    (h : Reads (ds.map fun d => clampInt d.first.value :: d.rest) r) :
    Describes ds r ↔ ∀ d ∈ ds, d.Clean := by
  have hprocess : r.process = ds.map fun d => d.rest.filter (· ≠ -1) := by
    rw [h.process, List.map_map]
    rfl
  have hptot : r.ptot = ds.map fun d => clampInt d.first.value := by
    rw [h.ptot, List.filterMap_map]
    exact congrFun List.filterMap_eq_map ds
  constructor
  · intro hd d hmem
    have hfirst := List.map_inj_left.1 (hptot.symm.trans hd.ptot) d hmem
    have hrest := List.map_inj_left.1 (hprocess.symm.trans hd.process) d hmem
    rcases (filter_rest_eq_iff d).1 hrest with ⟨hbursts, hlast⟩
    exact ⟨hfirst, hbursts, hlast⟩
  · intro hclean
    have hlength : r.ptot.length = ds.length := by rw [hptot, List.length_map]
    refine ⟨?_, ?_, ?_, ?_⟩
    · rw [hprocess]
      exact List.map_inj_left.2 fun d hd =>
        (filter_rest_eq_iff d).2 ⟨(hclean d hd).bursts, (hclean d hd).lastGap⟩
    · rw [hptot]
      exact List.map_inj_left.2 fun d hd => (hclean d hd).first
    · intro t
      rw [h.arrival, List.length_map]
      refine List.filter_congr ?_
      intro pid hpid
      have hlt := List.mem_range.1 hpid
      have hfirst := (hclean ds[pid] (List.getElem_mem hlt)).first
      simp [hlt, hfirst]
    · simp [h.trTime, h.waitTime, h.rtimeTotal, h.btimeTotal, h.ptimeTotal, h.penalty, h.iocheck,
        hlength, hprocess]

/-- **The parser.**  The vectors describe the data lines of a file exactly when it has no blank line,
its integers are separated by single blanks and fit the type `int`, and no burst is -1. -/
theorem readdata_iff {file : List Char} {lines : List Line}
    (hlines : getlines '\n' file = lines.map Line.text) :
    Describes (dataLines lines) (readdata file) ↔ ∀ line ∈ lines, line.Clean := by
  have hreads := readdata_reads hlines
  rw [forall_clean_iff]
  constructor
  · intro h
    have hcount := length_rows lines
    rw [← hreads.j] at hcount
    have hlength : (readdata file).process.length = (readdata file).j := by
      rw [hreads.process, List.length_map, hreads.j]
    rw [← hlength, h.lengths.1] at hcount
    have hblank : ∀ k, Line.blank k ∉ lines := by
      intro k hk
      have hnone := List.countP_eq_zero.1 (by omega : lines.countP Line.isBlank = 0) _ hk
      exact absurd rfl hnone
    rw [rows_of_no_blank hblank] at hreads
    exact ⟨hblank, (describes_iff hreads).1 h⟩
  · rintro ⟨hblank, hclean⟩
    rw [rows_of_no_blank hblank] at hreads
    exact (describes_iff hreads).2 hclean

/-- A file with a markup line and the data line `3 15 2 -1`. -/
theorem readdata_iff_single_blanks :
    Describes
      [⟨⟨.none, [3], by decide⟩, [(0, ⟨.none, [1, 5], by decide⟩), (0, ⟨.none, [2], by decide⟩)], 0⟩]
      (readdata ['<', 'p', '>', '\n', '3', ' ', '1', '5', ' ', '2', ' ', '-', '1', '\n']) := by
  have hlines : getlines '\n'
        ['<', 'p', '>', '\n', '3', ' ', '1', '5', ' ', '2', ' ', '-', '1', '\n'] =
      [Line.markup ['p', '>'],
        .data ⟨⟨.none, [3], by decide⟩,
          [(0, ⟨.none, [1, 5], by decide⟩), (0, ⟨.none, [2], by decide⟩)], 0⟩].map Line.text := by
    decide
  refine (readdata_iff hlines).2 (forall_clean_iff.2 ⟨by simp, ?_⟩)
  intro d hd
  rw [List.mem_singleton.1 hd]
  refine ⟨by decide, ?_, rfl⟩
  intro b hb
  rcases List.mem_pair.1 hb with rfl | rfl
  · decide
  · decide

/-- With two blanks in front of the 2, as in `process3.dat`, a burst of 0 is queued between 15 and 2. -/
theorem double_blank_adds_burst :
    getlines '\n' ['0', ' ', '1', '5', ' ', ' ', '2', ' ', '-', '1', '\n'] =
        [Line.data ⟨⟨.none, [0], by decide⟩,
          [(0, ⟨.none, [1, 5], by decide⟩), (1, ⟨.none, [2], by decide⟩)], 0⟩].map Line.text ∧
      (readdata ['0', ' ', '1', '5', ' ', ' ', '2', ' ', '-', '1', '\n']).process = [[15, 0, 2]] ∧
      ¬ Describes
        (dataLines [Line.data ⟨⟨.none, [0], by decide⟩,
          [(0, ⟨.none, [1, 5], by decide⟩), (1, ⟨.none, [2], by decide⟩)], 0⟩])
        (readdata ['0', ' ', '1', '5', ' ', ' ', '2', ' ', '-', '1', '\n']) := by
  refine ⟨by decide, by decide, ?_⟩
  intro h
  exact absurd h.process (by decide)

/-! ## The state the event loop starts from -/

/-- On the data lines of a workload the vectors are those of its initial state. -/
theorem Describes.init {ds : List DataLine} {r : ReadData} (h : Describes ds r) {w : Workload}
    (hbursts : ds.map DataLine.burstValues = w.map fun job => job.bursts.map Nat.cast)
    (harrival : (ds.map fun d => d.first.value) = w.map fun job => (job.arrival : Int)) :
    (∀ pid, r.process[pid]?.getD [] = ((SimState.init w).process pid).map Nat.cast) ∧
      (∀ pid, r.ptot[pid]?.getD 0 = w.ptot pid) ∧
      ∀ t : Nat, r.arrival t = w.arrivalsAt t := by
  have hlength : ds.length = w.length := by simpa using congrArg List.length hbursts
  refine ⟨?_, ?_, ?_⟩
  · intro pid
    rw [h.process, hbursts, List.getElem?_map]
    cases hpid : w[pid]? with
    | none => simp [SimState.init, Workload.bursts, hpid]
    | some job => simp [SimState.init, Workload.bursts, hpid]
  · intro pid
    rw [h.ptot, harrival, List.getElem?_map]
    cases hpid : w[pid]? with
    | none => simp [Workload.ptot, hpid]
    | some job => simp [Workload.ptot, hpid]
  · intro t
    rw [h.arrival, Workload.arrivalsAt, hlength]
    refine List.filter_congr ?_
    intro pid hpid
    have hlt : pid < w.length := List.mem_range.1 hpid
    rw [← List.getElem?_map, harrival, List.getElem?_map]
    simp only [Workload.ptot, List.getElem?_eq_getElem hlt, Option.map_some, Option.elim_some,
      Option.some.injEq, Int.natCast_inj]

end Sjf
end OsLab

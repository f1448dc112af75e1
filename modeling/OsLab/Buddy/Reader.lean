import OsLab.Buddy.Returns
import OsLab.Lib.Runs
import OsLab.Lib.Stdio

/-!
# Reader — the reading loop of `main`

`main` of `200010004.cpp` reads the number of tests with `fscanf`, and for each test the exponents `U`
and `L` with `fscanf` and the requests line by line with `fgets` and `sscanf`, up to an empty line.

The reader is told by the calls that it makes: for each test the sizes that the allocator is built with
and the calls of `releaseMemory` and `allocateMemory`.  The allocator runs along, and a run fails (`none`)
where a call does not return, or where the behaviour is undefined: a number outside of `int`, or a
variable that was never set.
-/

namespace OsLab
namespace Buddy

open OsLab.Lib
open BuddySystem

/-! ## The loop -/

inductive Call
  | releaseMemory (pid : Int)
  | allocateMemory (pid size : Int)
  deriving DecidableEq, Repr

/-- A turn of the outer loop: what the test says, and the calls that it leads to. -/
structure TestRun where
  U : Int
  L : Int
  lowsize : Int
  upsize : Int
  calls : List Call
  deriving DecidableEq, Repr

/-- The call for a line. -/
def callOf (pname : Char) (pbytes : Int) : Call :=
  let pid : Int := pname.toNat - 64
  if pbytes = 0 then .releaseMemory pid else .allocateMemory pid pbytes

/-- `pow(2, x)` without its fraction. -/
def pow2 (x : Int) : Int :=
  if x < 0 then 0 else 2 ^ x.toNat

/-- The request that a call puts into the queue, from which it is taken at once.  `below` compares the
addresses of two blocks. -/
def Call.request (below : Ptr → Ptr → Bool) : Call → Request
  | .releaseMemory pid => ⟨pid, 0, true, below⟩
  | .allocateMemory pid size => ⟨pid, size, false, below⟩

def serve (below : Ptr → Ptr → Bool) (buddy : BuddySystem) (c : Call) : Option BuddySystem :=
  buddy.processRequest (c.request below)

/-- `sscanf(line, "%c %d\n", &pname_in, &pbytes)` and the call.  `pbytes` keeps its value where the
line has no number. -/
def readRequest (pbytes : Option Int) : List Char → Option (Call × Option Int)
  | [] => none
  | pname :: line => do
      let (number, _) ← scanInt (skipSpace line)
      let pbytes ← number.or pbytes
      return (callOf pname pbytes, some pbytes)

/-- The inner loop, with the text that it leaves.  Each turn takes at least one character. -/
def readRequests (below : Ptr → Ptr → Bool) :
    Nat → BuddySystem → Option Int → List Char → Option (List Call × List Char)
  | 0, _, _, _ => none
  | fuel + 1, buddy, pbytes, text =>
      match fgets 20 text with
      | none => some ([], text)
      | some (line, rest) =>
          if line.head? = some '\n' then some ([], rest)
          else do
            let (call, pbytes) ← readRequest pbytes line
            let buddy ← serve below buddy call
            let (calls, rest) ← readRequests below fuel buddy pbytes rest
            return (call :: calls, rest)

/-- A turn of the outer loop. -/
def readTest (below : Ptr → Ptr → Bool) (text : List Char) : Option (TestRun × List Char) := do
  -- `fscanf(in, "%d %d\n", &U, &L)`
  let (U, rest) ← scanInt text
  let U ← U
  let (L, rest) ← scanInt (skipSpace rest)
  let L ← L
  let rest := skipSpace rest
  let upsize ← toInt (pow2 U)
  let lowsize ← toInt (pow2 L)
  let (calls, rest) ← readRequests below (rest.length + 1) (init lowsize upsize) none rest
  return (⟨U, L, lowsize, upsize, calls⟩, rest)

/-- The addresses are compared by `below n` in the test behind which `n` tests are left. -/
def readTests (below : Nat → Ptr → Ptr → Bool) : Nat → List Char → Option (List TestRun)
  | 0, _ => some []
  | n + 1, text => do
      let (run, rest) ← readTest (below n) text
      let runs ← readTests below n rest
      return run :: runs

/-- The reading loop of `main`. -/
def readInput (below : Nat → Ptr → Ptr → Bool) (text : List Char) : Option (List TestRun) := do
  -- `fscanf(in, "%d\n", &T)`
  let (T, rest) ← scanInt text
  let T ← T
  readTests below T.toNat (skipSpace rest)

/-! ## The input format -/

/-- A request, on a line of at most 18 characters. -/
structure RequestLine where
  letter : Char
  number : Numeral
  isLetter : letter.isAlpha = true
  short : (letter :: ' ' :: number.text).length ≤ 18

def RequestLine.text (r : RequestLine) : List Char :=
  r.letter :: ' ' :: r.number.text

def RequestLine.call (r : RequestLine) : Call :=
  callOf r.letter r.number.value

structure TestCase where
  U : Numeral
  L : Numeral
  requests : List RequestLine

/-- The request lines, each behind the end of the line before. -/
def requestLines (requests : List RequestLine) : List Char :=
  requests.flatMap fun r => '\n' :: r.text

def TestCase.text (t : TestCase) : List Char :=
  t.U.text ++ ' ' :: (t.L.text ++ requestLines t.requests)

/-- What follows the last line of a test: nothing, the end of that line, or an empty line and the next
test. -/
inductive Ending
  | eof
  | newline
  | blank (more : List Char)

def Ending.text : Ending → List Char
  | .eof => []
  | .newline => ['\n']
  | .blank more => '\n' :: '\n' :: more

def Ending.rest : Ending → List Char
  | .blank more => more
  | _ => []

/-- The tests with empty lines between them, and with or without an end of the last line. -/
def testsText (newline : Bool) : List TestCase → List Char
  | [] => []
  | [t] => t.text ++ (if newline then Ending.newline else Ending.eof).text
  | t :: t' :: tests => t.text ++ (Ending.blank (testsText newline (t' :: tests))).text

def inputText (count : Numeral) (newline : Bool) (tests : List TestCase) : List Char :=
  count.text ++ '\n' :: '\n' :: testsText newline tests

/-- What the reader should do with a test. -/
def TestCase.run (t : TestCase) : TestRun where
  U := t.U.value
  L := t.L.value
  lowsize := pow2 t.L.value
  upsize := pow2 t.U.value
  calls := t.requests.map RequestLine.call

/-- The numbers of a test, and its sizes, are of the type `int`. -/
structure TestCase.InRange (t : TestCase) : Prop where
  upper : INT_MIN ≤ t.U.value ∧ t.U.value ≤ 30
  lower : INT_MIN ≤ t.L.value ∧ t.L.value ≤ 30
  numbers : ∀ r ∈ t.requests, FitsInt r.number.value

def TestCase.calls (t : TestCase) : List Call :=
  t.requests.map RequestLine.call

/-- The allocator of a test. -/
def TestCase.buddy (t : TestCase) : BuddySystem :=
  init (pow2 t.L.value) (pow2 t.U.value)

/-- No call of the test is endless. -/
def TestCase.Returns (below : Ptr → Ptr → Bool) (t : TestCase) : Prop :=
  Guarded (serve below) (fun buddy c => ¬ Endless buddy (c.request below)) t.buddy t.calls

def AllReturn (below : Nat → Ptr → Ptr → Bool) : List TestCase → Prop
  | [] => True
  | t :: tests => t.Returns (below tests.length) ∧ AllReturn below tests

/-! ## The calls of a test -/

section Serve

variable {below : Ptr → Ptr → Bool} {buddy : BuddySystem} {t : TestCase}

theorem serving_init (L U : Int) : Serving (init (pow2 L) (pow2 U)) := by
  have hcases : ∀ x : Int, (x < 0 ∧ pow2 x = 0) ∨ ∃ n : Nat, x = n ∧ pow2 x = 2 ^ n := by
    intro x
    by_cases hx : x < 0
    · exact Or.inl ⟨hx, if_pos hx⟩
    · obtain ⟨n, rfl⟩ := Int.eq_ofNat_of_zero_le (Int.not_lt.1 hx)
      exact Or.inr ⟨n, rfl, by simp [pow2]⟩
  rcases hcases L with ⟨_, hL⟩ | ⟨l, _, hL⟩
  · rcases hcases U with ⟨_, hU⟩ | ⟨u, _, hU⟩
    · rw [hL, hU]
      exact .sole (Sole.init 0 0) (Int.le_refl 0) (Or.inr ⟨rfl, rfl⟩)
    · rw [hL, hU]
      exact .unbounded (init_inv (Nat.zero_le u))
  · rcases hcases U with ⟨_, hU⟩ | ⟨u, _, hU⟩
    · have hpos : (0 : Int) < 2 ^ l := by positivity
      rw [hL, hU]
      exact .sole (Sole.init _ 0) (Int.le_refl 0) (Or.inl hpos)
    · rw [hL, hU]
      by_cases hle : l ≤ u
      · exact .tree (init_inv hle)
      · -- The root is smaller than the smallest block.
        have hmono : (2 : Int) ^ u ≤ 2 ^ l := by
          exact_mod_cast Nat.pow_le_pow_right (by decide) (Nat.le_of_not_le hle)
        have hpos : (0 : Int) < 2 ^ u := by positivity
        refine .sole (Sole.init _ _) hpos.le (Or.inl ?_)
        rw [Int.tdiv_eq_ediv_of_nonneg hpos.le]
        change (2 : Int) ^ u / 2 < 2 ^ l
        omega

/-- The number of a process is the place of a letter. -/
theorem RequestLine.pid_ne (below : Ptr → Ptr → Bool) (r : RequestLine) :
    (r.call.request below).pid ≠ 0 := by
  have hne : (r.letter.toNat : Int) - 64 ≠ 0 := by
    intro hzero
    have hat : r.letter = '@' := by
      have hnat : r.letter.toNat = 64 := by omega
      rw [← Char.ofNat_toNat r.letter, hnat]
    have halpha := r.isLetter
    rw [hat] at halpha
    exact absurd halpha (by decide)
  unfold RequestLine.call callOf
  dsimp only
  split
  · exact hne
  · exact hne

/-- All calls return exactly when none of them is endless. -/
theorem serve_isSome_iff (below : Ptr → Ptr → Bool) :
    ∀ {rs : List RequestLine} {buddy : BuddySystem}, Serving buddy →
      (((rs.map RequestLine.call).foldlM (serve below) buddy).isSome = true ↔
        Guarded (serve below) (fun buddy c => ¬ Endless buddy (c.request below)) buddy
          (rs.map RequestLine.call))
  | [], buddy, _ => by simp [Guarded]
  | r :: rs, buddy, h => by
      rw [List.map_cons, List.foldlM_cons]
      rcases h.request (r.pid_ne below) with ⟨hnone, hendless⟩ | ⟨⟨s', hgo, _, hs'⟩, hnot⟩
      · have hserve : serve below buddy r.call = none := hnone
        rw [hserve]
        refine iff_of_false (by simp) ?_
        intro hguard
        exact hguard.1 hendless
      · have hserve : serve below buddy r.call = some s' := hgo
        rw [hserve]
        refine (serve_isSome_iff below hs').trans ?_
        constructor
        · intro hrest
          exact Guarded.cons s' hserve hnot hrest
        · intro hguard
          exact hguard.2 s' hserve

theorem TestCase.returns_iff (below : Ptr → Ptr → Bool) (t : TestCase) :
    (t.calls.foldlM (serve below) t.buddy).isSome = true ↔ t.Returns below :=
  serve_isSome_iff below (serving_init _ _)

end Serve

section Lines

variable {r : RequestLine} {below : Ptr → Ptr → Bool}

theorem isSpace_of_isAlpha {c : Char} (hc : c.isAlpha = true) : isSpace c = false := by
  have hnat : ∀ n : Nat, n < 33 → (Char.ofNat n).isAlpha = false := by decide
  by_contra hspace
  rw [Bool.not_eq_false] at hspace
  have hsmall : c.toNat < 33 := by
    simp only [isSpace, Bool.or_eq_true, decide_eq_true_eq] at hspace
    rcases hspace with ((((rfl | rfl) | rfl) | rfl) | h) | h
    · decide
    · decide
    · decide
    · decide
    · omega
    · omega
  have halpha := hnat c.toNat hsmall
  rw [Char.ofNat_toNat, hc] at halpha
  cases halpha

theorem RequestLine.newline_not_mem (r : RequestLine) : '\n' ∉ r.text := by
  intro hmem
  have hletter := isSpace_of_isAlpha r.isLetter
  rcases List.mem_cons.1 hmem with heq | hmem
  · rw [← heq] at hletter
    cases hletter
  · rcases List.mem_cons.1 hmem with heq | hmem
    · cases heq
    · have hnumber := r.number.not_space_of_mem hmem
      cases hnumber

theorem RequestLine.head_ne_newline (r : RequestLine) (rest : List Char) :
    (r.text ++ rest).head? ≠ some '\n' := by
  intro hhead
  have hletter : r.letter = '\n' := Option.some.inj hhead
  exact r.newline_not_mem (hletter ▸ List.mem_cons_self)

theorem readRequest_line (pbytes : Option Int) (r : RequestLine) {rest : List Char}
    (hrest : ∀ c ∈ rest.head?, c.isDigit = false) :
    readRequest pbytes (r.text ++ rest) =
      if FitsInt r.number.value then some (r.call, some r.number.value) else none := by
  have hskip : skipSpace (' ' :: (r.number.text ++ rest)) = r.number.text ++ rest := by
    rcases r.number.text_head with ⟨c, text, heq, hc⟩
    rw [skipSpace_space (by decide), heq, List.cons_append, skipSpace_of_head hc]
  have hscan := scanInt_numeral r.number hrest
  simp only [RequestLine.text, List.cons_append, readRequest, hskip, hscan]
  split
  · rfl
  · rfl

/-! ## The inner loop -/

/-- A line with its end. -/
theorem readRequests_line (fuel : Nat) (buddy : BuddySystem) (pbytes : Option Int) (r : RequestLine)
    (rest : List Char) :
    readRequests below (fuel + 1) buddy pbytes (r.text ++ '\n' :: rest) =
      if FitsInt r.number.value then
        (serve below buddy r.call).bind fun buddy =>
          (readRequests below fuel buddy (some r.number.value) rest).map fun p => (r.call :: p.1, p.2)
      else none := by
  have hline : fgets 20 (r.text ++ '\n' :: rest) = some (r.text ++ ['\n'], rest) :=
    congrArg some (takeLine_line r.newline_not_mem rest (Nat.lt_succ_of_le r.short))
  rw [readRequests, hline]
  simp only [if_neg (r.head_ne_newline _),
    readRequest_line pbytes r (by simp : ∀ c ∈ ['\n'].head?, _)]
  split
  · refine congrArg (Option.bind (serve below buddy r.call)) (funext fun buddy => ?_)
    change (readRequests below fuel buddy (some r.number.value) rest).bind _ = _
    cases readRequests below fuel buddy (some r.number.value) rest with
    | none => rfl
    | some p => rfl
  · rfl

/-- The last line of a file, without its end. -/
theorem readRequests_last (fuel : Nat) (buddy : BuddySystem) (pbytes : Option Int) (r : RequestLine) :
    readRequests below (fuel + 2) buddy pbytes r.text =
      if FitsInt r.number.value then (serve below buddy r.call).map fun _ => ([r.call], []) else none := by
  have hline : fgets 20 r.text = some (r.text, []) :=
    congrArg some (takeLine_last r.newline_not_mem (Nat.le_succ_of_le r.short))
  have hread := readRequest_line pbytes r (by simp : ∀ c ∈ ([] : List Char).head?, _)
  have hhead := r.head_ne_newline []
  rw [List.append_nil] at hread hhead
  rw [readRequests, hline]
  simp only [if_neg hhead, hread]
  split
  · change (serve below buddy r.call).bind _ = _
    cases serve below buddy r.call with
    | none => rfl
    | some buddy => rfl
  · rfl

/-- The numbers of the requests are of the type `int`, and their calls return. -/
def Served (below : Ptr → Ptr → Bool) (buddy : BuddySystem) (rs : List RequestLine) : Prop :=
  (∀ x ∈ rs, FitsInt x.number.value) ∧
    ((rs.map RequestLine.call).foldlM (serve below) buddy).isSome = true

instance (below : Ptr → Ptr → Bool) (buddy : BuddySystem) (rs : List RequestLine) :
    Decidable (Served below buddy rs) :=
  inferInstanceAs (Decidable (_ ∧ _))

theorem served_single {buddy : BuddySystem} :
    Served below buddy [r] ↔ FitsInt r.number.value ∧ (serve below buddy r.call).isSome = true := by
  simp [Served]

theorem served_cons {buddy : BuddySystem} {rs : List RequestLine} :
    Served below buddy (r :: rs) ↔
      FitsInt r.number.value ∧ ∃ s', serve below buddy r.call = some s' ∧ Served below s' rs := by
  rw [Served, List.forall_mem_cons, List.map_cons, List.foldlM_cons]
  cases serve below buddy r.call with
  | none => simp
  | some s' => simp [Served, and_assoc]

/-- All request lines of a test. -/
theorem readRequests_lines (e : Ending) (rs : List RequestLine) :
    ∀ (r : RequestLine) (buddy : BuddySystem) (pbytes : Option Int) (fuel : Nat), rs.length + 2 ≤ fuel →
      readRequests below fuel buddy pbytes (r.text ++ (requestLines rs ++ e.text)) =
        if Served below buddy (r :: rs) then some ((r :: rs).map RequestLine.call, e.rest) else none := by
  induction rs with
  | nil =>
      intro r buddy pbytes fuel hfuel
      obtain ⟨fuel, rfl⟩ : ∃ k, fuel = k + 2 := ⟨fuel - 2, by omega⟩
      have hend : readRequests below (fuel + 2) buddy pbytes (r.text ++ e.text) =
          if FitsInt r.number.value then (serve below buddy r.call).map fun _ => ([r.call], e.rest)
          else none := by
        cases e with
        | eof =>
            rw [Ending.text, List.append_nil, readRequests_last]
            rfl
        | newline =>
            rw [Ending.text, readRequests_line]
            refine if_congr Iff.rfl ?_ rfl
            cases serve below buddy r.call with
            | none => rfl
            | some s' => rfl
        | blank more =>
            rw [Ending.text, readRequests_line]
            refine if_congr Iff.rfl ?_ rfl
            cases serve below buddy r.call with
            | none => rfl
            | some s' => rfl
      simp only [requestLines, List.flatMap_nil, List.nil_append, hend, served_single]
      by_cases hr : FitsInt r.number.value
      · cases hserve : serve below buddy r.call with
        | none => simp [hr]
        | some s' => simp [hr]
      · simp [hr]
  | cons r' rs ih =>
      intro r buddy pbytes fuel hfuel
      obtain ⟨fuel, rfl⟩ : ∃ k, fuel = k + 1 := ⟨fuel - 1, by omega⟩
      have hnext : r.text ++ (requestLines (r' :: rs) ++ e.text) =
          r.text ++ '\n' :: (r'.text ++ (requestLines rs ++ e.text)) := by
        simp [requestLines]
      rw [hnext, readRequests_line]
      simp only [served_cons (r := r)]
      by_cases hr : FitsInt r.number.value
      · cases hserve : serve below buddy r.call with
        | none => simp [hr]
        | some s' =>
            simp only [if_pos hr, Option.bind_some, ih r' s' _ fuel (Nat.le_of_succ_le_succ hfuel)]
            by_cases hrest : Served below s' (r' :: rs)
            · simp [hr, hrest]
            · simp [hr, hrest]
      · simp [hr]

/-- Where no empty line is next, there is a call. -/
theorem readRequests_ne_nil {fuel : Nat} {buddy : BuddySystem} {pbytes : Option Int} {c : Char}
    {text : List Char} (hc : isSpace c = false) {p : List Call × List Char}
    (h : readRequests below fuel buddy pbytes (c :: text) = some p) : p.1 ≠ [] := by
  have hne : c ≠ '\n' := by
    rintro rfl
    cases hc
  cases fuel with
  | zero => cases h
  | succ fuel =>
      rw [readRequests, fgets_cons] at h
      simp only [takeLine, if_neg hne, List.head?_cons, Option.some.injEq] at h
      rcases Option.bind_eq_some_iff.1 h with ⟨⟨call, pbytes'⟩, _, h⟩
      rcases Option.bind_eq_some_iff.1 h with ⟨buddy', _, h⟩
      rcases Option.bind_eq_some_iff.1 h with ⟨⟨calls, rest⟩, _, h⟩
      cases h
      exact List.cons_ne_nil _ _

end Lines

/-! ## The outer loop -/

section Tests

variable {t : TestCase} {e : Ending} {newline : Bool} {below : Ptr → Ptr → Bool}

/-- A power of two is of the type `int` up to the exponent 30. -/
theorem fitsInt_pow2_iff {v : Int} :
    FitsInt v ∧ FitsInt (pow2 v) ↔ INT_MIN ≤ v ∧ v ≤ 30 := by
  by_cases hneg : v < 0
  · simp only [FitsInt, pow2, if_pos hneg, INT_MIN, INT_MAX]
    omega
  · obtain ⟨n, rfl⟩ := Int.eq_ofNat_of_zero_le (Int.not_lt.1 hneg)
    have hpow : pow2 (n : Int) = 2 ^ n := by simp [pow2]
    simp only [FitsInt, hpow, INT_MIN, INT_MAX]
    by_cases hn : n ≤ 30
    · have hle : (2 : Int) ^ n ≤ 2 ^ 30 := by
        exact_mod_cast Nat.pow_le_pow_right (by decide) hn
      have hpos : (0 : Int) < 2 ^ n := by positivity
      omega
    · have hge : (2 : Int) ^ 31 ≤ 2 ^ n := by
        exact_mod_cast Nat.pow_le_pow_right (by decide) (by omega : 31 ≤ n)
      omega

/-- The line with the two exponents, and the requests behind all the white space that follows. -/
theorem readTest_header (below : Ptr → Ptr → Bool) (t : TestCase) {tail : List Char}
    (htail : ∀ c ∈ tail.head?, c.isDigit = false) :
    readTest below (t.U.text ++ ' ' :: (t.L.text ++ tail)) =
      if (INT_MIN ≤ t.U.value ∧ t.U.value ≤ 30) ∧ INT_MIN ≤ t.L.value ∧ t.L.value ≤ 30 then
        (readRequests below ((skipSpace tail).length + 1) t.buddy none (skipSpace tail)).map fun p =>
          ({ t.run with calls := p.1 }, p.2)
      else none := by
  have hskip : skipSpace (' ' :: (t.L.text ++ tail)) = t.L.text ++ tail := by
    rcases t.L.text_head with ⟨c, text, heq, hc⟩
    rw [skipSpace_space (by decide), heq, List.cons_append, skipSpace_of_head hc]
  have hU : scanInt (t.U.text ++ ' ' :: (t.L.text ++ tail)) = _ :=
    scanInt_numeral t.U (by simp)
  have hL := scanInt_numeral t.L htail
  simp only [← fitsInt_pow2_iff, readTest, hU]
  by_cases hfitU : FitsInt t.U.value
  · simp only [if_pos hfitU, Option.bind_eq_bind, Option.bind_some, hskip, hL]
    by_cases hfitL : FitsInt t.L.value
    · simp only [if_pos hfitL, Option.bind_some, toInt]
      by_cases hupper : FitsInt (pow2 t.U.value)
      · by_cases hlower : FitsInt (pow2 t.L.value)
        · rw [if_pos hupper, if_pos hlower, if_pos ⟨⟨hfitU, hupper⟩, hfitL, hlower⟩]
          change (readRequests below _ t.buddy none (skipSpace tail)).bind _ = _
          cases readRequests below ((skipSpace tail).length + 1) t.buddy none (skipSpace tail) with
          | none => rfl
          | some p => rfl
        · rw [if_pos hupper, if_neg hlower, if_neg fun h : (_ ∧ _) ∧ _ ∧ _ => hlower h.2.2]
          rfl
      · rw [if_neg hupper, if_neg fun h : (_ ∧ _) ∧ _ ∧ _ => hupper h.1.2]
        rfl
    · rw [if_neg hfitL, if_neg fun h : (_ ∧ _) ∧ _ ∧ _ => hfitL h.2.1]
      rfl
  · rw [if_neg hfitU, if_neg fun h : (_ ∧ _) ∧ _ ∧ _ => hfitU h.1.1]
    rfl

theorem head_not_digit (rs : List RequestLine) (e : Ending) :
    ∀ c ∈ (requestLines rs ++ e.text).head?, c.isDigit = false := by
  cases rs with
  | nil =>
      cases e with
      | eof => simp [requestLines, Ending.text]
      | newline => simp [requestLines, Ending.text]
      | blank more => simp [requestLines, Ending.text]
  | cons r rs => simp [requestLines]

theorem TestCase.text_append (t : TestCase) (e : Ending) :
    t.text ++ e.text = t.U.text ++ ' ' :: (t.L.text ++ (requestLines t.requests ++ e.text)) := by
  simp [TestCase.text]

/-- What the inner loop does with the lines of a test. -/
def LinesRead (below : Ptr → Ptr → Bool) (t : TestCase) (e : Ending) (rest : List Char) : Prop :=
  let lines := skipSpace (requestLines t.requests ++ e.text)
  (Served below t.buddy t.requests →
      readRequests below (lines.length + 1) t.buddy none lines = some (t.calls, rest)) ∧
    (¬ Served below t.buddy t.requests →
      readRequests below (lines.length + 1) t.buddy none lines = none)

/-- The numbers are of the type `int`, and all calls return. -/
def TestCase.Ok (below : Ptr → Ptr → Bool) (t : TestCase) : Prop :=
  t.InRange ∧ t.Returns below

theorem TestCase.served_iff (below : Ptr → Ptr → Bool) (t : TestCase) :
    Served below t.buddy t.requests ↔ (∀ r ∈ t.requests, FitsInt r.number.value) ∧ t.Returns below :=
  and_congr_right fun _ => t.returns_iff below

theorem LinesRead.test {rest : List Char} (h : LinesRead below t e rest) :
    (t.Ok below → readTest below (t.text ++ e.text) = some (t.run, rest)) ∧
      (¬ t.Ok below → readTest below (t.text ++ e.text) = none) := by
  have hhead := readTest_header below t (head_not_digit t.requests e)
  rw [t.text_append, hhead]
  constructor
  · rintro ⟨hrange, hreturns⟩
    rw [if_pos ⟨hrange.upper, hrange.lower⟩,
      h.1 ((t.served_iff below).2 ⟨hrange.numbers, hreturns⟩)]
    rfl
  · intro hnot
    by_cases hcond : (INT_MIN ≤ t.U.value ∧ t.U.value ≤ 30) ∧ INT_MIN ≤ t.L.value ∧ t.L.value ≤ 30
    · have hserved : ¬ Served below t.buddy t.requests := by
        intro hserved
        rcases (t.served_iff below).1 hserved with ⟨hnumbers, hreturns⟩
        exact hnot ⟨⟨hcond.1, hcond.2, hnumbers⟩, hreturns⟩
      rw [if_pos hcond, h.2 hserved]
      rfl
    · rw [if_neg hcond]

theorem length_le_requestLines (rs : List RequestLine) : rs.length ≤ (requestLines rs).length := by
  induction rs with
  | nil => exact Nat.le_refl 0
  | cons r rs ih =>
      have hcons : requestLines (r :: rs) = '\n' :: r.text ++ requestLines rs := rfl
      rw [hcons, List.length_append, List.length_cons, List.length_cons]
      omega

/-- A test with requests. -/
theorem linesRead_requests (below : Ptr → Ptr → Bool) (t : TestCase) (e : Ending)
    (hne : t.requests ≠ []) : LinesRead below t e e.rest := by
  cases hrequests : t.requests with
  | nil => exact absurd hrequests hne
  | cons r rs =>
      have hskip : skipSpace (requestLines t.requests ++ e.text) =
          r.text ++ (requestLines rs ++ e.text) := by
        have hcons : requestLines t.requests ++ e.text =
            '\n' :: (r.letter :: (' ' :: r.number.text ++ (requestLines rs ++ e.text))) := by
          simp [hrequests, requestLines, RequestLine.text]
        rw [hcons, skipSpace_space (by decide), skipSpace_of_head (isSpace_of_isAlpha r.isLetter)]
        rfl
      have hfuel : rs.length + 2 ≤ (r.text ++ (requestLines rs ++ e.text)).length + 1 := by
        have hle := length_le_requestLines rs
        simp only [List.length_append, RequestLine.text, List.length_cons]
        omega
      rw [LinesRead, hskip]
      simp only [readRequests_lines e rs r t.buddy none _ hfuel, TestCase.calls, hrequests]
      exact ⟨fun hall => if_pos hall, fun hall => if_neg hall⟩

/-- The last test, without requests. -/
theorem linesRead_last (below : Ptr → Ptr → Bool) (t : TestCase) (newline : Bool)
    (hnil : t.requests = []) : LinesRead below t (if newline then .newline else .eof) [] := by
  have hskip : skipSpace (requestLines t.requests ++
      (if newline then Ending.newline else Ending.eof).text) = [] := by
    rw [hnil]
    cases newline with
    | false => rfl
    | true => decide
  rw [LinesRead, hskip, TestCase.calls, hnil]
  exact ⟨fun _ => rfl, fun hnot => absurd (by simp [Served]) hnot⟩

/-- A test without requests in front of another one: the next line that is not empty is taken for a
request. -/
theorem readTest_empty (t : TestCase) (hnil : t.requests = []) {c : Char} (hc : isSpace c = false)
    (text : List Char) {p : TestRun × List Char}
    (h : readTest below (t.text ++ (Ending.blank (c :: text)).text) = some p) : p.1 ≠ t.run := by
  have hskip : skipSpace (requestLines t.requests ++ (Ending.blank (c :: text)).text) =
      c :: text := by
    rw [hnil]
    change skipSpace ('\n' :: '\n' :: c :: text) = _
    rw [skipSpace_space (by decide), skipSpace_space (by decide), skipSpace_of_head hc]
  rw [t.text_append, readTest_header below t (head_not_digit t.requests _), hskip] at h
  split at h
  · rcases Option.map_eq_some_iff.1 h with ⟨q, hq, rfl⟩
    intro heq
    have hcalls : q.1 = t.run.calls := congrArg TestRun.calls heq
    refine readRequests_ne_nil hc hq ?_
    rw [hcalls, TestCase.run, hnil]
    rfl
  · cases h

theorem testsText_head (newline : Bool) (t : TestCase) (tests : List TestCase) :
    ∃ c text, testsText newline (t :: tests) = c :: text ∧ isSpace c = false := by
  rcases t.U.text_head with ⟨c, text, heq, hc⟩
  cases tests with
  | nil => exact ⟨c, _, by rw [testsText, TestCase.text, heq]; rfl, hc⟩
  | cons t' tests => exact ⟨c, _, by rw [testsText, TestCase.text, heq]; rfl, hc⟩

theorem readTests_cons_iff {order : Nat → Ptr → Ptr → Bool} {n : Nat} {text : List Char} {run : TestRun}
    {runs : List TestRun} :
    readTests order (n + 1) text = some (run :: runs) ↔
      ∃ rest, readTest (order n) text = some (run, rest) ∧ readTests order n rest = some runs := by
  rw [readTests]
  constructor
  · intro h
    rcases Option.bind_eq_some_iff.1 h with ⟨⟨run', rest⟩, htest, h⟩
    rcases Option.bind_eq_some_iff.1 h with ⟨runs', htests, h⟩
    cases h
    exact ⟨rest, htest, htests⟩
  · rintro ⟨rest, htest, htests⟩
    simp [htest, htests]

/-- All tests. -/
theorem readTests_iff (order : Nat → Ptr → Ptr → Bool) (newline : Bool) (tests : List TestCase) :
    readTests order tests.length (testsText newline tests) = some (tests.map TestCase.run) ↔
      ((∀ t ∈ tests, t.InRange) ∧ AllReturn order tests) ∧ ∀ t ∈ tests.dropLast, t.requests ≠ [] := by
  induction tests with
  | nil => simp [readTests, AllReturn]
  | cons t tests ih =>
      have hok : ((∀ x ∈ t :: tests, x.InRange) ∧ AllReturn order (t :: tests)) ↔
          t.Ok (order tests.length) ∧ (∀ x ∈ tests, x.InRange) ∧ AllReturn order tests := by
        rw [List.forall_mem_cons, AllReturn, TestCase.Ok]
        tauto
      rw [List.length_cons, List.map_cons, readTests_cons_iff, hok]
      cases tests with
      | nil =>
          -- The last test ends with the file, with or without requests.
          have htest : (t.Ok (order 0) →
              readTest (order 0) (testsText newline [t]) = some (t.run, [])) ∧
                (¬ t.Ok (order 0) → readTest (order 0) (testsText newline [t]) = none) := by
            have hrest : (if newline then Ending.newline else Ending.eof).rest = [] := by
              cases newline with
              | false => rfl
              | true => rfl
            by_cases hnil : t.requests = []
            · exact (linesRead_last (order 0) t newline hnil).test
            · have hlines := (linesRead_requests (order 0) t
                (if newline then .newline else .eof) hnil).test
              rw [hrest] at hlines
              exact hlines
          rw [List.length_nil]
          by_cases hrange : t.Ok (order 0)
          · simp [htest.1 hrange, hrange, readTests, AllReturn]
          · simp [htest.2 hrange, hrange]
      | cons t' tests =>
          have hdrop : (∀ x ∈ (t :: t' :: tests).dropLast, x.requests ≠ []) ↔
              t.requests ≠ [] ∧ ∀ x ∈ (t' :: tests).dropLast, x.requests ≠ [] := by
            rw [List.dropLast_cons_cons]
            exact List.forall_mem_cons
          rw [hdrop, testsText]
          by_cases hnil : t.requests = []
          · -- The empty line is lost, and the next test with it.
            refine iff_of_false ?_ (fun h => h.2.1 hnil)
            rintro ⟨rest, htest, _⟩
            rcases testsText_head newline t' tests with ⟨c, text, heq, hc⟩
            rw [heq] at htest
            exact readTest_empty t hnil hc text htest rfl
          · have hlines := (linesRead_requests (order (t' :: tests).length) t
              (.blank (testsText newline (t' :: tests))) hnil).test
            by_cases hrange : t.Ok (order (t' :: tests).length)
            · rw [hlines.1 hrange]
              have hsame : (∃ rest, some (t.run, Ending.rest
                  (.blank (testsText newline (t' :: tests)))) = some (t.run, rest) ∧
                    readTests order (t' :: tests).length rest = some ((t' :: tests).map TestCase.run)) ↔
                  readTests order (t' :: tests).length (testsText newline (t' :: tests)) =
                    some ((t' :: tests).map TestCase.run) := by
                simp [Ending.rest]
              rw [hsame, ih, and_iff_right hrange, and_iff_right (hnil : t.requests ≠ [])]
            · rw [hlines.2 hrange]
              refine iff_of_false (by simp) ?_
              rintro ⟨⟨hok, _⟩, _⟩
              exact hrange hok

/-- With a smallest block of at least a byte, or numbers that are not negative, every call returns. -/
theorem TestCase.returns_of_bounded (below : Ptr → Ptr → Bool) (t : TestCase)
    (h : 0 ≤ t.L.value ∨ ∀ r ∈ t.requests, 0 ≤ r.number.value) : t.Returns below := by
  have hstep : ∀ (rs : List RequestLine) (buddy : BuddySystem), Serving buddy →
      (buddy.minBlockSize ≠ 0 ∨ ∀ r ∈ rs, 0 ≤ r.number.value) →
        Guarded (serve below) (fun buddy c => ¬ Endless buddy (c.request below)) buddy
          (rs.map RequestLine.call) := by
    intro rs
    induction rs with
    | nil =>
        intro buddy _ _
        exact trivial
    | cons r rs ih =>
        intro buddy hbuddy hbound
        have hnot : ¬ Endless buddy (r.call.request below) := by
          rintro ⟨_, hnegative, hmin, _⟩
          rcases hbound with hne | hnumbers
          · exact hne hmin
          · have hnumber := hnumbers r (List.mem_cons_self ..)
            have hsize : (r.call.request below).size = r.number.value ∨
                (r.call.request below).size = 0 := by
              unfold RequestLine.call callOf
              dsimp only
              split
              · exact Or.inr rfl
              · exact Or.inl rfl
            omega
        rcases hbuddy.request (r.pid_ne below) with ⟨_, hendless⟩ | ⟨⟨s', hgo, hmin, hs'⟩, _⟩
        · exact absurd hendless hnot
        · refine Guarded.cons s' hgo hnot (ih s' hs' ?_)
          rcases hbound with hne | hnumbers
          · exact Or.inl (hmin ▸ hne)
          · exact Or.inr fun x hx => hnumbers x (List.mem_cons_of_mem _ hx)
  refine hstep t.requests t.buddy (serving_init _ _) (h.imp_left ?_)
  intro hL
  have hmin : t.buddy.minBlockSize = 2 ^ t.L.value.toNat := if_neg (Int.not_lt.2 hL)
  rw [hmin]
  positivity

theorem allReturn_of_bounded (order : Nat → Ptr → Ptr → Bool) :
    ∀ {tests : List TestCase},
      (∀ t ∈ tests, 0 ≤ t.L.value ∨ ∀ r ∈ t.requests, 0 ≤ r.number.value) → AllReturn order tests
  | [], _ => trivial
  | t :: _, h =>
      ⟨t.returns_of_bounded _ (h t (List.mem_cons_self ..)),
        allReturn_of_bounded order fun x hx => h x (List.mem_cons_of_mem _ hx)⟩

end Tests

/-- Every test is built with its `U` and `L` and gets its requests in order if and only if every test
but the last one has a request, all numbers and sizes are of the type `int`, and no call asks for a
negative number of bytes while a block is free and the smallest block is 0 bytes long.  The last does
not happen for `0 ≤ L`, nor without negative numbers. -/
theorem reader_serves_iff (order : Nat → Ptr → Ptr → Bool) (count : Numeral) (newline : Bool)
    (tests : List TestCase) (hcount : count.value = tests.length) :
    (readInput order (inputText count newline tests) = some (tests.map TestCase.run) ↔
      (∀ t ∈ tests.dropLast, t.requests ≠ []) ∧ (tests.length : Int) ≤ INT_MAX ∧
        (∀ t ∈ tests, t.InRange) ∧ AllReturn order tests) ∧
      ((∀ t ∈ tests, 0 ≤ t.L.value ∨ ∀ r ∈ t.requests, 0 ≤ r.number.value) → AllReturn order tests) := by
  refine ⟨?_, allReturn_of_bounded order⟩
  have hscan : scanInt (inputText count newline tests) = _ := scanInt_numeral count (by simp)
  have hskip : skipSpace ('\n' :: '\n' :: testsText newline tests) = testsText newline tests := by
    rw [skipSpace_space (by decide), skipSpace_space (by decide)]
    cases tests with
    | nil => rfl
    | cons t tests =>
        rcases testsText_head newline t tests with ⟨c, text, heq, hc⟩
        rw [heq, skipSpace_of_head hc]
  rw [hcount] at hscan
  by_cases hfits : FitsInt tests.length
  · have hread : readInput order (inputText count newline tests) =
        readTests order tests.length (testsText newline tests) := by
      simp [readInput, hscan, hfits, hskip]
    rw [hread, readTests_iff, and_iff_right hfits.2, and_comm]
  · have hread : readInput order (inputText count newline tests) = none := by
      simp [readInput, hscan, hfits]
    have hlarge : ¬ (tests.length : Int) ≤ INT_MAX := by
      intro hle
      refine hfits ⟨?_, hle⟩
      rw [INT_MIN]
      omega
    rw [hread]
    simp [hlarge]

/-- The line `A 10`. -/
def requestA10 : RequestLine where
  letter := 'A'
  number := .ofInt 10
  isLetter := rfl
  short := by decide

/-- The line `A 0`. -/
def requestA0 : RequestLine where
  letter := 'A'
  number := .ofInt 0
  isLetter := rfl
  short := by decide

/-- Two tests, one with a request and its release and the last one without requests. -/
theorem reader_serves_two_tests :
    readInput (fun _ p q => decide (p < q)) "2\n\n10 4\nA 10\nA 0\n\n9 5".toList =
      some [⟨10, 4, 16, 1024, [.allocateMemory 1 10, .releaseMemory 1]⟩, ⟨9, 5, 32, 512, []⟩] := by
  have hserves := reader_serves_iff (fun _ p q => decide (p < q)) (.ofInt 2) false
    [⟨.ofInt 10, .ofInt 4, [requestA10, requestA0]⟩, ⟨.ofInt 9, .ofInt 5, []⟩] rfl
  refine hserves.1.2 ⟨by simp, by decide, ?_, hserves.2 ?_⟩
  · intro t ht
    rcases List.mem_cons.1 ht with rfl | ht
    · exact ⟨by decide, by decide, by decide⟩
    · cases List.mem_singleton.1 ht
      exact ⟨by decide, by decide, by simp⟩
  · intro t ht
    rcases List.mem_cons.1 ht with rfl | ht
    · exact Or.inl (by decide)
    · cases List.mem_singleton.1 ht
      exact Or.inl (by decide)

/-- The first of two tests has no requests: the line `9 5` of the second test is taken for one. -/
theorem empty_test_takes_next_line :
    inputText (.ofInt 2) true
        [⟨.ofInt 10, .ofInt 4, []⟩, ⟨.ofInt 9, .ofInt 5, [requestA10]⟩] =
      "2\n\n10 4\n\n9 5\nA 10\n".toList ∧
    (readTest (fun p q => decide (p < q)) "10 4\n\n9 5\nA 10\n".toList).map (fun p => p.1.calls) =
      some [.allocateMemory (-7) 5, .allocateMemory 1 10] ∧
    readInput (fun _ p q => decide (p < q)) "2\n\n10 4\n\n9 5\nA 10\n".toList ≠
      some [⟨10, 4, 16, 1024, []⟩, ⟨9, 5, 32, 512, [.allocateMemory 1 10]⟩] := by
  decide +kernel

end Buddy
end OsLab

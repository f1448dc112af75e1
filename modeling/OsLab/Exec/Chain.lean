import OsLab.Lib.Stdio

/-!
# Chain — programs that pass a number on

`twice`, `half` and `square` of Lab-02 take the names of the programs to run next and a number.  Each
computes with the number, puts the result in the place of the last argument and calls `execvp` on the
other arguments.

* `char *args[argc-1]` has no element `args[argc-1]`, where the code puts the `NULL` behind the
  arguments.  How many elements behind an array of that length may be written is `spare`; the language
  grants none.
* A program fails (`none`) where the behaviour is undefined: a result outside of `int`, or an access
  outside of an array.
* `execvp` is a parameter: the program that it runs for a name, if there is one.
* A line is out before `execvp` replaces the program, as it is on a terminal.
-/

namespace OsLab
namespace Exec

open OsLab.Lib

/-! ## One program -/

inductive Stage
  | twice
  | half
  | square
  deriving DecidableEq, Repr

def Stage.apply : Stage → Int → Int
  | .twice, number => number * 2
  | .half, number => number.tdiv 2
  | .square, number => number * number

/-- An element of `args`. -/
inductive Slot
  | unset
  | null
  | str (s : List Char)
  deriving DecidableEq, Repr

/-- `args[i] = v` -/
def store (args : List Slot) (i : Nat) (v : Slot) : Option (List Slot) :=
  if i < args.length then some (args.set i v) else none

/-- The arguments that `execvp` finds, up to `NULL`. -/
def argumentsOf : List Slot → Option (List (List Char))
  | .null :: _ => some []
  | .str s :: args => (argumentsOf args).map (s :: ·)
  | _ => none

/-- The line that a program prints: its name and the result. -/
structure Line where
  stage : Stage
  result : List Char
  deriving DecidableEq, Repr

/-- How a program ends: with the message about the missing number, or with `execvp`. -/
inductive StageEnd
  | usage
  | exec (line : Line) (argv : List (List Char))
  deriving DecidableEq, Repr

/-- `main` of a stage.  The result has eleven characters at most, so `number_str` holds it. -/
def stageMain (spare : Nat → Nat) (stage : Stage) (argv : List (List Char)) : Option StageEnd :=
  let argc := argv.length
  if argc = 1 then some .usage
  else do
    let last ← argv[argc - 1]?
    let number ← atoi last
    let number ← toInt (stage.apply number)
    let numberStr := printInt number
    let args := List.replicate (argc - 1 + spare (argc - 1)) Slot.unset
    let args ← (List.range (argc - 1)).foldlM
      (fun args i => argv[i + 1]?.bind fun arg => store args i (.str arg)) args
    let args ← store args (argc - 2) (.str numberStr)
    let args ← store args (argc - 1) .null
    let argv ← argumentsOf args
    return .exec ⟨stage, numberStr⟩ argv

/-! ## The chain -/

/-- What a chain leaves: the lines, and the arguments of the `execvp` that failed. -/
structure ChainEnd where
  lines : List Line
  argv : List (List Char)
  deriving DecidableEq, Repr

section Chain

variable (execvp : List Char → Option Stage) (spare : Nat → Nat)

/-- At most `fuel` programs, one after the other. -/
def chain : Nat → Stage → List (List Char) → Option ChainEnd
  | 0, _, _ => none
  | fuel + 1, stage, argv =>
      match stageMain spare stage argv with
      | none => none
      | some .usage => some ⟨[], argv⟩
      | some (.exec line argv) =>
          match argv.head?.bind execvp with
          | none => some ⟨[line], argv⟩
          | some next => (chain fuel next argv).map fun e => ⟨line :: e.lines, e.argv⟩

/-- The chain from the first program on.  Each program has one argument less than the one before. -/
def runChain (stage : Stage) (argv : List (List Char)) : Option ChainEnd :=
  chain execvp spare argv.length stage argv

end Chain

/-! ## What a chain is for -/

/-- The results one after the other. -/
def results : List Stage → Int → List Int
  | [], _ => []
  | stage :: stages, n => stage.apply n :: results stages (stage.apply n)

/-- Each stage prints the result so far, and the last result is left. -/
def computed (stages : List Stage) (n : Int) : ChainEnd where
  lines := (stages.zip (results stages n)).map fun p => ⟨p.1, printInt p.2⟩
  argv := [printInt (stages.foldl (fun v stage => stage.apply v) n)]

section Stages

variable {execvp : List Char → Option Stage} {spare : Nat → Nat}

theorem store_length (l r : List Slot) (a v : Slot) :
    store (l ++ a :: r) l.length v = some (l ++ v :: r) := by
  rw [store, if_pos (by simp), List.set_append_right _ _ (Nat.le_refl _), Nat.sub_self,
    List.set_cons_zero]

/-- There is no element behind the last one. -/
theorem store_end (l : List Slot) (v : Slot) : store l l.length v = none := by
  rw [store, if_neg (Nat.lt_irrefl _)]

theorem argumentsOf_null (l : List (List Char)) (r : List Slot) :
    argumentsOf (l.map .str ++ .null :: r) = some l := by
  induction l with
  | nil => rfl
  | cons s l ih => simp [argumentsOf, ih]

/-- The loop copies the arguments behind the first one. -/
theorem copy_loop (first : List Char) (rest : List (List Char)) (args : List Slot)
    (hlength : rest.length ≤ args.length) :
    (List.range rest.length).foldlM
        (fun args i => (first :: rest)[i + 1]?.bind fun arg => store args i (.str arg)) args =
      some (rest.map .str ++ args.drop rest.length) := by
  have hloop : ∀ k, k ≤ rest.length →
      (List.range k).foldlM
          (fun args i => (first :: rest)[i + 1]?.bind fun arg => store args i (.str arg)) args =
        some ((rest.take k).map .str ++ args.drop k) := by
    intro k
    induction k with
    | zero => simp
    | succ k ih =>
        intro hk
        have hlt : k < args.length := by omega
        have htaken : ((rest.take k).map Slot.str).length = k := by
          rw [List.length_map, List.length_take_of_le (Nat.le_of_succ_le hk)]
        have hstore := store_length ((rest.take k).map .str) (args.drop (k + 1)) args[k]
          (.str rest[k])
        rw [htaken, ← List.drop_eq_getElem_cons hlt] at hstore
        rw [List.range_succ, List.foldlM_append, ih (Nat.le_of_succ_le hk)]
        simp only [List.foldlM_cons, List.foldlM_nil, List.getElem?_cons_succ,
          List.getElem?_eq_getElem hk, Option.bind_some, Option.bind_eq_bind]
        rw [hstore, List.take_succ_eq_append_getElem hk, List.map_append, List.map_singleton,
          List.append_assoc, List.singleton_append]
        rfl
  have hall := hloop rest.length (Nat.le_refl _)
  rwa [List.take_length] at hall

/-- One stage: it passes the other arguments on with its result, if there is room for the `NULL`. -/
theorem stageMain_eq (spare : Nat → Nat) (stage : Stage) (first : List Char)
    (names : List (List Char)) {x : Numeral} (hx : FitsInt x.value)
    (hresult : FitsInt (stage.apply x.value)) :
    stageMain spare stage (first :: (names ++ [x.text])) =
      if 1 ≤ spare (names.length + 1) then
        some (.exec ⟨stage, printInt (stage.apply x.value)⟩
          (names ++ [printInt (stage.apply x.value)]))
      else none := by
  have hargc : (first :: (names ++ [x.text])).length = names.length + 1 + 1 := by simp
  have hlast : (first :: (names ++ [x.text]))[names.length + 1]? = some x.text := by simp
  have hcopy := copy_loop first (names ++ [x.text])
    (List.replicate (names.length + 1 + spare (names.length + 1)) .unset) (by simp)
  have hrest : (names ++ [x.text]).length = names.length + 1 := by simp
  rw [hrest, List.drop_replicate, Nat.add_sub_cancel_left, List.map_append, List.map_singleton,
    List.append_assoc, List.singleton_append] at hcopy
  have hnumber := store_length (names.map .str)
    (List.replicate (spare (names.length + 1)) .unset) (.str x.text)
    (.str (printInt (stage.apply x.value)))
  rw [List.length_map] at hnumber
  have hread : atoi x.text = some x.value := atoi_numeral hx
  have hargc' : ¬ names.length + 1 + 1 = 1 := by omega
  simp only [stageMain, hargc, if_neg hargc', Nat.add_sub_cancel, hlast, Option.bind_eq_bind,
    Option.bind_some, hread, toInt, if_pos hresult, hcopy]
  have hindex : names.length + 1 + 1 - 2 = names.length := rfl
  rw [hindex, hnumber, Option.bind_some]
  -- The arguments fill the array: the `NULL` goes to the first element behind it.
  have harray : ∀ r, names.map Slot.str ++ Slot.str (printInt (stage.apply x.value)) :: r =
      (names ++ [printInt (stage.apply x.value)]).map Slot.str ++ r := by
    intro r
    simp
  have hfull : ((names ++ [printInt (stage.apply x.value)]).map Slot.str).length =
      names.length + 1 := by
    simp
  rw [harray, ← hfull]
  cases spare ((names ++ [printInt (stage.apply x.value)]).map Slot.str).length with
  | zero =>
      rw [List.replicate_zero, List.append_nil, store_end]
      rfl
  | succ k =>
      rw [List.replicate_succ, store_length, Option.bind_some, argumentsOf_null]
      rfl

/-! ## All stages -/

/-- The rest of the chain, behind the first line. -/
theorem computed_cons (stage : Stage) (stages : List Stage) (n : Int) :
    computed (stage :: stages) n =
      ⟨⟨stage, printInt (stage.apply n)⟩ :: (computed stages (stage.apply n)).lines,
        (computed stages (stage.apply n)).argv⟩ :=
  rfl

theorem map_line_iff {line : Line} {o : Option ChainEnd} {e : ChainEnd} :
    o.map (fun e => (⟨line :: e.lines, e.argv⟩ : ChainEnd)) = some ⟨line :: e.lines, e.argv⟩ ↔
      o = some e := by
  cases o with
  | none => simp
  | some e' =>
      cases e
      cases e'
      simp

section Chain

variable {name : Stage → List Char} (hname : ∀ stage, execvp (name stage) = some stage)
  (hnumber : ∀ v, execvp (printInt v) = none)

include hname hnumber

theorem chain_eq_computed_iff (stages : List Stage) :
    ∀ (stage : Stage) (x : Numeral) (fuel : Nat), stages.length < fuel → FitsInt x.value →
      (∀ v ∈ results (stage :: stages) x.value, FitsInt v) →
      (chain execvp spare fuel stage (name stage :: (stages.map name ++ [x.text])) =
          some (computed (stage :: stages) x.value) ↔
        ∀ m, 1 ≤ m → m ≤ stages.length + 1 → 1 ≤ spare m) := by
  induction stages with
  | nil =>
      intro stage x fuel hfuel hx hfits
      obtain ⟨fuel, rfl⟩ : ∃ k, fuel = k + 1 := ⟨fuel - 1, by omega⟩
      have hstage : stageMain spare stage (name stage :: (([] : List Stage).map name ++ [x.text])) = _ :=
        stageMain_eq spare stage (name stage) [] hx (hfits _ List.mem_cons_self)
      rw [chain, hstage]
      simp only [List.length_nil, List.nil_append, Nat.zero_add]
      by_cases hroom : 1 ≤ spare 1
      · -- The number that is left is no program.
        rw [if_pos hroom]
        refine iff_of_true ?_ ?_
        · simp only [List.head?_cons, Option.bind_some, hnumber]
          rfl
        · intro m hm hle
          have hone : m = 1 := by omega
          exact hone ▸ hroom
      · rw [if_neg hroom]
        exact iff_of_false (by simp) fun hall => hroom (hall 1 (Nat.le_refl 1) (Nat.le_refl 1))
  | cons next stages ih =>
      intro stage x fuel hfuel hx hfits
      obtain ⟨fuel, rfl⟩ : ∃ k, fuel = k + 1 := ⟨fuel - 1, by omega⟩
      have hfirst : FitsInt (stage.apply x.value) := hfits _ List.mem_cons_self
      have hstage := stageMain_eq spare stage (name stage) ((next :: stages).map name) hx hfirst
      have hrest := ih next (Numeral.ofInt (stage.apply x.value)) fuel
        (Nat.lt_of_succ_lt_succ hfuel)
        (by rwa [Numeral.value_ofInt])
        (by rw [Numeral.value_ofInt]; exact fun v hv => hfits v (List.mem_cons_of_mem _ hv))
      rw [Numeral.value_ofInt] at hrest
      rw [chain, hstage, List.length_map, List.length_cons]
      by_cases hroom : 1 ≤ spare (stages.length + 1 + 1)
      · have hnext : (((next :: stages).map name ++ [printInt (stage.apply x.value)]).head?).bind
            execvp = some next := hname next
        rw [if_pos hroom, computed_cons]
        simp only [hnext]
        rw [map_line_iff]
        refine hrest.trans ?_
        constructor
        · intro hall m hm hle
          rcases Nat.lt_or_eq_of_le hle with hlt | heq
          · exact hall m hm (Nat.le_of_lt_succ hlt)
          · exact heq ▸ hroom
        · intro hall m hm hle
          exact hall m hm (Nat.le_succ_of_le hle)
      · rw [if_neg hroom]
        exact iff_of_false (by simp) fun hall => hroom (hall _ (Nat.succ_le_succ (Nat.zero_le _))
          (Nat.le_refl _))

end Chain

end Stages

/-- `char *args[argc-1]` has `argc - 1` elements. -/
def noSpare : Nat → Nat :=
  fun _ => 0

/-- For no stages and no number the chain does what it is for, because each stage writes behind its
array.  Where at least one element may be written behind each of the arrays, and only there, each stage
runs once and prints its result, and the last result is left. -/
theorem chain_computes_iff {execvp : List Char → Option Stage} {name : Stage → List Char}
    (hname : ∀ stage, execvp (name stage) = some stage) (hnumber : ∀ v, execvp (printInt v) = none)
    (stage : Stage) (stages : List Stage) (x : Numeral) (hx : FitsInt x.value)
    (hfits : ∀ v ∈ results (stage :: stages) x.value, FitsInt v) :
    runChain execvp noSpare stage ((stage :: stages).map name ++ [x.text]) ≠
        some (computed (stage :: stages) x.value) ∧
      ∀ spare, runChain execvp spare stage ((stage :: stages).map name ++ [x.text]) =
          some (computed (stage :: stages) x.value) ↔
        ∀ m, 1 ≤ m → m ≤ (stage :: stages).length → 1 ≤ spare m := by
  have hiff : ∀ spare, runChain execvp spare stage ((stage :: stages).map name ++ [x.text]) =
      some (computed (stage :: stages) x.value) ↔
        ∀ m, 1 ≤ m → m ≤ (stage :: stages).length → 1 ≤ spare m := by
    intro spare
    refine chain_eq_computed_iff hname hnumber stages stage x _ ?_ hx hfits
    simp only [List.length_append, List.length_map, List.length_cons, List.length_nil]
    omega
  refine ⟨?_, hiff⟩
  intro hrun
  have hroom := (hiff noSpare).1 hrun 1 (Nat.le_refl 1) (by simp)
  exact absurd hroom (by decide)

/-- The names of the programs. -/
def stageName : Stage → List Char
  | .twice => "twice".toList
  | .half => "half".toList
  | .square => "square".toList

def findStage (file : List Char) : Option Stage :=
  [Stage.twice, .half, .square].find? fun stage => stageName stage = file

theorem findStage_number (v : Int) : findStage (printInt v) = none := by
  rw [findStage, List.find?_eq_none]
  intro stage _
  rw [decide_eq_true_eq]
  intro heq
  -- A name has letters in it.
  have hletter : ∀ stage, ∃ c ∈ stageName stage, c.isAlpha = true := by
    intro stage
    cases stage with
    | twice => exact ⟨'t', by decide, by decide⟩
    | half => exact ⟨'h', by decide, by decide⟩
    | square => exact ⟨'s', by decide, by decide⟩
  rcases hletter stage with ⟨c, hc, halpha⟩
  rw [heq] at hc
  have hnot := (Numeral.ofInt v).not_alpha_of_mem hc
  rw [halpha] at hnot
  cases hnot

/-- `twice half square -7`, with one element behind each array and with none. -/
theorem chain_computes_three_stages :
    runChain findStage noSpare .twice
        ["twice".toList, "half".toList, "square".toList, "-7".toList] ≠
      some (computed [.twice, .half, .square] (-7)) ∧
    runChain findStage (fun _ => 1) .twice
        ["twice".toList, "half".toList, "square".toList, "-7".toList] =
      some (computed [.twice, .half, .square] (-7)) := by
  have hfind : ∀ stage, findStage (stageName stage) = some stage := by
    intro stage
    cases stage with
    | twice => decide
    | half => decide
    | square => decide
  have hchain := chain_computes_iff hfind findStage_number .twice [.half, .square] (.ofInt (-7))
    (by decide) (by decide)
  exact ⟨hchain.1, (hchain.2 fun _ => 1).2 fun _ _ _ => Nat.le_refl 1⟩

/-- `twice 3`: the array has one element, and the second one is written. -/
theorem twice_writes_behind_array :
    runChain findStage noSpare .twice ["twice".toList, "3".toList] = none ∧
      runChain findStage noSpare .twice ["twice".toList, "3".toList] ≠
        some (computed [.twice] 3) := by
  decide +kernel

end Exec
end OsLab

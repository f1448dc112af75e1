import Mathlib.Data.Nat.Digits.Defs
import OsLab.Lib.Streams

/-!
# Stdio — formatted input and output of the C library

`scanf`, `fgets`, `atoi` and `printf` as far as integers and lines go, on texts as lists of characters.

* `scanInt` is the conversion `%d`.  A number outside of `int` is undefined behaviour, and so it is
  `none`; a text without a number is a matching failure, which leaves the variable as it is.
* `skipSpace` is a white-space directive: it takes as much white space as there is, line ends included.
* `fgets size` takes a line with its line end, or `size - 1` characters of it.
* `printInt` is `printf("%d", n)`.  What it prints is read back as `n`.
-/

namespace OsLab
namespace Lib

/-! ## The functions -/

def FitsInt (v : Int) : Prop :=
  INT_MIN ≤ v ∧ v ≤ INT_MAX

instance (v : Int) : Decidable (FitsInt v) :=
  inferInstanceAs (Decidable (_ ∧ _))

/-- The value of an `int` expression, if it is one. -/
def toInt (v : Int) : Option Int :=
  if FitsInt v then some v else none

def skipSpace (text : List Char) : List Char :=
  text.dropWhile isSpace

/-- The digits behind a sign, with the value of the variable and the text left. -/
def scanDigits (negative : Bool) (text : List Char) : Option (Option Int × List Char) :=
  let digits := text.takeWhile Char.isDigit
  let rest := text.dropWhile Char.isDigit
  let v : Int := if negative then -(digitsValue digits) else digitsValue digits
  if digits.isEmpty then some (none, rest)
  else if FitsInt v then some (some v, rest)
  else none

/-- `%d` -/
def scanInt (text : List Char) : Option (Option Int × List Char) :=
  let text := skipSpace text
  let signed := text.head? = some '-' ∨ text.head? = some '+'
  scanDigits (text.head? = some '-') (if signed then text.tail else text)

/-- `atoi` -/
def atoi (text : List Char) : Option Int :=
  (scanInt text).map fun r => r.1.getD 0

/-- At most `n` characters, up to a line end. -/
def takeLine : Nat → List Char → List Char × List Char
  | 0, text => ([], text)
  | _ + 1, [] => ([], [])
  | n + 1, c :: text =>
      if c = '\n' then ([c], text)
      else
        let (line, rest) := takeLine n text
        (c :: line, rest)

/-- `fgets(line, size, in)`, which is `NULL` at the end of the file. -/
def fgets (size : Nat) (text : List Char) : Option (List Char × List Char) :=
  if text.isEmpty then none else some (takeLine (size - 1) text)

def Numeral.ofNat (sign : Sign) (n : Nat) : Numeral where
  sign := sign
  digits := if n = 0 then [0] else (Nat.digits 10 n).reverse.map (Fin.ofNat 10)
  digits_ne_nil := by
    split
    · exact List.cons_ne_nil _ _
    · rename_i hn
      simpa using Nat.digits_ne_nil_iff_ne_zero.2 hn

/-- The decimal text of an integer. -/
def Numeral.ofInt (n : Int) : Numeral :=
  Numeral.ofNat (if n < 0 then .minus else .none) n.natAbs

/-- `printf("%d", n)` -/
def printInt (n : Int) : List Char :=
  (Numeral.ofInt n).text

/-! ## Lines -/

theorem takeLine_line {line : List Char} (hline : '\n' ∉ line) (rest : List Char) {n : Nat}
    (hshort : line.length < n) : takeLine n (line ++ '\n' :: rest) = (line ++ ['\n'], rest) := by
  induction line generalizing n with
  | nil =>
      cases n with
      | zero => exact absurd hshort (Nat.lt_irrefl 0)
      | succ n => simp [takeLine]
  | cons c line ih =>
      rw [List.mem_cons, not_or] at hline
      cases n with
      | zero => exact absurd hshort (Nat.not_lt_zero _)
      | succ n =>
          have hrest := ih hline.2 (Nat.lt_of_succ_lt_succ hshort)
          simp [takeLine, Ne.symm hline.1, hrest]

/-- The last line, without a line end. -/
theorem takeLine_last {line : List Char} (hline : '\n' ∉ line) {n : Nat} (hshort : line.length ≤ n) :
    takeLine n line = (line, []) := by
  induction line generalizing n with
  | nil =>
      cases n with
      | zero => rfl
      | succ n => rfl
  | cons c line ih =>
      rw [List.mem_cons, not_or] at hline
      cases n with
      | zero => exact absurd hshort (Nat.not_succ_le_zero _)
      | succ n =>
          have hrest := ih hline.2 (Nat.le_of_succ_le_succ hshort)
          simp [takeLine, Ne.symm hline.1, hrest]

theorem fgets_cons (size : Nat) (c : Char) (text : List Char) :
    fgets size (c :: text) = some (takeLine (size - 1) (c :: text)) :=
  rfl

/-! ## Integers -/

theorem skipSpace_space {c : Char} (hc : isSpace c = true) (text : List Char) :
    skipSpace (c :: text) = skipSpace text := by
  simp [skipSpace, hc]

theorem skipSpace_of_head {c : Char} (hc : isSpace c = false) (text : List Char) :
    skipSpace (c :: text) = c :: text := by
  simp [skipSpace, hc]

theorem scanDigits_append (negative : Bool) {digits : List (Fin 10)} (hne : digits ≠ [])
    {rest : List Char} (hrest : ∀ c ∈ rest.head?, c.isDigit = false) :
    scanDigits negative (digits.map digitChar ++ rest) =
      let v : Int := if negative then -(decimal digits) else decimal digits
      if FitsInt v then some (some v, rest) else none := by
  have hall : ∀ c ∈ digits.map digitChar, c.isDigit = true := by
    intro c hc
    rcases List.mem_map.1 hc with ⟨d, _, rfl⟩
    exact digitChar_isDigit d
  have hstop : rest.takeWhile Char.isDigit = [] ∧ rest.dropWhile Char.isDigit = rest := by
    cases rest with
    | nil => exact ⟨rfl, rfl⟩
    | cons c rest => simp [hrest c rfl]
  have htake : (digits.map digitChar ++ rest).takeWhile Char.isDigit = digits.map digitChar := by
    rw [List.takeWhile_append_of_pos hall, hstop.1, List.append_nil]
  have hdrop : (digits.map digitChar ++ rest).dropWhile Char.isDigit = rest := by
    rw [List.dropWhile_append_of_pos hall, hstop.2]
  have hnonempty : (digits.map digitChar).isEmpty = false := by simpa using hne
  simp only [scanDigits, htake, hdrop, hnonempty, digitsValue_digitChar]
  rfl

/-- The first character of a numeral is no white space. -/
theorem Numeral.text_head (x : Numeral) : ∃ c text, x.text = c :: text ∧ isSpace c = false := by
  have hdigit : ∀ d : Fin 10, isSpace (digitChar d) = false := by decide
  rcases x with ⟨sign, digits, hne⟩
  cases sign with
  | plus => exact ⟨'+', _, rfl, by decide⟩
  | minus => exact ⟨'-', _, rfl, by decide⟩
  | none =>
      cases digits with
      | nil => exact absurd rfl hne
      | cons d digits => exact ⟨digitChar d, _, rfl, hdigit d⟩

/-- A numeral is read as its value. -/
theorem scanInt_numeral (x : Numeral) {rest : List Char}
    (hrest : ∀ c ∈ rest.head?, c.isDigit = false) :
    scanInt (x.text ++ rest) = if FitsInt x.value then some (some x.value, rest) else none := by
  have hdigit : ∀ d : Fin 10, isSpace (digitChar d) = false ∧ digitChar d ≠ '-' ∧
      digitChar d ≠ '+' := by decide
  rcases x with ⟨sign, digits, hne⟩
  cases sign with
  | plus => exact scanDigits_append false hne hrest
  | minus => exact scanDigits_append true hne hrest
  | none =>
      -- The first character is a digit, so it is neither white space nor a sign.
      cases digits with
      | nil => exact absurd rfl hne
      | cons d digits =>
          have hread : scanInt (Numeral.text ⟨.none, d :: digits, hne⟩ ++ rest) =
              scanDigits false ((d :: digits).map digitChar ++ rest) := by
            simp [scanInt, skipSpace, Numeral.text, Sign.text, hdigit d]
          rw [hread]
          exact scanDigits_append false hne hrest

theorem Numeral.mem_text (x : Numeral) {c : Char} (hc : c ∈ x.text) :
    c = '+' ∨ c = '-' ∨ ∃ d, c = digitChar d := by
  rcases List.mem_append.1 hc with hsign | hdigits
  · cases hkind : x.sign with
    | none =>
        rw [hkind] at hsign
        cases hsign
    | plus =>
        rw [hkind] at hsign
        exact .inl (List.mem_singleton.1 hsign)
    | minus =>
        rw [hkind] at hsign
        exact .inr (.inl (List.mem_singleton.1 hsign))
  · rcases List.mem_map.1 hdigits with ⟨d, _, rfl⟩
    exact .inr (.inr ⟨d, rfl⟩)

/-- Nothing in a numeral is white space. -/
theorem Numeral.not_space_of_mem (x : Numeral) {c : Char} (hc : c ∈ x.text) : isSpace c = false := by
  have hdigit : ∀ d : Fin 10, isSpace (digitChar d) = false := by decide
  rcases x.mem_text hc with rfl | rfl | ⟨d, rfl⟩
  · decide
  · decide
  · exact hdigit d

/-- There are no letters in a numeral. -/
theorem Numeral.not_alpha_of_mem (x : Numeral) {c : Char} (hc : c ∈ x.text) :
    c.isAlpha = false := by
  have hdigit : ∀ d : Fin 10, (digitChar d).isAlpha = false := by decide
  rcases x.mem_text hc with rfl | rfl | ⟨d, rfl⟩
  · decide
  · decide
  · exact hdigit d

/-! ## Printing -/

theorem decimal_concat (digits : List (Fin 10)) (d : Fin 10) :
    decimal (digits ++ [d]) = 10 * decimal digits + d := by
  simp [decimal]

theorem decimal_reverse {digits : List Nat} (hdigits : ∀ d ∈ digits, d < 10) :
    decimal (digits.reverse.map (Fin.ofNat 10)) = Nat.ofDigits 10 digits := by
  induction digits with
  | nil => rfl
  | cons d digits ih =>
      have hd : (Fin.ofNat 10 d : Nat) = d := Nat.mod_eq_of_lt (hdigits d List.mem_cons_self)
      rw [List.reverse_cons, List.map_append, List.map_singleton, decimal_concat,
        ih fun e he => hdigits e (List.mem_cons_of_mem d he), hd, Nat.ofDigits_cons]
      simp [Nat.add_comm]

theorem Numeral.decimal_ofNat (sign : Sign) (n : Nat) : decimal (Numeral.ofNat sign n).digits = n := by
  by_cases hn : n = 0
  · simp [Numeral.ofNat, hn, decimal]
  · simp only [Numeral.ofNat, if_neg hn]
    rw [decimal_reverse fun d hd => Nat.digits_lt_base (by decide) hd, Nat.ofDigits_digits]

@[simp] theorem Numeral.value_ofInt (n : Int) : (Numeral.ofInt n).value = n := by
  rw [Numeral.value, Numeral.ofInt, Numeral.decimal_ofNat]
  by_cases hneg : n < 0
  · simp only [Numeral.ofNat, if_pos hneg, if_true]
    omega
  · simp only [Numeral.ofNat, if_neg hneg, reduceCtorEq, if_false]
    omega

/-- A written integer, and so what was printed, is read back. -/
theorem atoi_numeral {x : Numeral} (hx : FitsInt x.value) : atoi x.text = some x.value := by
  have hread : scanInt (x.text ++ []) = _ := scanInt_numeral x (by simp)
  rw [List.append_nil, if_pos hx] at hread
  rw [atoi, hread]
  rfl

end Lib
end OsLab

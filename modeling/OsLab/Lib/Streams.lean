import Mathlib.Order.Lattice
import Mathlib.Data.List.TakeWhile

/-!
# Streams — reading lines and integers from a text

`getline` and the extraction `>>` of an `int`, on a text as a list of characters.

* `getlines` is everything that repeated calls of `getline` deliver: the pieces between the
  delimiters, with no piece behind the last delimiter.
* `extractInt` skips white space and reads a sign and decimal digits.  Without digits the value is 0,
  a number outside of `int` is replaced by the nearest one, and both are failures.

A `Numeral` is a decimal integer as it may be written, with or without a sign and with leading zeros.
-/

namespace OsLab
namespace Lib

/-! ## Lines -/

/-- What repeated calls of `getline` with the delimiter `delim` deliver. -/
def getlines (delim : Char) : List Char → List (List Char)
  | [] => []
  | c :: text =>
      if c = delim then [] :: getlines delim text
      else
        match getlines delim text with
        | [] => [[c]]
        | line :: lines => (c :: line) :: lines

theorem getlines_delim (delim : Char) (text : List Char) :
    getlines delim (delim :: text) = [] :: getlines delim text := by
  simp [getlines]

/-- One call of `getline` takes everything up to the delimiter. -/
theorem getlines_append {delim : Char} {line : List Char} (hline : delim ∉ line)
    (text : List Char) :
    getlines delim (line ++ delim :: text) = line :: getlines delim text := by
  induction line with
  | nil => exact getlines_delim delim text
  | cons c line ih =>
      rw [List.mem_cons, not_or] at hline
      simp [getlines, Ne.symm hline.1, ih hline.2]

/-! ## Integers -/

def INT_MAX : Int := 2147483647
def INT_MIN : Int := -2147483648

/-- The nearest value of the type `int`. -/
def clampInt (v : Int) : Int :=
  max INT_MIN (min INT_MAX v)

/-- `isspace` -/
def isSpace (c : Char) : Bool :=
  c = ' ' || c = '\t' || c = '\n' || c = '\r' || c.toNat = 11 || c.toNat = 12

/-- The result of `in >> x`: whether it succeeded, the new value of `x`, and the text left. -/
structure Extraction where
  ok : Bool
  value : Int
  rest : List Char
  deriving DecidableEq, Repr

def digitsValue (digits : List Char) : Nat :=
  digits.foldl (fun v c => 10 * v + (c.toNat - 48)) 0

/-- The digits behind a sign. -/
def extractDigits (negative : Bool) (text : List Char) : Extraction :=
  let digits := text.takeWhile Char.isDigit
  let rest := text.dropWhile Char.isDigit
  let v : Int := if negative then -(digitsValue digits) else digitsValue digits
  if digits.isEmpty then { ok := false, value := 0, rest := rest }
  else { ok := decide (clampInt v = v), value := clampInt v, rest := rest }

/-- White space, an optional sign, and digits. -/
def extractInt (text : List Char) : Extraction :=
  let text := text.dropWhile isSpace
  let signed := text.head? = some '-' ∨ text.head? = some '+'
  extractDigits (text.head? = some '-') (if signed then text.tail else text)

/-- `while (in >> x) xs.push_back(x);`, for at most `fuel` numbers. -/
def extractInts : Nat → List Char → List Int
  | 0, _ => []
  | fuel + 1, text =>
      let x := extractInt text
      if x.ok then x.value :: extractInts fuel x.rest else []

theorem extractDigits_rest {negative : Bool} {text : List Char}
    (h : (extractDigits negative text).ok = true) :
    (extractDigits negative text).rest.length < text.length := by
  have hsplit := congrArg List.length (List.takeWhile_append_dropWhile (p := Char.isDigit) (l := text))
  rw [List.length_append] at hsplit
  by_cases hempty : (text.takeWhile Char.isDigit).isEmpty
  · simp [extractDigits, hempty] at h
  · have hpos : 0 < (text.takeWhile Char.isDigit).length := by
      rw [List.length_pos_iff]
      simpa using hempty
    simp only [extractDigits, hempty]
    exact Nat.lt_of_lt_of_eq (Nat.lt_add_of_pos_left hpos) hsplit

/-- A number takes at least one character. -/
theorem extractInt_rest {text : List Char} (h : (extractInt text).ok = true) :
    (extractInt text).rest.length < text.length := by
  have hskip := List.length_dropWhile_le isSpace text
  have hdigits := extractDigits_rest h
  simp only [extractInt]
  refine Nat.lt_of_lt_of_le hdigits ?_
  split
  · rw [List.length_tail]
    omega
  · exact hskip

/-- With as much fuel as there are characters the numbers are read to the end. -/
theorem extractInts_of_le :
    ∀ {fuel fuel' : Nat} {text : List Char}, text.length ≤ fuel → text.length ≤ fuel' →
      extractInts fuel text = extractInts fuel' text
  | fuel, fuel', [], _, _ => by
      have hnil : ∀ k, extractInts k [] = [] := by
        intro k
        cases k with
        | zero => rfl
        | succ k => rfl
      rw [hnil, hnil]
  | 0, _, c :: text, h, _ => absurd h (Nat.not_succ_le_zero _)
  | _, 0, c :: text, _, h => absurd h (Nat.not_succ_le_zero _)
  | fuel + 1, fuel' + 1, c :: text, h, h' => by
      simp only [extractInts]
      by_cases hok : (extractInt (c :: text)).ok = true
      · have hrest := extractInt_rest hok
        have hsame : extractInts fuel (extractInt (c :: text)).rest =
            extractInts fuel' (extractInt (c :: text)).rest :=
          extractInts_of_le (by omega) (by omega)
        rw [if_pos hok, if_pos hok, hsame]
      · rw [if_neg hok, if_neg hok]

/-! ## Written integers -/

inductive Sign
  | none
  | plus
  | minus
  deriving DecidableEq, Repr

structure Numeral where
  sign : Sign
  digits : List (Fin 10)
  digits_ne_nil : digits ≠ []

def digitChar (d : Fin 10) : Char :=
  Char.ofNat (48 + d)

def Sign.text : Sign → List Char
  | .none => []
  | .plus => ['+']
  | .minus => ['-']

/-- The value of decimal digits, the most significant one first. -/
def decimal (digits : List (Fin 10)) : Nat :=
  digits.foldl (fun (v : Nat) (d : Fin 10) => 10 * v + d.val) 0

namespace Numeral

def text (x : Numeral) : List Char :=
  x.sign.text ++ x.digits.map digitChar

def value (x : Numeral) : Int :=
  if x.sign = .minus then -(decimal x.digits) else decimal x.digits

end Numeral

theorem digitChar_isDigit (d : Fin 10) : (digitChar d).isDigit = true := by
  revert d
  decide

theorem digitChar_toNat (d : Fin 10) : (digitChar d).toNat - 48 = d := by
  revert d
  decide

theorem digitsValue_digitChar (digits : List (Fin 10)) :
    digitsValue (digits.map digitChar) = decimal digits := by
  simp only [digitsValue, decimal, List.foldl_map, digitChar_toNat]

theorem extractDigits_value (negative : Bool) {digits : List (Fin 10)} (hne : digits ≠ []) :
    (extractDigits negative (digits.map digitChar)).value =
      clampInt (if negative then -(decimal digits) else decimal digits) := by
  have htake : (digits.map digitChar).takeWhile Char.isDigit = digits.map digitChar := by
    refine List.takeWhile_eq_self_iff.2 ?_
    intro c hc
    rcases List.mem_map.1 hc with ⟨d, _, rfl⟩
    exact digitChar_isDigit d
  have hnonempty : (digits.map digitChar).isEmpty = false := by simpa using hne
  simp only [extractDigits, htake, hnonempty, digitsValue_digitChar]
  rfl

/-- A written integer is read as its value, or as the nearest `int`. -/
theorem extractInt_numeral (x : Numeral) :
    (extractInt x.text).value = clampInt x.value := by
  have hdigit : ∀ d : Fin 10, isSpace (digitChar d) = false ∧ digitChar d ≠ '-' ∧
      digitChar d ≠ '+' := by decide
  rcases x with ⟨sign, digits, hne⟩
  cases sign with
  | plus => exact extractDigits_value false hne
  | minus => exact extractDigits_value true hne
  | none =>
      -- The first character is a digit, so it is neither white space nor a sign.
      cases digits with
      | nil => exact absurd rfl hne
      | cons d digits =>
          have hread : extractInt (Numeral.text ⟨.none, d :: digits, hne⟩) =
              extractDigits false ((d :: digits).map digitChar) := by
            simp [extractInt, Numeral.text, Sign.text, hdigit d]
          rw [hread]
          exact extractDigits_value false hne

end Lib
end OsLab

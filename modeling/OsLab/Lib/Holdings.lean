import Mathlib.Data.List.Basic

/-!
# Holdings — programs that take and give back locks and references

A program runs on the list of the resources it holds.  Giving back a resource that is not held is a
fault, and `tryHold` takes a lock only if it is not held already.  A run that is cut short is
`unfinished`.  The simp rules evaluate a program on a list that is known.
-/

namespace OsLab
namespace Lib

universe u v

inductive Fault (ρ : Type u)
  | notHeld (x : ρ)
  | nullPointer
  | assertion
  | unfinished
  deriving DecidableEq, Repr

/-- A program that changes what is held, or fails. -/
def Holding (ρ : Type u) (α : Type v) : Type (max u v) :=
  List ρ → Except (Fault ρ) (α × List ρ)

namespace Holding

variable {ρ : Type u} {α β : Type v}

instance : Monad (Holding ρ) where
  pure a := fun held => .ok (a, held)
  bind m f := fun held => (m held).bind fun out => f out.1 out.2

def fault (e : Fault ρ) : Holding ρ α :=
  fun _ => .error e

def hold (x : ρ) : Holding ρ Unit :=
  fun held => .ok ((), x :: held)

variable [DecidableEq ρ]

def release (x : ρ) : Holding ρ Unit :=
  fun held => if x ∈ held then .ok ((), held.erase x) else .error (.notHeld x)

/-- Take a lock, unless it is held already. -/
def tryHold (x : ρ) : Holding ρ Bool :=
  fun held => if x ∈ held then .ok (false, held) else .ok (true, x :: held)

section Rules

variable (held : List ρ) (x : ρ)

omit [DecidableEq ρ] in
@[simp] theorem pure_apply (a : α) : (pure a : Holding ρ α) held = .ok (a, held) := rfl

omit [DecidableEq ρ] in
@[simp] theorem bind_apply (m : Holding ρ α) (f : α → Holding ρ β) :
    (m >>= f) held = (m held).bind fun out => f out.1 out.2 := rfl

omit [DecidableEq ρ] in
@[simp] theorem fault_apply (e : Fault ρ) : (fault e : Holding ρ α) held = .error e := rfl

omit [DecidableEq ρ] in
@[simp] theorem hold_apply : hold x held = .ok ((), x :: held) := rfl

end Rules

/-! ## What a program returns -/

section Yields

variable {P : α → Prop} {Q : β → Prop}

/-- Every result is as `P` says. -/
def Yields (m : Holding ρ α) (P : α → Prop) : Prop :=
  ∀ held x held', m held = .ok (x, held') → P x

omit [DecidableEq ρ] in
theorem Yields.bind {m : Holding ρ α} {f : α → Holding ρ β} (hm : Yields m P)
    (hf : ∀ x, P x → Yields (f x) Q) : Yields (m >>= f) Q := by
  intro held y held' hrun
  rw [bind_apply] at hrun
  cases hfirst : m held with
  | error e =>
      rw [hfirst] at hrun
      cases hrun
  | ok out =>
      rw [hfirst] at hrun
      exact hf out.1 (hm held out.1 out.2 hfirst) out.2 y held' hrun

end Yields

end Holding

@[simp] theorem except_bind_ok {ε α β : Type*} (a : α) (f : α → Except ε β) :
    (Except.ok a).bind f = f a := rfl

@[simp] theorem except_bind_error {ε α β : Type*} (e : ε) (f : α → Except ε β) :
    (Except.error e : Except ε α).bind f = .error e := rfl

end Lib
end OsLab

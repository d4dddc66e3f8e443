import Externalize.Text.Basic

/-
Natural numbers of 64 bits, as a person types them.

* `NumberFault`: what is wrong with a text.
* `Word64.ofText`: the number that a text writes in decimal digits, with or without a plus before
  them. The digits are read in turn, and the first fault counts.
* `Word64.ofText_le`: the number is no larger than the largest one.
-/
namespace Externalize

/-- Why a text is no number. -/
inductive NumberFault where
  | empty
  | digit
  | tooLarge
deriving DecidableEq

/-- The message of a fault. -/
def NumberFault.message : NumberFault → String
  | empty => "cannot parse integer from empty string"
  | digit => "invalid digit found in string"
  | tooLarge => "number too large to fit in target type"

namespace Word64

/-- The largest number. -/
def largest : Nat := 0xFFFFFFFFFFFFFFFF

/-- The value of a decimal digit. -/
def digit? (c : Char) : Option Nat := if c.isDigit then some (c.toNat - '0'.toNat) else none

/-- The number that digits write after those of `n`. -/
def digits (n : Nat) : Text → Except NumberFault Nat
  | [] => .ok n
  | c :: r =>
    match digit? c with
    | none => .error .digit
    | some d => if n * 10 + d ≤ largest then digits (n * 10 + d) r else .error .tooLarge

/-- The number that a text writes. A sign alone is not one. -/
def ofText : Text → Except NumberFault Nat
  | [] => .error .empty
  | ['+'] => .error .digit
  | '+' :: r => digits 0 r
  | t => digits 0 t

/-- Digits only lead to numbers in the range. -/
theorem digits_le {n m : Nat} {t : Text} (hn : n ≤ largest) (h : digits n t = .ok m) :
    m ≤ largest := by
  induction t generalizing n with
  | nil => cases h; exact hn
  | cons c r ih =>
    simp only [digits] at h
    split at h
    next => cases h
    next =>
      split at h
      next hle => exact ih hle h
      next => cases h

theorem ofText_le {t : Text} {m : Nat} (h : ofText t = .ok m) : m ≤ largest := by
  unfold ofText at h
  split at h
  next => cases h
  next => cases h
  next => exact digits_le (Nat.zero_le _) h
  next => exact digits_le (Nat.zero_le _) h

end Word64

end Externalize

import Mathlib

/-!
Arithmetic on unsigned words of a width. A result that does not fit, a difference below zero, a
shift by the width or more and the logarithm of zero have no value.
-/

namespace Word

variable (w a b : Nat)

def fitted : Option Nat := if a < 2 ^ w then some a else none

def add : Option Nat := fitted w (a + b)

def mul : Option Nat := fitted w (a * b)

def sub : Option Nat := if b ≤ a then some (a - b) else none

/-- `a << b`, where no bit may be lost. -/
def shiftLeft : Option Nat := if b < w then fitted w (a * 2 ^ b) else none

/-- `a.ilog2()` -/
def log2 : Option Nat := if a = 0 then none else some a.log2

variable {w a b}

theorem fitted_some (fits : a < 2 ^ w) : fitted w a = some a := if_pos fits

theorem add_some (fits : a + b < 2 ^ w) : add w a b = some (a + b) := fitted_some fits

theorem mul_some (fits : a * b < 2 ^ w) : mul w a b = some (a * b) := fitted_some fits

theorem sub_some (le : b ≤ a) : sub a b = some (a - b) := if_pos le

theorem log2_some (positive : a ≠ 0) : log2 a = some a.log2 := if_neg positive

theorem shiftLeft_some (positive : 0 < a) (fits : a * 2 ^ b < 2 ^ w) :
    shiftLeft w a b = some (a * 2 ^ b) := by
  have power : 2 ^ b < 2 ^ w := (Nat.le_mul_of_pos_left (2 ^ b) positive).trans_lt fits
  have below : b < w := (Nat.pow_lt_pow_iff_right (by decide)).mp power
  unfold shiftLeft
  rw [if_pos below, fitted_some fits]

end Word

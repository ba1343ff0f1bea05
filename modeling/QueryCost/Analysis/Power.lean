/-
# QueryCost.Analysis.Power -- powers by repeated squaring

The power is built from the binary digits of the exponent, lowest first, in as
many steps as there are digits; after the last digit nothing is squared.  Which
products are formed, and in which order, is fixed, because products of doubles
depend on it.
-/
namespace QueryCost.Analysis

set_option autoImplicit false

variable {K : Type} [Mul K]

/-- Multiply `result` by the `n`-th power of `base`. -/
def multiplyPower (result base : K) (n : Nat) : K :=
  let result := if n % 2 = 1 then result * base else result
  if n / 2 = 0 then result else multiplyPower result (base * base) (n / 2)
termination_by n

def power [One K] (base : K) (n : Nat) : K :=
  multiplyPower 1 base n

end QueryCost.Analysis

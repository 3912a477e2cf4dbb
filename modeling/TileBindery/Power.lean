/-!
# Powers of numbers

A power of a natural number or of an integer is the one the compiler computes with, also in modules
that see an algebra library, which declares powers of its own.
-/

attribute [instance (high), default_instance (high + 1)] instPowNat

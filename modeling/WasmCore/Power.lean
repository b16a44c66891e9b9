/-!
# Powers

`2 ^ n` is the power of the core library, on natural numbers and on integers, also where a power in
monoids is at hand: what a definition computes then does not depend on what is imported with it.
-/

-- the second attribute is for exponents that are numerals
attribute [instance (high), default_instance (high + 1)] instPowNat

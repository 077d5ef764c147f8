/-!
# Word sizes

Durations and step counts are held in words of 64 bits, and budgets, byte sizes, iteration counts
and memory addresses in words of 32 bits. The numbers of this library have no bound of their own, so
a bound stands wherever a number is read or saturates.
-/

namespace DelaySynth

/-- The number of values of a word of 32 bits. -/
abbrev bound32 : Nat := 0x100000000

/-- The number of values of a word of 64 bits. -/
abbrev bound64 : Nat := 0x10000000000000000

end DelaySynth

/-!
# Powers

Powers with natural exponents are the core ones in this library, also where Mathlib brings its own into
scope. So a definition means the same with Mathlib and without it, and evaluates as fast.
-/

namespace Reckoner

attribute [scoped instance (high)] instPowNat

end Reckoner

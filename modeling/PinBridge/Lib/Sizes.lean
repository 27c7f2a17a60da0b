import Mathlib.Algebra.Ring.Nat

/-!
# Sizes of fixed tables

An index literal such as `3 : Fin 16`, and a capacity literal such as `64 : ℕ+`, carry a proof that
the size is not zero.  These are the proofs for the sizes that the models share, under one name
each.
-/

namespace Sizes

scoped instance neZero1 : NeZero 1 := ⟨by decide⟩

scoped instance neZero2 : NeZero 2 := ⟨by decide⟩

scoped instance neZero16 : NeZero 16 := ⟨by decide⟩

scoped instance neZero64 : NeZero 64 := ⟨by decide⟩

scoped instance neZero4096 : NeZero 4096 := ⟨by decide⟩

scoped instance neZero32768 : NeZero 32768 := ⟨by decide⟩

scoped instance neZero65536 : NeZero 65536 := ⟨by decide⟩

end Sizes

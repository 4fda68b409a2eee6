import Mathlib.Logic.Function.Basic

/-!
# The block tables of the worker

A `BlockTable` has a row of block ids for each slot of the batch, of which the
first `num_blocks_per_row` are in use. `MultiGroupBlockTable` keeps one table
for each KV cache group.
-/

namespace VllmEngine

section Rows

variable {α : Type} {a : Nat → α} {i j k : Nat}

end Rows

/-- One KV cache group's table. -/
structure BlockTable where
  maxNumBlocksPerReq : Nat
  blocksPerKvBlock : Nat
  blockTable : Nat → Nat → Nat
  numBlocksPerRow : Nat → Nat

namespace BlockTable

end BlockTable

/-! ## One table for each group -/

/-- `MultiGroupBlockTable`. -/
abbrev MultiGroupBlockTable := List BlockTable

namespace MultiGroupBlockTable

end MultiGroupBlockTable

end VllmEngine

import Ladybug.Base.BlockLoops
import Ladybug.Base.Lanes
import Mathlib.Algebra.Order.BigOperators.Group.Finset
import Mathlib.Algebra.Order.Ring.Int

/-!
# The dot product of quantized embeddings (`computeDotI16`)

One function with three bodies, of which the build chooses one: with the registers of AVX2, with those
of NEON, and without.  All of them return the sum as a double, which is not part of the model.
-/

namespace Ladybug.Vector

/-- The branch of `quantizeEmbedding` for `SQ16`: the values that `llround` returns are clamped, and the
vector is zero where all values are. -/
structure QuantizedInput where
  isZero : Bool
  quantized : Nat → Int

def QuantizedInput.payloadValues (src : QuantizedInput) (i : Nat) : Int16 :=
  if src.isZero then 0
  else
    Int16.ofInt (if src.quantized i < -32767 then -32767
      else if 32767 < src.quantized i then 32767
      else src.quantized i)

section

variable (left right : Nat → Int16)

def product (bits i : Nat) : Lane :=
  Lane.mul bits (Lane.ofInt (left i).toInt) (Lane.ofInt (right i).toInt)

def maddEpi16 (i lane : Nat) : Lane :=
  Lane.add 32 (product left right 32 (i + 2 * lane)) (product left right 32 (i + 2 * lane + 1))

def vpaddlqS32 (i lane : Nat) : Lane :=
  Lane.add 64 (product left right 32 (i + 2 * lane)) (product left right 32 (i + 2 * lane + 1))

structure Sums where
  sum64Lo : Nat → Lane
  sum64Hi : Nat → Lane

def Sums.zero : Sums := ⟨fun _ => Lane.ofInt 0, fun _ => Lane.ofInt 0⟩

/-- `dot += static_cast<int64_t>(left[i]) * static_cast<int64_t>(right[i])` -/
def addProduct (i : Nat) (dot : Lane) : Lane := Lane.add 64 dot (product left right 64 i)

end

section

variable (left right : Nat → Int16) (dimension : UInt32)

-- lanes 0 to 3 of the pairs are the low half
def avx2Block (i : Nat) (s : Sums) : Sums where
  sum64Lo lane := Lane.add 64 (s.sum64Lo lane) (maddEpi16 left right i lane)
  sum64Hi lane := Lane.add 64 (s.sum64Hi lane) (maddEpi16 left right i (4 + lane))

def computeDotI16AVX2 (fuel : Nat) : Option Lane :=
  (blockLoop 16 dimension (avx2Block left right) fuel Sums.zero).bind fun (i, s) =>
    let partialSums := (List.range 4).map s.sum64Lo ++ (List.range 4).map s.sum64Hi
    restLoop dimension (addProduct left right) fuel i (partialSums.foldl (Lane.add 64) (Lane.ofInt 0))

def neonBlock (i : Nat) (s : Sums) : Sums where
  sum64Lo lane := Lane.add 64 (s.sum64Lo lane) (vpaddlqS32 left right i lane)
  sum64Hi lane := Lane.add 64 (s.sum64Hi lane) (vpaddlqS32 left right (i + 4) lane)

def computeDotI16NEON (fuel : Nat) : Option Lane :=
  (blockLoop 8 dimension (neonBlock left right) fuel Sums.zero).bind fun (i, s) =>
    let dot := Lane.add 64 (Lane.add 64 (Lane.add 64 (s.sum64Lo 0) (s.sum64Lo 1)) (s.sum64Hi 0))
      (s.sum64Hi 1)
    restLoop dimension (addProduct left right) fuel i dot

def computeDotI16Scalar (fuel : Nat) : Option Lane :=
  restLoop dimension (addProduct left right) fuel 0 (Lane.ofInt 0)

end

def dotProduct (left right : Nat → Int16) (n : Nat) : Int :=
  ∑ i ∈ Finset.range n, (left i).toInt * (right i).toInt

end Ladybug.Vector

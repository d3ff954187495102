import ChunkScaledDotKkt.Lib.Store
import Mathlib.Algebra.BigOperators.Group.Finset.Basic
import Mathlib.Algebra.Ring.Defs

/-!
# Cube-unit instructions on 16-bit operands

The documented effect of the DMA, load, matrix and fix-pipe instructions on element
addresses, for 16-bit operands: a fractal has 16 rows of 16 elements, a 32-byte block
16 elements.  The layouts are

* NZ in L1 and L0C: column blocks of 16, row-major inside a block (`nzIndex`);
* zZ in L0A: fractals row by row, row-major inside (`zZIndex`);
* nZ in L0B: fractals row by row, column-major inside (`nZIndex`).

Every instruction computes its values from the source and the old destination and
then stores them.
-/

namespace CubeUnit

open Buffer

variable {R : Type}

/-! ## Layouts -/

/-- Element `(row, col)` of an NZ tile with `rows` rows. -/
def nzIndex (rows row col : ℕ) : ℕ := col / 16 * (rows * 16) + row * 16 + col % 16

/-- Element `(m, k)` of a zZ tile with `kSize` columns. -/
def zZIndex (kSize m k : ℕ) : ℕ :=
  m / 16 * (kSize / 16 * 256) + k / 16 * 256 + m % 16 * 16 + k % 16

/-- Element `(k, n)` of an nZ tile with `nSize` columns. -/
def nZIndex (nSize k n : ℕ) : ℕ :=
  k / 16 * (nSize / 16 * 256) + n / 16 * 256 + n % 16 * 16 + k % 16

/-! ## Into L1 -/

structure InitConstValueParams (R : Type) where
  repeatTimes : ℕ
  /-- 32-byte blocks to fill in each repeat -/
  blockNum : ℕ
  dstGap : ℕ
  initValue : R

def initConstValue (params : InitConstValueParams R) (dst : ℕ → R) : ℕ → R :=
  scatter (grid params.repeatTimes (params.blockNum * 16))
    (fun (run, i) => run * ((params.blockNum + params.dstGap) * 16) + i)
    (fun _ => params.initValue) dst

structure Nd2NzParams where
  ndNum : ℕ
  nValue : ℕ
  dValue : ℕ
  srcNdMatrixStride : ℕ
  /-- elements between two source rows -/
  srcDValue : ℕ
  /-- 32-byte blocks between two column blocks of the destination -/
  dstNzC0Stride : ℕ
  /-- 32-byte blocks between two rows of a column block -/
  dstNzNStride : ℕ
  dstNzMatrixStride : ℕ
  deriving Repr, DecidableEq

/-- Copy row-major matrices from GM to NZ tiles in L1. -/
def nd2nz (params : Nd2NzParams) (src dst : ℕ → R) : ℕ → R :=
  scatter (grid3 params.ndNum params.nValue params.dValue)
    (fun (nd, row, col) => nd * params.dstNzMatrixStride +
      col / 16 * (params.dstNzC0Stride * 16) + row * (params.dstNzNStride * 16) + col % 16)
    (fun (nd, row, col) => src (nd * params.srcNdMatrixStride + row * params.srcDValue + col)) dst

/-! ## L1 to L0A and L0B -/

/-- The fields of `LoadData3DParamsV2` that a 1×1 kernel with unit stride uses. -/
structure LoadData3DParamsV2 where
  l1H : ℕ
  l1W : ℕ
  channelSize : ℕ
  kExtension : ℕ
  mExtension : ℕ
  mStartPt : ℕ
  kStartPt : ℕ
  deriving Repr, DecidableEq

/-- A 1×1 im2col: rows are image points, columns channels; NZ in, zZ out. -/
def loadData3D (params : LoadData3DParamsV2) (src dst : ℕ → R) : ℕ → R :=
  scatter (grid params.mExtension params.kExtension)
    (fun (m, k) => zZIndex params.kExtension m k)
    (fun (m, k) => src (nzIndex (params.l1H * params.l1W) (params.mStartPt + m)
      (params.kStartPt + k))) dst

structure LoadData2DParams where
  startIndex : ℕ
  repeatTimes : ℕ
  srcStride : ℕ
  dstGap : ℕ
  ifTranspose : Bool
  deriving Repr, DecidableEq

/-- Copy whole fractals of 256 elements. -/
def loadData2D (params : LoadData2DParams) (src dst : ℕ → R) : ℕ → R :=
  scatter (grid params.repeatTimes 256)
    (fun (fractal, i) => fractal * ((1 + params.dstGap) * 256) + i)
    (fun (fractal, i) => src ((params.startIndex + fractal * params.srcStride) * 256 +
      if params.ifTranspose then i % 16 * 16 + i / 16 else i)) dst

/-! ## Matrix multiplication and copy-out -/

structure MmadParams where
  m : ℕ
  n : ℕ
  k : ℕ
  cmatrixInitVal : Bool
  deriving Repr, DecidableEq

/-- `C := (C or 0) + A * B` with A in zZ, B in nZ and C in NZ layout. -/
def mmad [Semiring R] (params : MmadParams) (a b c : ℕ → R) : ℕ → R :=
  scatter (grid params.m params.n)
    (fun (i, j) => nzIndex params.m i j)
    (fun (i, j) => (if params.cmatrixInitVal then 0 else c (nzIndex params.m i j)) +
      ∑ x ∈ Finset.range params.k,
        a (zZIndex params.k i x) * b (nZIndex params.n x j)) c

structure FixpipeParamsV220 where
  nSize : ℕ
  mSize : ℕ
  /-- rows of the source tile -/
  srcStride : ℕ
  /-- elements between two destination rows -/
  dstStride : ℕ
  ndNum : ℕ
  srcNdStride : ℕ
  dstNdStride : ℕ
  deriving Repr, DecidableEq

/-- Copy NZ tiles from L0C to row-major matrices in GM. -/
def fixpipe (params : FixpipeParamsV220) (src dst : ℕ → R) : ℕ → R :=
  scatter (grid3 params.ndNum params.mSize params.nSize)
    (fun (nd, i, j) => nd * params.dstNdStride + i * params.dstStride + j)
    (fun (nd, i, j) => src (nd * params.srcNdStride + nzIndex params.srcStride i j)) dst

end CubeUnit

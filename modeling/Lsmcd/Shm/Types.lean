import Mathlib.Algebra.Ring.Nat
import Mathlib.Data.List.Basic
import Mathlib.Logic.Function.Basic

/-!
Constants and size arithmetic of the shared memory library (`lsshmtypes.h`, `addrmap.h` and the
inline functions of `lsshmpool.h`).

Offsets and sizes are 32 bit in the source. They are natural numbers here: `alloc2` refuses sizes
above `LSSHM_MAXSIZE` and hands out blocks inside a file of less than `2^32` bytes, so that the
sums formed from them do not wrap.
-/

namespace Lsmcd

def LSSHM_SHM_UNITSIZE : Nat := 0x400
def LSSHM_POOL_UNITSIZE : Nat := 16
def LSSHM_MAXSIZE : Nat := 2000000000
def LARGE_PAGE_BITS : Nat := 20
def LARGE_PAGE_SIZE : Nat := 0x100000
def LSSHM_FREE_AMARKER : Nat := 0x0123fedc
def LSSHM_FREE_BMARKER : Nat := 0xba984567
def sizeofFreeBot : Nat := 8

/--
The first 32 bytes of the mapping are the header, `LsShm::offset2ptr` gives `NULL` for them.
-/
def sizeofShmMapHdr : Nat := 32

def roundDataSize (size : Nat) : Nat :=
  (size + (LSSHM_POOL_UNITSIZE - 1)) / LSSHM_POOL_UNITSIZE * LSSHM_POOL_UNITSIZE

def roundPageSize (size : Nat) : Nat :=
  (size + (LSSHM_SHM_UNITSIZE - 1)) / LSSHM_SHM_UNITSIZE * LSSHM_SHM_UNITSIZE

def size2roundSize (size : Nat) : Nat :=
  if LSSHM_SHM_UNITSIZE ≤ size then roundPageSize size else roundDataSize size

def round4 (x : Nat) : Nat :=
  (x + 3) / 4 * 4

theorem le_roundDataSize (size : Nat) : size ≤ roundDataSize size := by
  simp only [roundDataSize, LSSHM_POOL_UNITSIZE]
  omega

theorem le_size2roundSize (size : Nat) : size ≤ size2roundSize size := by
  unfold size2roundSize roundPageSize roundDataSize LSSHM_SHM_UNITSIZE LSSHM_POOL_UNITSIZE
  split <;> omega

/--
Charging the size that `alloc2` has rounded up and refunding the size that was asked for comes to
the same: both sides are multiples of the data unit, and a size of at least one data unit below a
page is rounded to the page itself.
-/
theorem size2roundSize_roundDataSize (size : Nat)
    : size2roundSize (roundDataSize size) = size2roundSize size := by
  unfold size2roundSize roundPageSize roundDataSize LSSHM_SHM_UNITSIZE LSSHM_POOL_UNITSIZE
  split <;> split <;> omega

theorem size2roundSize_mono {a b : Nat} (h : a ≤ b) : size2roundSize a ≤ size2roundSize b := by
  unfold size2roundSize roundPageSize roundDataSize LSSHM_SHM_UNITSIZE LSSHM_POOL_UNITSIZE
  split <;> split <;> omega

theorem size2roundSize_pos {size : Nat} (h : 0 < size) : 0 < size2roundSize size :=
  Nat.lt_of_lt_of_le h (le_size2roundSize size)

theorem le_round4 (x : Nat) : x ≤ round4 x := by
  simp only [round4]
  omega

end Lsmcd

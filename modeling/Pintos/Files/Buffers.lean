import Mathlib.Logic.Function.Basic
import Pintos.Memory.Paging

/-! The buffers of SYS_READ and SYS_WRITE: what `syscall_handler` checks before it calls
`handler_read` or `handler_write`, in 32-bit arithmetic, and the bytes those then touch. -/
namespace Pintos.Buffers
open Memory (physBase physBaseNat)

def checkBoundary (p : UInt32) : Bool := p < 0xbffffffe

def checkBuffer (buffer size : UInt32) : Bool := buffer + size ≤ 0xbffffffe

def beneath (args buffer size : UInt32) : Bool :=
  checkBoundary (args + 12) && buffer != 0 && checkBuffer buffer size

def readKeys (input : Nat → UInt8) (buffer : UInt32) : Nat → (UInt32 → UInt8) → UInt32 → UInt8
  | 0, memory => memory
  | n + 1, memory =>
    Function.update (readKeys input buffer n memory) (buffer + UInt32.ofNat n) (input n)

section Checks
variable {args buffer size : UInt32}

theorem sumSmall (accepted : beneath args buffer size = true)
    (fits : buffer.toNat + size.toNat < 2 ^ 32) : buffer.toNat + size.toNat ≤ 0xbffffffe := by
  obtain ⟨_, sum⟩ := Bool.and_eq_true_iff.mp accepted
  have sum := UInt32.le_iff_toNat_le.mp (of_decide_eq_true sum)
  rw [UInt32.toNat_add, Nat.mod_eq_of_lt fits] at sum
  exact sum

theorem byteAddress {i : Nat} (fits : buffer.toNat + size.toNat < 2 ^ 32) (less : i < size.toNat) :
    (buffer + UInt32.ofNat i).toNat = buffer.toNat + i := by
  rw [UInt32.toNat_add, UInt32.toNat_ofNat_of_lt' (by change i < 2 ^ 32; omega)]
  exact Nat.mod_eq_of_lt (by omega)

theorem keysElsewhere {input : Nat → UInt8} {memory : UInt32 → UInt8} {n : Nat} {x : UInt32}
    (fits : buffer.toNat + size.toNat < 2 ^ 32) (few : n ≤ size.toNat)
    (outside : buffer.toNat + size.toNat ≤ x.toNat) : readKeys input buffer n memory x = memory x := by
  induction n with
  | zero => rfl
  | succ n ih =>
    have apart : x ≠ buffer + UInt32.ofNat n := by
      rintro rfl
      rw [byteAddress fits few] at outside
      omega
    rw [readKeys, Function.update_of_ne apart]
    exact ih (Nat.le_of_succ_le few)

theorem userBuffers (args buffer size : UInt32) (accepted : beneath args buffer size = true) :
    ((∀ i < size.toNat, buffer.toNat + i < physBase.toNat) ↔ buffer.toNat + size.toNat < 2 ^ 32) ∧
    (buffer.toNat + size.toNat < 2 ^ 32 →
      (∀ i < size.toNat, (buffer + UInt32.ofNat i).toNat < physBase.toNat) ∧
      ∀ input memory x, physBase.toNat ≤ x.toNat →
        readKeys input buffer size.toNat memory x = memory x) := by
  have below : buffer.toNat + size.toNat < 2 ^ 32 →
      ∀ i < size.toNat, buffer.toNat + i < physBase.toNat := by
    intro fits i less
    have sum := sumSmall accepted fits
    rw [physBaseNat]
    omega
  refine ⟨⟨fun user => ?_, below⟩, fun fits => ⟨fun i less => ?_, fun input memory x kernel => ?_⟩⟩
  · by_contra wraps
    have top := user (2 ^ 32 - 1 - buffer.toNat) (by have := buffer.toNat_lt; omega)
    have := buffer.toNat_lt
    rw [physBaseNat] at top
    omega
  · rw [byteAddress fits less]
    exact below fits i less
  · have sum := sumSmall accepted fits
    rw [physBaseNat] at kernel
    exact keysElsewhere fits (Nat.le_refl _) (by omega)

theorem userBuffersExample : beneath 0xbffff000 0x08048000 4096 = true ∧
    (∀ i < 4096, ((0x08048000 : UInt32) + UInt32.ofNat i).toNat < physBase.toNat) :=
  ⟨by decide, ((userBuffers 0xbffff000 0x08048000 4096 (by decide)).2 (by decide)).1⟩

theorem kernelBufferAccepted : beneath 0xbffff000 0xbffff000 0x40001000 = true ∧
    ¬ ∀ i < (0x40001000 : UInt32).toNat, (0xbffff000 : UInt32).toNat + i < physBase.toNat := by
  refine ⟨by decide, fun user => ?_⟩
  exact absurd (user 0x1000 (by decide)) (by decide)

end Checks

end Pintos.Buffers

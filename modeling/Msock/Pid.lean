import Mathlib

/-!
# Process numbers

A `msock_pid_t` is a pointer-sized integer that packs the number of a domain, the
gid, in its top five bits and a number of that domain's process map, the poff, in
the rest. Gid 0 is the name space, poff 0 the broadcast.
-/

namespace Msock

/-- `msock_pid_t`, a 64-bit pointer used as an integer. -/
abbrev Pid := BitVec 64

/-- `GID_BITS`. -/
def gidBits : Nat := 5

/-- `POFF_BITS`, with `sizeof(long) = 8`. -/
def poffBits : Nat := 8 * 8 - gidBits

/-- `MSOCK_MAX_DOMAINS`, the length of `gid_to_domain` and of every `outbox`. -/
def maxDomains : Nat := 5

/-- `MAX_REG_NAMES`, the length of `name_to_pid`. -/
def maxRegNames : Nat := 32

/-- `PID_BROADCAST`, as a poff. -/
def pidBroadcast : Nat := 0

/-- The limit `domain_new` gives its map: `(1L<<(sizeof(off_t)*8-5)) - 1`. -/
def pidMaxCounter : Nat := 2 ^ (8 * 8 - 5) - 1

/-- `pid_to_gid`. -/
def pidToGid (mpid : Pid) : Nat := (mpid >>> poffBits).toNat

/-- `pid_to_poff`. -/
def pidToPoff (mpid : Pid) : Nat := ((mpid <<< gidBits) >>> gidBits).toNat

/-- `poff_gid_to_pid`. -/
def poffGidToPid (poff gid : Nat) : Pid :=
  BitVec.ofNat 64 poff ||| (BitVec.ofNat 64 gid <<< poffBits)

/-! ## The packing is exact -/

theorem pidToGid_eq (x : Pid) : pidToGid x = x.toNat / 2 ^ 59 := by
  simp [pidToGid, poffBits, gidBits, Nat.shiftRight_eq_div_pow]

theorem pidToPoff_eq (x : Pid) : pidToPoff x = x.toNat % 2 ^ 59 := by
  have hx := x.isLt
  simp only [pidToPoff, gidBits, BitVec.toNat_ushiftRight, BitVec.toNat_shiftLeft,
    Nat.shiftRight_eq_div_pow, Nat.shiftLeft_eq]
  omega

theorem pidToPoff_lt (x : Pid) : pidToPoff x < 2 ^ 59 := by
  rw [pidToPoff_eq]; exact Nat.mod_lt _ (by decide)

theorem pidToGid_lt (x : Pid) : pidToGid x < 2 ^ 5 := by
  have hx := x.isLt
  rw [pidToGid_eq]; omega

/-- The two fields do not overlap, so `|` adds them. -/
theorem toNat_poffGidToPid {poff gid : Nat} (hp : poff < 2 ^ 59) (hg : gid < 2 ^ 5) :
    (poffGidToPid poff gid).toNat = gid * 2 ^ 59 + poff := by
  have hshift : (BitVec.ofNat 64 gid <<< poffBits).toNat = 2 ^ 59 * gid := by
    simp only [poffBits, gidBits, BitVec.toNat_shiftLeft, BitVec.toNat_ofNat, Nat.shiftLeft_eq]
    omega
  have hpoff : (BitVec.ofNat 64 poff).toNat = poff := by
    rw [BitVec.toNat_ofNat]; exact Nat.mod_eq_of_lt (by omega)
  rw [poffGidToPid, BitVec.toNat_or, hshift, hpoff, Nat.or_comm,
    ← Nat.two_pow_add_eq_or_of_lt hp, Nat.mul_comm]

theorem pidToGid_poffGidToPid {poff gid : Nat} (hp : poff < 2 ^ 59) (hg : gid < 2 ^ 5) :
    pidToGid (poffGidToPid poff gid) = gid := by
  rw [pidToGid_eq, toNat_poffGidToPid hp hg]; omega

theorem pidToPoff_poffGidToPid {poff gid : Nat} (hp : poff < 2 ^ 59) (hg : gid < 2 ^ 5) :
    pidToPoff (poffGidToPid poff gid) = poff := by
  rw [pidToPoff_eq, toNat_poffGidToPid hp hg]; omega

/-- A pid is its two fields. -/
theorem poffGidToPid_fields (x : Pid) : poffGidToPid (pidToPoff x) (pidToGid x) = x := by
  apply BitVec.eq_of_toNat_eq
  rw [toNat_poffGidToPid (pidToPoff_lt x) (pidToGid_lt x), pidToGid_eq, pidToPoff_eq]
  have := Nat.div_add_mod x.toNat (2 ^ 59)
  omega

end Msock

import Mathlib

/-!
# Values in memory

A layout says how many bytes the values of a type take and which. Layouts of the members of a
struct, with the padding between them, make the layout of the struct. What a value is copied to
is read back as that value, whatever lies behind it.
-/

namespace Lib

universe u v
variable {α : Type u} {β : Type v}

/-- How the values of a type lie in memory. -/
structure Layout (α : Type u) where
  size : Nat
  encode : α → List UInt8
  decode : List UInt8 → α
  length_encode : ∀ a, (encode a).length = size
  decode_encode : ∀ a rest, decode (encode a ++ rest) = a

/-- The `n` lowest bytes of a number, the lowest first. -/
def bytesLE : Nat → Nat → List UInt8
  | 0, _ => []
  | n + 1, x => UInt8.ofNat x :: bytesLE n (x / 256)

/-- The number that the first `n` bytes make. -/
def ofBytesLE : Nat → List UInt8 → Nat
  | 0, _ => 0
  | _ + 1, [] => 0
  | n + 1, byte :: bytes => byte.toNat + 256 * ofBytesLE n bytes

theorem length_bytesLE (n x : Nat) : (bytesLE n x).length = n := by
  induction n generalizing x with
  | zero => rfl
  | succ n ih => rw [bytesLE, List.length_cons, ih]

theorem ofBytesLE_bytesLE (n x : Nat) (rest : List UInt8) :
    ofBytesLE n (bytesLE n x ++ rest) = x % 256 ^ n := by
  induction n generalizing x with
  | zero => rw [pow_zero, Nat.mod_one, ofBytesLE]
  | succ n ih =>
      have hlow : (UInt8.ofNat x).toNat = x % 256 := by simp
      rw [bytesLE, List.cons_append, ofBytesLE, ih, hlow, pow_succ', Nat.mod_mul]

namespace Layout

/-- A word of `n` bytes. -/
def word (n : Nat) : Layout (BitVec (8 * n)) where
  size := n
  encode x := bytesLE n x.toNat
  decode bytes := BitVec.ofNat _ (ofBytesLE n bytes)
  length_encode _ := length_bytesLE n _
  decode_encode x rest := by
    have hlt : x.toNat < 256 ^ n := by
      rw [show 256 = 2 ^ 8 from rfl, ← pow_mul]
      exact x.isLt
    rw [ofBytesLE_bytesLE, Nat.mod_eq_of_lt hlt, BitVec.ofNat_toNat, BitVec.setWidth_eq]

/-- One value behind the other. -/
def pair (l : Layout α) (l' : Layout β) : Layout (α × β) where
  size := l.size + l'.size
  encode a := l.encode a.1 ++ l'.encode a.2
  decode bytes := (l.decode bytes, l'.decode (bytes.drop l.size))
  length_encode a := by rw [List.length_append, l.length_encode, l'.length_encode]
  decode_encode a rest := by
    rw [List.append_assoc, l.decode_encode,
      List.drop_left' (l.length_encode a.1), l'.decode_encode]

/-- A value with `n` bytes of padding behind it. -/
def padded (l : Layout α) (n : Nat) : Layout α where
  size := l.size + n
  encode a := l.encode a ++ List.replicate n 0
  decode := l.decode
  length_encode a := by rw [List.length_append, l.length_encode, List.length_replicate]
  decode_encode a rest := by rw [List.append_assoc, l.decode_encode]

/-- The same bytes, under other names. -/
def named (l : Layout α) (members : β → α) (make : α → β) (h : ∀ b, make (members b) = b) :
    Layout β where
  size := l.size
  encode b := l.encode (members b)
  decode bytes := make (l.decode bytes)
  length_encode _ := l.length_encode _
  decode_encode b rest := by rw [l.decode_encode, h]

end Layout

end Lib

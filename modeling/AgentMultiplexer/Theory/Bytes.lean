import Mathlib.Algebra.Order.Ring.Nat

set_option autoImplicit false

/-! # Bytes: integers, checksums and text

The byte-level encodings of Go's `encoding/binary`, `hash/crc32`, `hash/fnv` and of UTF-8 text, as
functions on lists of bytes that evaluate in the kernel. -/

namespace Bytes

/-! ## Big-endian integers -/

/-- `binary.BigEndian.PutUint32`. -/
def be32 (n : Nat) : List UInt8 :=
  [UInt8.ofNat (n / 2 ^ 24), UInt8.ofNat (n / 2 ^ 16), UInt8.ofNat (n / 2 ^ 8), UInt8.ofNat n]

/-- `binary.BigEndian.Uint32`, of the first four bytes. -/
def readBE32 : List UInt8 → Nat
  | a :: b :: c :: d :: _ => a.toNat * 2 ^ 24 + b.toNat * 2 ^ 16 + c.toNat * 2 ^ 8 + d.toNat
  | _ => 0

@[simp] theorem length_be32 (n : Nat) : (be32 n).length = 4 := rfl

theorem readBE32_be32 {n : Nat} (hn : n < 2 ^ 32) (rest : List UInt8) :
    readBE32 (be32 n ++ rest) = n := by
  simp only [be32, readBE32, List.cons_append, UInt8.toNat_ofNat']
  omega

theorem readBE32_append {l : List UInt8} (hl : 4 ≤ l.length) (rest : List UInt8) :
    readBE32 (l ++ rest) = readBE32 l := by
  match l, hl with
  | a :: b :: c :: d :: l, _ => rfl

theorem be32_small {n : Nat} (hn : n < 2 ^ 8) : be32 n = [0, 0, 0, UInt8.ofNat n] := by
  have h1 : n / 2 ^ 24 = 0 := by omega
  have h2 : n / 2 ^ 16 = 0 := by omega
  have h3 : n / 2 ^ 8 = 0 := by omega
  simp only [be32, h1, h2, h3]
  rfl

/-! ## Checksums -/

/-- One bit of the reflected Castagnoli polynomial division. -/
def crcBit (crc : UInt32) : UInt32 :=
  if crc &&& 1 = 1 then (crc >>> 1) ^^^ 0x82F63B78 else crc >>> 1

def crcByte (crc : UInt32) (b : UInt8) : UInt32 :=
  crcBit (crcBit (crcBit (crcBit (crcBit (crcBit (crcBit (crcBit (crc ^^^ b.toUInt32))))))))

/-- `crc32.Checksum` with the Castagnoli table. -/
def crc32c (data : List UInt8) : UInt32 :=
  data.foldl crcByte 0xFFFFFFFF ^^^ 0xFFFFFFFF

/-- `fnv.New32a` over the data. -/
def fnv32a (data : List UInt8) : UInt32 :=
  data.foldl (fun h b => (h ^^^ b.toUInt32) * 16777619) 2166136261

-- the check values of the two algorithms
example : crc32c [49, 50, 51, 52, 53, 54, 55, 56, 57] = 0xE3069283 := by decide +kernel
example : fnv32a [97] = 0xE40C292C := by decide +kernel

/-! ## Text -/

def utf8 (cs : List Char) : List UInt8 := cs.flatMap String.utf8EncodeChar

def isAscii (c : Char) : Bool := c.toNat < 128

/-- The one byte of an ASCII character. -/
def ofAscii (c : Char) : UInt8 := UInt8.ofNat c.toNat

variable {c : Char}

theorem toNat_ofAscii (hc : isAscii c) : (ofAscii c).toNat = c.toNat := by
  have hlt : c.toNat < 128 := of_decide_eq_true hc
  rw [ofAscii, UInt8.toNat_ofNat']
  omega

theorem ofNat_ofAscii (hc : isAscii c) : .ofNat (ofAscii c).toNat = c := by
  rw [toNat_ofAscii hc, Char.ofNat_toNat]

theorem utf8EncodeChar_ascii (hc : isAscii c) :
    String.utf8EncodeChar c = [ofAscii c] := by
  have hlt : c.toNat < 128 := of_decide_eq_true hc
  have hle : c.val.toNat ≤ 127 := Nat.le_of_lt_succ hlt
  simp only [String.utf8EncodeChar, hle, if_true, ofAscii]
  rfl

end Bytes

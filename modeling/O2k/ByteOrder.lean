import Mathlib.Algebra.Ring.Int.Defs
import Mathlib.Algebra.Ring.Nat
import Mathlib.Data.List.Basic
import Mathlib.Tactic.Common

set_option autoImplicit false

namespace O2k.ByteOrder

abbrev Bytes := List UInt8

def be32 (v : UInt32) : Bytes :=
  [UInt8.ofNat (v.toNat / 2 ^ 24), UInt8.ofNat (v.toNat / 2 ^ 16),
    UInt8.ofNat (v.toNat / 2 ^ 8), UInt8.ofNat v.toNat]

def ofBe32 (bs : Bytes) : UInt32 :=
  UInt32.ofNat (bs.foldl (fun n b => 256 * n + b.toNat) 0)

@[simp] theorem be32_length (v : UInt32) : (be32 v).length = 4 := rfl

@[simp] theorem ofBe32_be32 (v : UInt32) : ofBe32 (be32 v) = v := by
  apply UInt32.toNat_inj.mp
  have hv := v.toNat_lt
  simp only [ofBe32, be32, List.foldl_cons, List.foldl_nil, UInt8.toNat_ofNat',
    UInt32.toNat_ofNat']
  omega

theorem be32_ofBe32 (bs : Bytes) (h : bs.length = 4) : be32 (ofBe32 bs) = bs := by
  match bs, h with
  | [a, b, c, d], _ =>
    have ha := a.toNat_lt
    have hb := b.toNat_lt
    have hc := c.toNat_lt
    have hd := d.toNat_lt
    have hv : (ofBe32 [a, b, c, d]).toNat =
        a.toNat * 2 ^ 24 + b.toNat * 2 ^ 16 + c.toNat * 2 ^ 8 + d.toNat := by
      simp only [ofBe32, List.foldl_cons, List.foldl_nil, UInt32.toNat_ofNat']
      omega
    simp only [be32, hv, List.cons.injEq, and_true]
    refine ⟨?_, ?_, ?_, ?_⟩ <;>
      (apply UInt8.toNat_inj.mp; rw [UInt8.toNat_ofNat']; omega)

inductive Endian where
  | little
  | big
  deriving DecidableEq

def Endian.store : Endian → UInt32 → Bytes
  | .little, v => (be32 v).reverse
  | .big, v => be32 v

def Endian.load : Endian → Bytes → UInt32
  | .little, bs => ofBe32 bs.reverse
  | .big, bs => ofBe32 bs

/-- `htonl` and `ntohl`: a byte swap on a little-endian host, nothing on a big-endian one. -/
def Endian.hostToNet : Endian → UInt32 → UInt32
  | .little, v => ofBe32 (be32 v).reverse
  | .big, v => v

@[simp] theorem Endian.store_length (e : Endian) (v : UInt32) : (e.store v).length = 4 := by
  cases e <;> rfl

theorem Endian.store_hostToNet (e : Endian) (v : UInt32) : e.store (e.hostToNet v) = be32 v := by
  cases e with
  | little => rw [store, hostToNet, be32_ofBe32 _ (by simp), List.reverse_reverse]
  | big => rfl

theorem Endian.hostToNet_load (e : Endian) (bs : Bytes) (h : bs.length = 4) :
    e.hostToNet (e.load bs) = ofBe32 bs := by
  cases e with
  | little => rw [load, hostToNet, be32_ofBe32 _ (by simpa using h), List.reverse_reverse]
  | big => rfl

def signed (v : UInt32) : ℤ := if v.toNat < 2 ^ 31 then v.toNat else v.toNat - 2 ^ 32

theorem signed_ofNat (n : ℕ) (h : n < 2 ^ 31) : signed (UInt32.ofNat n) = n := by
  have hn : (UInt32.ofNat n).toNat = n := by
    rw [UInt32.toNat_ofNat']
    omega
  rw [signed, hn, if_pos h]

def frame (p : Bytes) : Bytes := be32 (UInt32.ofNat p.length) ++ p

def frames (ps : List Bytes) : Bytes := ps.flatMap frame

@[simp] theorem frame_length (p : Bytes) : (frame p).length = 4 + p.length := by
  simp [frame]

@[simp] theorem frames_nil : frames [] = [] := rfl

@[simp] theorem frames_cons (p : Bytes) (ps : List Bytes) :
    frames (p :: ps) = frame p ++ frames ps := rfl

def beNat (bs : Bytes) : ℕ := bs.foldl (fun n b => 256 * n + b.toNat) 0

theorem foldl_be (bs : Bytes) (n : ℕ) :
    bs.foldl (fun n b => 256 * n + b.toNat) n = n * 256 ^ bs.length + beNat bs := by
  induction bs generalizing n with
  | nil => simp [beNat]
  | cons b bs ih =>
    have hzero := ih b.toNat
    simp only [beNat, List.foldl_cons, Nat.mul_zero, Nat.zero_add] at ih hzero ⊢
    rw [ih, hzero, List.length_cons, Nat.pow_succ, Nat.add_mul, Nat.mul_comm 256 n, Nat.mul_assoc,
      Nat.mul_comm 256, Nat.add_assoc]

theorem beNat_append (xs ys : Bytes) :
    beNat (xs ++ ys) = beNat xs * 256 ^ ys.length + beNat ys := by
  rw [beNat, List.foldl_append, foldl_be ys]
  rfl

theorem beNat_lt (bs : Bytes) : beNat bs < 256 ^ bs.length := by
  induction bs with
  | nil => decide
  | cons b bs ih =>
    have hb := b.toNat_lt
    have hcons : beNat (b :: bs) = b.toNat * 256 ^ bs.length + beNat bs := by
      have happ := beNat_append [b] bs
      simpa [beNat] using happ
    have hmul : b.toNat * 256 ^ bs.length + 256 ^ bs.length ≤ 256 * 256 ^ bs.length := by
      have hle := Nat.mul_le_mul_right (256 ^ bs.length) (show b.toNat + 1 ≤ 256 by omega)
      rwa [Nat.add_mul, Nat.one_mul] at hle
    rw [hcons, List.length_cons, Nat.pow_succ]
    omega

theorem beNat_zeros (n : ℕ) : beNat (List.replicate n 0) = 0 := by
  induction n with
  | zero => rfl
  | succ n ih =>
    rw [List.replicate_succ', beNat_append, ih]
    rfl

theorem beNat_ones (n : ℕ) : beNat (List.replicate n 255) + 1 = 256 ^ n := by
  induction n with
  | zero => rfl
  | succ n ih =>
    have hlast : beNat [255] = 255 := rfl
    rw [List.replicate_succ', beNat_append, hlast, List.length_singleton, Nat.pow_succ]
    omega

theorem ofBe32_toNat (bs : Bytes) (h : bs.length = 4) : (ofBe32 bs).toNat = beNat bs := by
  have hlt := beNat_lt bs
  rw [h] at hlt
  change (UInt32.ofNat (beNat bs)).toNat = beNat bs
  rw [UInt32.toNat_ofNat']
  omega

end O2k.ByteOrder

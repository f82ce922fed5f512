import Lsmcd.Lib.Bytes
import Lsmcd.Util.LoopBuf

/-!
`ReplPacker` (`replpacker.cpp`): values packed one after another into a buffer and unpacked from it.
-/

namespace Lsmcd

open Bytes LoopBuf

inductive IntWidth where
  | w8
  | w16
  | w32
  | w64

def IntWidth.bytes : IntWidth → Nat
  | .w8 => 1
  | .w16 => 2
  | .w32 => 4
  | .w64 => 8

theorem IntWidth.bytes_pos (w : IntWidth) : 0 < w.bytes := by
  cases w <;> decide

theorem IntWidth.bytes_lt (w : IntWidth) : w.bytes < 2 ^ 31 := by
  cases w <;> decide

/--
An integer, signed or not, a string with its length, and the bytes of a string. Lengths are an `int`, `behind`
is what lies in memory after the string.
-/
inductive PackValue where
  | int (w : IntWidth) (v : BitVec (8 * w.bytes))
  | str (bs : List UInt8) (behind : Nat → UInt8) (len_lt : bs.length < 2 ^ 31)
  | raw (bs : List UInt8) (len_lt : bs.length < 2 ^ 31)

/--
What an unpacked value is. `none` when nothing is stored.
-/
inductive Unpacked where
  | int (w : IntWidth) (v : BitVec (8 * w.bytes))
  | str (bs : List UInt8)
  | none

namespace ReplPacker

def int32 (n : Nat) : Int :=
  (BitVec.ofNat 32 n).toInt

def source (bs : List UInt8) (behind : Nat → UInt8) (n : Nat) : List UInt8 :=
  (List.range n).map fun i => bs.getD i (behind i)

def pack (bufLen : Nat) : PackValue → Int × List UInt8
  | .int w v => if bufLen < w.bytes then (-1, []) else (w.bytes, leBytes w.bytes v.toNat)
  | .str bs behind _ =>
    let PackSize := int32 (bs.length + 4 + 1)
    if (bufLen : Int) < PackSize then (-1, [])
    else (PackSize, leBytes 4 (bs.length + 4 + 1) ++ source bs behind bufLen ++ [10])
  | .raw bs _ => if bufLen < bs.length then (-1, []) else (bs.length, bs)

def readMem (mem : Nat → UInt8) (p n : Nat) : List UInt8 :=
  (List.range n).map fun i => mem (p + i)

/--
A value of the type of the given one, with `avail` bytes left in the buffer. The length of a string is
what is behind the size.
-/
def unpack (mem : Nat → UInt8) (p avail : Nat) : PackValue → Int × Unpacked
  | .int w _ => (w.bytes, .int w (BitVec.ofNat _ (leVal (readMem mem p w.bytes))))
  | .str _ _ _ =>
    let strLen : Int := avail - 4
    if strLen ≤ 0 then (-1, .none)
    else
      let PackSize := int32 (leVal (readMem mem p 4) + (2 ^ 32 - 4))
      if strLen < PackSize ∨ PackSize < 1 then (-1, .none)
      else (PackSize, .str (readMem mem (p + 4) PackSize.toNat))
  | .raw bs _ => if bs.length = 0 then (-1, .none) else (bs.length, .str (readMem mem p bs.length))

def packAll (mem : Nat → UInt8) (p bufLen : Nat) : List PackValue → (Nat → UInt8) × List PackValue
  | [] => (mem, [])
  | v :: vs =>
    let r := pack bufLen v
    if r.1 = -1 then (mem, [])
    else
      let rest := packAll (memmove mem p r.2) (p + r.1.toNat) (bufLen - r.1.toNat) vs
      (rest.1, v :: rest.2)

def unpackAll (mem : Nat → UInt8) (p avail : Nat) : List PackValue → List Unpacked
  | [] => []
  | v :: vs =>
    let r := unpack mem p avail v
    r.2 :: unpackAll mem (p + r.1).toNat (avail - r.1).toNat vs

end ReplPacker

namespace PackValue

def need : PackValue → Nat
  | .int w _ => w.bytes
  | .str bs _ _ => bs.length + 4 + 1
  | .raw bs _ => bs.length

def unpacked : PackValue → Unpacked
  | .int w v => .int w v
  | .str bs _ _ => .str bs
  | .raw bs _ => .str bs

def Intact : PackValue → Prop
  | .int _ _ => True
  | .str _ _ _ => False
  | .raw bs _ => bs ≠ []

end PackValue

namespace ReplPacker

/--
Each value either does not fit and writes nothing, or is written in the buffer and returns what it has written.
-/
def PacksWell (bufLen : Nat) : List PackValue → Prop
  | [] => True
  | v :: vs =>
    let r := pack bufLen v
    if r.1 = -1 then r.2 = [] ∧ bufLen < v.need
    else r.2.length ≤ bufLen ∧ r.1 = r.2.length ∧ PacksWell (bufLen - r.2.length) vs

def RoundTrips (mem : Nat → UInt8) (p bufLen : Nat) (vs : List PackValue) : Prop :=
  unpackAll (packAll mem p bufLen vs).1 p bufLen (packAll mem p bufLen vs).2 =
    (packAll mem p bufLen vs).2.map PackValue.unpacked

/--
The values before the first one that does not fit are integers and byte strings that are not empty, and the size
of that one is no number below 0.
-/
def Plain (bufLen : Nat) : List PackValue → Prop
  | [] => True
  | v :: vs =>
    if bufLen < v.need then v.need < 2 ^ 31 else v.Intact ∧ Plain (bufLen - v.need) vs

variable {mem : Nat → UInt8} {p bufLen : Nat} {v : PackValue} {vs : List PackValue}

theorem int32_of_lt {n : Nat} (h : n < 2 ^ 31) : int32 n = n := by
  unfold int32
  rw [BitVec.toInt_eq_toNat_of_lt (by rw [BitVec.toNat_ofNat]; omega), BitVec.toNat_ofNat, Nat.mod_eq_of_lt (by omega)]

theorem int32_of_ge {n : Nat} (h : 2 ^ 31 ≤ n) (hlt : n < 2 ^ 31 + 8) : int32 n < -1 := by
  unfold int32
  rw [BitVec.toInt_eq_toNat_cond, BitVec.toNat_ofNat, Nat.mod_eq_of_lt (by omega), if_neg (by omega)]
  omega

theorem length_pack_str (bs : List UInt8) (behind : Nat → UInt8)
    : (leBytes 4 (bs.length + 4 + 1) ++ source bs behind bufLen ++ [10]).length = bufLen + 5 := by
  simp [source]
  omega

structure Simple (v : PackValue) (bs : List UInt8) : Prop where
  length : bs.length = v.need
  pack : ∀ bufLen, pack bufLen v =
    if bufLen < v.need then ((-1 : Int), ([] : List UInt8)) else ((v.need : Int), bs)
  unpack : ∀ mem p avail, 0 < v.need → readMem mem p v.need = bs → 
    unpack mem p avail v = ((v.need : Int), v.unpacked)

theorem simple_int (w : IntWidth) (n : BitVec (8 * w.bytes)) : Simple (.int w n) (leBytes w.bytes n.toNat) where
  length := length_leBytes ..
  pack _ := rfl
  unpack mem p avail _ hread := by
    show (_, Unpacked.int w (BitVec.ofNat _ (leVal (readMem mem p w.bytes)))) = _
    have hlt : n.toNat < 256 ^ w.bytes := by
      rw [show (256 : Nat) = 2 ^ 8 from rfl, ← Nat.pow_mul]
      exact n.isLt
    change readMem mem p w.bytes = _ at hread
    rw [hread, leVal_leBytes hlt, BitVec.ofNat_toNat, BitVec.setWidth_eq]
    rfl

theorem simple_raw (bs : List UInt8) (hlen : bs.length < 2 ^ 31) : Simple (.raw bs hlen) bs where
  length := rfl
  pack _ := rfl
  unpack mem p avail hpos hread := by
    change readMem mem p bs.length = bs at hread
    show (if bs.length = 0 then _ else (_, Unpacked.str (readMem mem p bs.length))) = _
    rw [if_neg (show ¬ bs.length = 0 from Nat.ne_of_gt hpos), hread]
    rfl

theorem readMem_memmove (mem : Nat → UInt8) (p : Nat) (bs : List UInt8)
    : readMem (memmove mem p bs) p bs.length = bs := by
  apply List.ext_getElem
  . simp [readMem]
  . intro i hi hl
    simp only [readMem, List.getElem_map, List.getElem_range]
    exact memmove_of_lt hl

theorem packAll_frame (vs : List PackValue) (mem : Nat → UInt8) (p bufLen : Nat) {x : Nat} (hx : x < p)
    : (packAll mem p bufLen vs).1 x = mem x := by
  induction vs generalizing mem p bufLen with
  | nil => rfl
  | cons v vs ih =>
    unfold packAll
    dsimp only
    split
    . rfl
    . dsimp only
      rw [ih _ _ _ (by omega)]
      exact memmove_of_not (by omega)

theorem packAll_simple {bs : List UInt8} (h : Simple v bs) (hfit : v.need ≤ bufLen)
    : packAll mem p bufLen (v :: vs) =
      ((packAll (memmove mem p bs) (p + v.need) (bufLen - v.need) vs).1,
        v :: (packAll (memmove mem p bs) (p + v.need) (bufLen - v.need) vs).2) := by
  rw [packAll, h.pack, if_neg (Nat.not_lt.mpr hfit)]
  dsimp only
  rw [if_neg (by omega), Int.toNat_natCast]

theorem roundTrips_cons {bs : List UInt8} (h : Simple v bs) (hpos : 0 < v.need) (hfit : v.need ≤ bufLen)
    : RoundTrips mem p bufLen (v :: vs) ↔
      RoundTrips (memmove mem p bs) (p + v.need) (bufLen - v.need) vs := by
  have hread : readMem (packAll (memmove mem p bs) (p + v.need) (bufLen - v.need) vs).1 p v.need = bs := by
    calc
      _ = readMem (memmove mem p bs) p v.need := by
        apply List.map_congr_left
        intro i hi
        have hi := List.mem_range.mp hi
        exact packAll_frame vs _ _ _ (by omega)
      _ = bs := by
        rw [← h.length]
        exact readMem_memmove mem p bs
  unfold RoundTrips
  rw [packAll_simple h hfit]
  dsimp only
  rw [unpackAll, h.unpack _ _ _ hpos hread, List.map_cons]
  dsimp only
  rw [List.cons_eq_cons, show ((p : Int) + (v.need : Int)).toNat = p + v.need by omega,
    show ((bufLen : Int) - (v.need : Int)).toNat = bufLen - v.need by omega]
  exact ⟨fun hc => hc.2, fun hc => ⟨rfl, hc⟩⟩

theorem packsWell_cons {bs : List UInt8} (h : Simple v bs) (hfit : v.need ≤ bufLen)
    : PacksWell bufLen (v :: vs) ↔ PacksWell (bufLen - v.need) vs := by
  rw [PacksWell, h.pack, if_neg (Nat.not_lt.mpr hfit)]
  dsimp only
  rw [if_neg (by omega), h.length]
  exact ⟨fun hc => hc.2.2, fun hc => ⟨hfit, rfl, hc⟩⟩

theorem both_of_fail (h : pack bufLen v = (-1, [])) (hn : bufLen < v.need)
    : PacksWell bufLen (v :: vs) ∧ RoundTrips mem p bufLen (v :: vs) := by
  constructor
  . rw [PacksWell, h]
    exact ⟨rfl, hn⟩
  . unfold RoundTrips
    rw [packAll, h]
    rfl

theorem packs_iff_of_simple {bs : List UInt8} (h : Simple v bs) (hpos : 0 < v.need) (hlt : v.need < 2 ^ 31)
    (hv : v.Intact)
    (ih : ∀ mem p bufLen, PacksWell bufLen vs ∧ RoundTrips mem p bufLen vs ↔ Plain bufLen vs)
    : PacksWell bufLen (v :: vs) ∧ RoundTrips mem p bufLen (v :: vs) ↔ Plain bufLen (v :: vs) := by
  by_cases hfit : v.need ≤ bufLen
  . rw [Plain, if_neg (Nat.not_lt.mpr hfit), packsWell_cons h hfit, roundTrips_cons h hpos hfit]
    exact (ih _ _ _).trans ⟨fun hc => ⟨hv, hc⟩, fun hc => hc.2⟩
  . have hn := Nat.not_le.mp hfit
    have hfail : pack bufLen v = (-1, []) := by
      rw [h.pack, if_pos hn]
    rw [Plain, if_pos hn]
    exact ⟨fun _ => hlt, fun _ => both_of_fail hfail hn⟩

/--
A sequence is packed in the buffer and comes back exactly when what fits of it is integers and byte strings that
are not empty.
-/
theorem packs_iff (mem : Nat → UInt8) (p bufLen : Nat) (vs : List PackValue)
    : PacksWell bufLen vs ∧ RoundTrips mem p bufLen vs ↔ Plain bufLen vs := by
  induction vs generalizing mem p bufLen with
  | nil => exact ⟨fun _ => trivial, fun _ => ⟨trivial, rfl⟩⟩
  | cons v vs ih =>
    cases v with
    | int w n => exact packs_iff_of_simple (simple_int w n) w.bytes_pos w.bytes_lt trivial ih
    | raw bs hlen =>
      by_cases hnil : bs = []
      . subst hnil
        have hplain : ¬ Plain bufLen (.raw [] hlen :: vs) := by
          rw [Plain, if_neg (show ¬ bufLen < PackValue.need (.raw [] hlen) from Nat.not_lt_zero bufLen)]
          exact fun hc => hc.1 rfl
        refine ⟨fun hc => ?_, fun hc => absurd hc hplain⟩
        have htrip := hc.2
        unfold RoundTrips at htrip
        rw [packAll_simple (simple_raw [] hlen) (Nat.zero_le _)] at htrip
        dsimp only at htrip
        rw [unpackAll, List.map_cons, List.cons_eq_cons] at htrip
        exact Unpacked.noConfusion htrip.1
      . exact packs_iff_of_simple (simple_raw bs hlen) (List.length_pos_iff.mpr hnil) hlen hnil ih
    | str bs behind hlen =>
      by_cases hfail : bufLen < bs.length + 4 + 1 ∧ bs.length + 4 + 1 < 2 ^ 31
      . have hret : pack bufLen (.str bs behind hlen) = (-1, []) := by
          rw [pack, int32_of_lt hfail.2]
          exact if_pos (by omega)
        rw [Plain, if_pos (show bufLen < PackValue.need (.str bs behind hlen) from hfail.1)]
        exact ⟨fun _ => hfail.2, fun _ => both_of_fail hret hfail.1⟩
      . -- the string is written, past the end of the buffer
        have hplain : ¬ Plain bufLen (.str bs behind hlen :: vs) := by
          rw [Plain]
          split
          . rename_i hn
            exact fun hc => hfail ⟨hn, hc⟩
          . exact fun hc => hc.1
        refine ⟨fun hc => ?_, fun hc => absurd hc hplain⟩
        have hwritten : pack bufLen (.str bs behind hlen) = (int32 (bs.length + 4 + 1),
            leBytes 4 (bs.length + 4 + 1) ++ source bs behind bufLen ++ [10]) ∧ int32 (bs.length + 4 + 1) ≠ -1 := by
          by_cases hsmall : bs.length + 4 + 1 < 2 ^ 31
          . rw [int32_of_lt hsmall, pack, int32_of_lt hsmall]
            exact ⟨if_neg (by omega), by omega⟩
          . have hneg := int32_of_ge (n := bs.length + 4 + 1) (by omega) (by omega)
            rw [pack]
            exact ⟨if_neg (by omega), by omega⟩
        have hwell := hc.1
        rw [PacksWell, hwritten.1] at hwell
        dsimp only at hwell
        rw [if_neg hwritten.2, length_pack_str] at hwell
        omega

/--
A string of two bytes fits in a buffer of 16, and is packed into 21 bytes.
-/
theorem pack_two_bytes
    : ¬ ∀ mem p bufLen vs, PacksWell bufLen vs ∧ RoundTrips mem p bufLen vs := by
  intro h
  have hwell := (h (fun _ => 0) 0 16 [.str [97, 98] (fun _ => 0) (by decide)]).1
  rw [PacksWell] at hwell
  have hret : (pack 16 (.str [97, 98] (fun _ => 0) (by decide))).1 = 7 := by decide
  rw [if_neg (by rw [hret]; decide)] at hwell
  exact absurd hwell.1 (by decide)

end ReplPacker

end Lsmcd

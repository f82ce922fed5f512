import Lsmcd.Util.AutoBuf

/-!
The status of a node as it is sent to its peers (`lcnodeinfo.cpp`).
-/

namespace Lsmcd

open Bytes Packed

structure StaticNodeInfo where
  m_SvrIP : UInt32
  m_SvrPort : UInt16
  m_ShmSvrIP : UInt32
  m_ShmSvrPort : UInt16

namespace StaticNodeInfo

def totalSize : Nat := 4 + 2 + 4 + 2

def serialize (y : StaticNodeInfo) (b : AutoBuf) : AutoBuf :=
  let b := b.appended (u32.encode y.m_SvrIP) 4
  let b := b.appended (u16.encode y.m_SvrPort) 2
  let b := b.appended (u32.encode y.m_ShmSvrIP) 4
  b.appended (u16.encode y.m_ShmSvrPort) 2

def fields : Reader StaticNodeInfo := do
  let svrIP ← u32.read
  let svrPort ← u16.read
  let shmSvrIP ← u32.read
  let shmSvrPort ← u16.read
  return ⟨svrIP, svrPort, shmSvrIP, shmSvrPort⟩

/--
The inner none is the result `NULL`.
-/
def deserialize (pBuf : List UInt8) (dataLen : Int) : Option (Option StaticNodeInfo) :=
  (fields pBuf).map fun r => if (totalSize : Int) ≠ dataLen then none else some r.1

end StaticNodeInfo

/--
Each array has an entry for each container, `new` makes them so.
-/
structure LcNodeInfo where
  m_iContCount : UInt32
  m_pContId : Sized UInt32 m_iContCount.toNat
  m_pCurrTid : Sized UInt64 m_iContCount.toNat
  m_pPriority : Sized UInt32 m_iContCount.toNat
  m_pTidNum : Sized UInt32 m_iContCount.toNat
  m_pRole : Sized UInt16 m_iContCount.toNat
  m_pFsync : Sized UInt16 m_iContCount.toNat

namespace LcNodeInfo

def rowSize : Nat := 4 + 8 + 4 + 4 + 2 + 2

def totalSize (x : LcNodeInfo) : Int :=
  toInt (4 + rowSize * x.m_iContCount.toNat)

/--
One of the arrays. Its size is a `size_t` until it is handed to `append`.
-/
def appendArray {α : Type} {n : Nat} (c : Packed α) (as : Sized α n) (b : AutoBuf) : AutoBuf :=
  b.appended (c.encodes as.1) (toInt (c.width * n))

def serialize (x : LcNodeInfo) (b : AutoBuf) : AutoBuf :=
  let b := b.appended (u32.encode x.m_iContCount) 4
  let b := appendArray u32 x.m_pContId b
  let b := appendArray u64 x.m_pCurrTid b
  let b := appendArray u32 x.m_pPriority b
  let b := appendArray u32 x.m_pTidNum b
  let b := appendArray u16 x.m_pRole b
  appendArray u16 x.m_pFsync b

def fields : Reader LcNodeInfo := do
  let contCount ← u32.read
  let contId ← (u32.array contCount.toNat).read
  let currTid ← (u64.array contCount.toNat).read
  let priority ← (u32.array contCount.toNat).read
  let tidNum ← (u32.array contCount.toNat).read
  let role ← (u16.array contCount.toNat).read
  let fsync ← (u16.array contCount.toNat).read
  return ⟨contCount, contId, currTid, priority, tidNum, role, fsync⟩

def deserialize (pBuf : List UInt8) (dataLen : Int) : Option (Option LcNodeInfo) :=
  (fields pBuf).map fun r => if r.1.totalSize ≠ dataLen then none else some r.1

end LcNodeInfo

namespace StaticNodeInfo

def packed : Packed (UInt32 × UInt16 × UInt32 × UInt16) :=
  u32.prod (u16.prod (u32.prod u16))

def bytes (y : StaticNodeInfo) : List UInt8 :=
  packed.encode (y.m_SvrIP, y.m_SvrPort, y.m_ShmSvrIP, y.m_ShmSvrPort)

@[simp]
theorem length_bytes (y : StaticNodeInfo) : y.bytes.length = totalSize := packed.length_encode _

theorem fields_eq : fields = do
    let v ← packed.read
    return ⟨v.1, v.2.1, v.2.2.1, v.2.2.2⟩ := by
  simp only [packed, read_prod, bind_assoc, pure_bind]
  rfl

theorem fields_bytes (y : StaticNodeInfo) (t : List UInt8) : fields (y.bytes ++ t) = some (y, t) := by
  rw [fields_eq]
  simp only [bind, StateT.bind, bytes, read_encode, Option.bind_some]
  rfl

theorem fields_eq_some {bs t : List UInt8} {y : StaticNodeInfo} (h : fields bs = some (y, t))
    : bs = y.bytes ++ t := by
  rw [fields_eq] at h
  simp only [bind, StateT.bind, Option.bind_eq_some_iff] at h
  obtain ⟨⟨v, u⟩, hread, hv⟩ := h
  obtain ⟨rfl, rfl⟩ := Prod.mk.inj (Option.some.inj hv)
  exact read_eq_some _ hread

theorem fields_isSome (bs : List UInt8) : (fields bs).isSome ↔ totalSize ≤ bs.length := by
  rw [fields_eq]
  rw [← show packed.width = totalSize from rfl, ← read_isSome]
  simp only [bind, StateT.bind]
  cases packed.read bs <;> rfl

end StaticNodeInfo

namespace LcNodeInfo

def rows (n : Nat) :=
  (u32.array n).prod ((u64.array n).prod ((u32.array n).prod
    ((u32.array n).prod ((u16.array n).prod (u16.array n)))))

theorem width_rows (n : Nat) : (rows n).width = rowSize * n := by
  simp only [rows, rowSize, width_prod, width_array, width_u16, width_u32, width_u64]
  omega

def bytes (x : LcNodeInfo) : List UInt8 :=
  u32.encode x.m_iContCount ++ (rows x.m_iContCount.toNat).encode
    (x.m_pContId, x.m_pCurrTid, x.m_pPriority, x.m_pTidNum, x.m_pRole, x.m_pFsync)

@[simp]
theorem length_bytes (x : LcNodeInfo) : x.bytes.length = 4 + rowSize * x.m_iContCount.toNat := by
  rw [bytes, List.length_append, length_encode, length_encode, width_u32, width_rows]

theorem fields_eq : fields = do
    let n ← u32.read
    let v ← (rows n.toNat).read
    return ⟨n, v.1, v.2.1, v.2.2.1, v.2.2.2.1, v.2.2.2.2.1, v.2.2.2.2.2⟩ := by
  simp only [rows, read_prod, bind_assoc, pure_bind]
  rfl

theorem fields_bytes (x : LcNodeInfo) (t : List UInt8) : fields (x.bytes ++ t) = some (x, t) := by
  rw [fields_eq]
  simp only [bind, StateT.bind, bytes, List.append_assoc, read_encode, Option.bind_some]
  rfl

theorem fields_eq_some {bs t : List UInt8} {x : LcNodeInfo} (h : fields bs = some (x, t))
    : bs = x.bytes ++ t := by
  rw [fields_eq] at h
  simp only [bind, StateT.bind, Option.bind_eq_some_iff] at h
  obtain ⟨⟨n, u⟩, hcount, ⟨v, w⟩, hrows, hv⟩ := h
  obtain ⟨rfl, rfl⟩ := Prod.mk.inj (Option.some.inj hv)
  dsimp only at hrows
  rw [read_eq_some _ hcount, read_eq_some _ hrows, bytes, List.append_assoc]

def count (data : List UInt8) : Nat := leVal (data.take 4)

def Covered (data : List UInt8) : Prop :=
  4 ≤ data.length ∧ 4 + rowSize * count data ≤ data.length

instance (data : List UInt8) : Decidable (Covered data) := inferInstanceAs (Decidable (_ ∧ _))

theorem count_encode (n : UInt32) (t : List UInt8) : count (u32.encode n ++ t) = n.toNat := by
  have hlen : (u32.encode n).length = 4 := u32.length_encode n
  rw [count, List.take_left' hlen]
  exact leVal_leBytes n.toNat_lt

theorem fields_isSome (data : List UInt8) : (fields data).isSome ↔ Covered data := by
  rw [fields_eq]
  unfold Covered
  simp only [bind, StateT.bind]
  cases h : u32.read data with
  | none =>
    have hlen : ¬ 4 ≤ data.length := by
      rw [← width_u32, ← read_isSome, h]
      exact Bool.false_ne_true
    exact ⟨fun h => by contradiction, fun h => absurd h.1 hlen⟩
  | some r =>
    obtain ⟨n, t⟩ := r
    have hdata := read_eq_some _ h
    have hlen : data.length = 4 + t.length := by
      rw [hdata, List.length_append, length_encode, width_u32]
    have hrows := (rows n.toNat).read_isSome t
    have hsome : 4 ≤ data.length ∧ 4 + rowSize * count data ≤ data.length ↔
        rowSize * n.toNat ≤ t.length := by
      rw [hlen, hdata, count_encode]
      omega
    rw [hsome, ← width_rows, ← hrows]
    dsimp only [Option.bind_some]
    cases (rows n.toNat).read t <;> rfl

theorem serialize_eq (x : LcNodeInfo) (b : AutoBuf)
    : x.serialize b = b.appendAll
        [u32.encode x.m_iContCount, u32.encodes x.m_pContId.1, u64.encodes x.m_pCurrTid.1,
          u32.encodes x.m_pPriority.1, u32.encodes x.m_pTidNum.1, u16.encodes x.m_pRole.1,
          u16.encodes x.m_pFsync.1] := by
  have hsize : ∀ {α : Type} (c : Packed α) (as : Sized α x.m_iContCount.toNat) (b : AutoBuf),
      appendArray c as b = b.appended (c.encodes as.1) (toInt (c.encodes as.1).length) := by
    intro α c as b
    rw [appendArray, length_encodes, as.2, Nat.mul_comm]
  have hcount : toInt (u32.encode x.m_iContCount).length = 4 := by
    rw [length_encode, width_u32, toInt_of_lt (by decide)]
    rfl
  unfold serialize
  dsimp only
  rw [hsize, hsize, hsize, hsize, hsize, hsize]
  repeat rw [AutoBuf.appendAll_cons]
  rw [hcount, AutoBuf.appendAll_nil]

theorem serialize_bytes (x : LcNodeInfo) {b : AutoBuf} (hb : b.Paged) (h : b.Room x.bytes.length)
    : (x.serialize b).content = b.content ++ x.bytes := by
  have hflat : x.bytes = [u32.encode x.m_iContCount, u32.encodes x.m_pContId.1,
      u64.encodes x.m_pCurrTid.1, u32.encodes x.m_pPriority.1, u32.encodes x.m_pTidNum.1,
      u16.encodes x.m_pRole.1, u16.encodes x.m_pFsync.1].flatten := by
    simp only [List.flatten_cons, List.flatten_nil, List.append_nil]
    rfl
  rw [serialize_eq, AutoBuf.content_appendAll hb, ← hflat]
  rw [← hflat]
  exact h

def RoundTrip (x : LcNodeInfo) : Prop :=
  let data := (x.serialize AutoBuf.new).content
  deserialize data data.length = some (some x)

def Fits (x : LcNodeInfo) : Prop :=
  4 + rowSize * x.m_iContCount.toNat ≤ 2 ^ 31 - 512

theorem totalSize_eq {x : LcNodeInfo} (h : x.bytes.length < 2 ^ 31) : x.totalSize = x.bytes.length := by
  rw [totalSize, ← length_bytes, toInt_of_lt h]

theorem deserialize_bytes {x : LcNodeInfo} (h : x.bytes.length < 2 ^ 31)
    : deserialize x.bytes x.bytes.length = some (some x) := by
  have hfields := x.fields_bytes []
  rw [List.append_nil] at hfields
  rw [deserialize, hfields, Option.map_some, if_neg]
  intro hne
  exact hne (totalSize_eq h)

theorem roundTrip_iff (x : LcNodeInfo) : x.RoundTrip ↔ x.Fits := by
  have hlen := x.length_bytes
  unfold RoundTrip Fits
  dsimp only
  constructor
  . intro h
    have hread : ∃ t, fields (x.serialize AutoBuf.new).content = some (x, t) := by
      unfold deserialize at h
      cases hf : fields (x.serialize AutoBuf.new).content with
      | none =>
        rw [hf] at h
        contradiction
      | some r =>
        rw [hf, Option.map_some] at h
        have h := Option.some.inj h
        split at h
        . contradiction
        . exact ⟨r.2, congrArg some (Prod.ext (Option.some.inj h) rfl)⟩
    obtain ⟨t, ht⟩ := hread
    -- All bytes have been read, so they have come into the buffer.
    have hdata := congrArg List.length (fields_eq_some ht)
    have hpaged : (x.serialize AutoBuf.new).Paged := by
      rw [serialize_eq]
      exact AutoBuf.paged_appendAll AutoBuf.paged_new _
    have hsize := AutoBuf.size_le _ hpaged
    unfold AutoBuf.size at hsize
    rw [List.length_append] at hdata
    omega
  . intro h
    have hroom : AutoBuf.new.Room x.bytes.length := by
      rw [hlen]
      unfold AutoBuf.Room AutoBuf.size
      rw [AutoBuf.content_new, List.length_nil, Nat.zero_add]
      exact h
    rw [serialize_bytes x AutoBuf.paged_new hroom, AutoBuf.content_new, List.nil_append]
    exact deserialize_bytes (by omega)

/--
Only bytes of the text are read, and what is accepted is a value's text.
-/
def Checked (data : List UInt8) : Prop :=
  ∃ r, deserialize data data.length = some r ∧ ∀ x, r = some x → data = x.bytes

theorem checked_iff {data : List UInt8} (hlen : data.length < 2 ^ 31)
    : Checked data ↔ Covered data := by
  rw [← fields_isSome]
  unfold Checked deserialize
  cases h : fields data with
  | none => exact ⟨fun h => by obtain ⟨_, h, _⟩ := h; contradiction, fun h => by contradiction⟩
  | some r =>
    obtain ⟨x, t⟩ := r
    have hdata := fields_eq_some h
    refine ⟨fun _ => rfl, fun _ => ⟨_, rfl, ?_⟩⟩
    intro y hy
    dsimp only at hy
    split at hy
    . contradiction
    . rename_i hsize
      have hbytes := x.length_bytes
      rw [hdata, List.length_append] at hlen hsize
      rw [totalSize_eq (by omega)] at hsize
      have ht : t = [] := List.length_eq_zero_iff.mp (by omega)
      rw [← Option.some.inj hy, hdata, ht, List.append_nil]

end LcNodeInfo

namespace StaticNodeInfo

theorem serialize_eq (y : StaticNodeInfo) (b : AutoBuf)
    : y.serialize b = b.appendAll
        [u32.encode y.m_SvrIP, u16.encode y.m_SvrPort, u32.encode y.m_ShmSvrIP,
          u16.encode y.m_ShmSvrPort] := by
  have h4 : ∀ v, toInt (u32.encode v).length = 4 := by
    intro v
    rw [length_encode, width_u32, toInt_of_lt (by decide)]
    rfl
  have h2 : ∀ v, toInt (u16.encode v).length = 2 := by
    intro v
    rw [length_encode, width_u16, toInt_of_lt (by decide)]
    rfl
  unfold serialize
  dsimp only
  repeat rw [AutoBuf.appendAll_cons]
  rw [h4, h4, h2, h2, AutoBuf.appendAll_nil]

theorem serialize_bytes (y : StaticNodeInfo) {b : AutoBuf} (hb : b.Paged) (h : b.Room totalSize)
    : (y.serialize b).content = b.content ++ y.bytes := by
  have hflat : y.bytes = [u32.encode y.m_SvrIP, u16.encode y.m_SvrPort, u32.encode y.m_ShmSvrIP,
      u16.encode y.m_ShmSvrPort].flatten := by
    simp only [List.flatten_cons, List.flatten_nil, List.append_nil]
    rfl
  rw [serialize_eq, AutoBuf.content_appendAll hb, ← hflat]
  rw [← hflat, length_bytes]
  exact h

def RoundTrip (y : StaticNodeInfo) : Prop :=
  let data := (y.serialize AutoBuf.new).content
  deserialize data data.length = some (some y)

theorem roundTrip (y : StaticNodeInfo) : y.RoundTrip := by
  have hroom : AutoBuf.new.Room totalSize := by
    unfold AutoBuf.Room
    decide
  have hfields := y.fields_bytes []
  unfold RoundTrip
  dsimp only
  rw [y.serialize_bytes AutoBuf.paged_new hroom, AutoBuf.content_new, List.nil_append]
  rw [List.append_nil] at hfields
  rw [deserialize, hfields, Option.map_some, length_bytes, if_neg]
  exact not_not_intro rfl

def Checked (data : List UInt8) : Prop :=
  ∃ r, deserialize data data.length = some r ∧ ∀ y, r = some y → data = y.bytes

theorem checked_iff (data : List UInt8) : Checked data ↔ totalSize ≤ data.length := by
  rw [← fields_isSome]
  unfold Checked deserialize
  cases h : fields data with
  | none => exact ⟨fun h => by obtain ⟨_, h, _⟩ := h; contradiction, fun h => by contradiction⟩
  | some r =>
    obtain ⟨y, t⟩ := r
    have hdata := fields_eq_some h
    refine ⟨fun _ => rfl, fun _ => ⟨_, rfl, ?_⟩⟩
    intro z hz
    dsimp only at hz
    split at hz
    . contradiction
    . rename_i hsize
      rw [not_not, hdata, List.length_append, length_bytes] at hsize
      have ht : t = [] := List.length_eq_zero_iff.mp (by omega)
      rw [← Option.some.inj hz, hdata, ht, List.append_nil]

end StaticNodeInfo

/--
What is sent comes back as it was while it fits into a buffer. What is received is checked when it
has the bytes that its container count speaks of: the count is used before anything is compared with
the length.
-/
theorem nodeInfo_codec (x : LcNodeInfo) (y : StaticNodeInfo) (data : List UInt8)
    (hlen : data.length < 2 ^ 31)
    : (x.RoundTrip ↔ x.Fits) ∧ y.RoundTrip ∧
      (LcNodeInfo.Checked data ↔ LcNodeInfo.Covered data) ∧
      (StaticNodeInfo.Checked data ↔ StaticNodeInfo.totalSize ≤ data.length) :=
  ⟨x.roundTrip_iff, y.roundTrip, LcNodeInfo.checked_iff hlen, StaticNodeInfo.checked_iff data⟩

def loneCount : List UInt8 := [1, 0, 0, 0]

def sampleNode : LcNodeInfo where
  m_iContCount := 1
  m_pContId := ⟨[1], rfl⟩
  m_pCurrTid := ⟨[7], rfl⟩
  m_pPriority := ⟨[3], rfl⟩
  m_pTidNum := ⟨[5], rfl⟩
  m_pRole := ⟨[2], rfl⟩
  m_pFsync := ⟨[0], rfl⟩

theorem nodeInfo_codec_loneCount
    : sampleNode.RoundTrip ∧ ¬ LcNodeInfo.Checked loneCount ∧
      ¬ StaticNodeInfo.Checked loneCount := by
  have h := nodeInfo_codec sampleNode ⟨1, 2, 3, 4⟩ loneCount (by decide)
  refine ⟨h.1.mpr (by unfold LcNodeInfo.Fits; decide), ?_, ?_⟩
  . exact fun hc => absurd (h.2.2.1.mp hc) (by decide)
  . exact fun hc => absurd (h.2.2.2.mp hc) (by decide)

theorem not_checked_loneCount : ¬ LcNodeInfo.Checked loneCount := by
  rw [LcNodeInfo.checked_iff (by decide)]
  decide

end Lsmcd

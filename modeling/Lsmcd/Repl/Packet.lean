import Lsmcd.Lib.Bytes
import Lsmcd.Lib.Framing
import Lsmcd.Util.LoopBuf
import Mathlib.Algebra.Group.Int.Defs

/-!
The packets of the replication link (`replpacket.cpp`, `crc16.cpp`) and how a connection takes them
out of what it has received (`replconn.cpp`, without compression).
-/

namespace Lsmcd

open Bytes

def crc16tab : Array UInt16 :=
  #[
    0x0000, 0x1021, 0x2042, 0x3063, 0x4084, 0x50a5, 0x60c6, 0x70e7,
    0x8108, 0x9129, 0xa14a, 0xb16b, 0xc18c, 0xd1ad, 0xe1ce, 0xf1ef,
    0x1231, 0x0210, 0x3273, 0x2252, 0x52b5, 0x4294, 0x72f7, 0x62d6,
    0x9339, 0x8318, 0xb37b, 0xa35a, 0xd3bd, 0xc39c, 0xf3ff, 0xe3de,
    0x2462, 0x3443, 0x0420, 0x1401, 0x64e6, 0x74c7, 0x44a4, 0x5485,
    0xa56a, 0xb54b, 0x8528, 0x9509, 0xe5ee, 0xf5cf, 0xc5ac, 0xd58d,
    0x3653, 0x2672, 0x1611, 0x0630, 0x76d7, 0x66f6, 0x5695, 0x46b4,
    0xb75b, 0xa77a, 0x9719, 0x8738, 0xf7df, 0xe7fe, 0xd79d, 0xc7bc,
    0x48c4, 0x58e5, 0x6886, 0x78a7, 0x0840, 0x1861, 0x2802, 0x3823,
    0xc9cc, 0xd9ed, 0xe98e, 0xf9af, 0x8948, 0x9969, 0xa90a, 0xb92b,
    0x5af5, 0x4ad4, 0x7ab7, 0x6a96, 0x1a71, 0x0a50, 0x3a33, 0x2a12,
    0xdbfd, 0xcbdc, 0xfbbf, 0xeb9e, 0x9b79, 0x8b58, 0xbb3b, 0xab1a,
    0x6ca6, 0x7c87, 0x4ce4, 0x5cc5, 0x2c22, 0x3c03, 0x0c60, 0x1c41,
    0xedae, 0xfd8f, 0xcdec, 0xddcd, 0xad2a, 0xbd0b, 0x8d68, 0x9d49,
    0x7e97, 0x6eb6, 0x5ed5, 0x4ef4, 0x3e13, 0x2e32, 0x1e51, 0x0e70,
    0xff9f, 0xefbe, 0xdfdd, 0xcffc, 0xbf1b, 0xaf3a, 0x9f59, 0x8f78,
    0x9188, 0x81a9, 0xb1ca, 0xa1eb, 0xd10c, 0xc12d, 0xf14e, 0xe16f,
    0x1080, 0x00a1, 0x30c2, 0x20e3, 0x5004, 0x4025, 0x7046, 0x6067,
    0x83b9, 0x9398, 0xa3fb, 0xb3da, 0xc33d, 0xd31c, 0xe37f, 0xf35e,
    0x02b1, 0x1290, 0x22f3, 0x32d2, 0x4235, 0x5214, 0x6277, 0x7256,
    0xb5ea, 0xa5cb, 0x95a8, 0x8589, 0xf56e, 0xe54f, 0xd52c, 0xc50d,
    0x34e2, 0x24c3, 0x14a0, 0x0481, 0x7466, 0x6447, 0x5424, 0x4405,
    0xa7db, 0xb7fa, 0x8799, 0x97b8, 0xe75f, 0xf77e, 0xc71d, 0xd73c,
    0x26d3, 0x36f2, 0x0691, 0x16b0, 0x6657, 0x7676, 0x4615, 0x5634,
    0xd94c, 0xc96d, 0xf90e, 0xe92f, 0x99c8, 0x89e9, 0xb98a, 0xa9ab,
    0x5844, 0x4865, 0x7806, 0x6827, 0x18c0, 0x08e1, 0x3882, 0x28a3,
    0xcb7d, 0xdb5c, 0xeb3f, 0xfb1e, 0x8bf9, 0x9bd8, 0xabbb, 0xbb9a,
    0x4a75, 0x5a54, 0x6a37, 0x7a16, 0x0af1, 0x1ad0, 0x2ab3, 0x3a92,
    0xfd2e, 0xed0f, 0xdd6c, 0xcd4d, 0xbdaa, 0xad8b, 0x9de8, 0x8dc9,
    0x7c26, 0x6c07, 0x5c64, 0x4c45, 0x3ca2, 0x2c83, 0x1ce0, 0x0cc1,
    0xef1f, 0xff3e, 0xcf5d, 0xdf7c, 0xaf9b, 0xbfba, 0x8fd9, 0x9ff8,
    0x6e17, 0x7e36, 0x4e55, 0x5e74, 0x2e93, 0x3eb2, 0x0ed1, 0x1ef0]

def crc16_ccitt (buf : List UInt8) : UInt16 :=
  buf.foldl (fun crc b => (crc <<< 8) ^^^ crc16tab.getD ((crc >>> 8).toUInt8 ^^^ b).toNat 0) 0

def sizeofReplPacketHeader : Nat := 16

/--
`uiPackStart` is taken apart: from its lowest byte on, two bytes for the check sum, one for the type
and one for the mark.
-/
structure ReplPacketHeader where
  crc : UInt16
  type : UInt8
  mark : UInt8
  uiPackLen : UInt32
  uiSequenceNum : UInt32
  uiContID : UInt32

namespace ReplPacketHeader

def body (h : ReplPacketHeader) : List UInt8 :=
  [h.type, h.mark] ++ leBytes 4 h.uiPackLen.toNat ++ leBytes 4 h.uiSequenceNum.toNat ++
    leBytes 4 h.uiContID.toNat

def bytes (h : ReplPacketHeader) : List UInt8 :=
  leBytes 2 h.crc.toNat ++ h.body

def ofBytes (bs : List UInt8) : ReplPacketHeader where
  crc := UInt16.ofNat (leVal (bs.take 2))
  type := bs.getD 2 0
  mark := bs.getD 3 0
  uiPackLen := UInt32.ofNat (leVal ((bs.drop 4).take 4))
  uiSequenceNum := UInt32.ofNat (leVal ((bs.drop 8).take 4))
  uiContID := UInt32.ofNat (leVal ((bs.drop 12).take 4))

def initPack (h : ReplPacketHeader) : ReplPacketHeader :=
  { h with mark := 0x12, uiSequenceNum := 0 }

def calCRC16 (h : ReplPacketHeader) : ReplPacketHeader :=
  { h with crc := crc16_ccitt h.body }

def checkCRC16 (h : ReplPacketHeader) : Bool :=
  h.crc = crc16_ccitt h.body

def setType (h : ReplPacketHeader) (uiType : UInt32) : ReplPacketHeader :=
  { h with type := uiType.toUInt8 }

def getType (h : ReplPacketHeader) : UInt32 :=
  h.type.toUInt32

def setPackLen (h : ReplPacketHeader) (packLen : UInt32) : ReplPacketHeader :=
  { h with uiPackLen := packLen }.calCRC16

def Marked (h : ReplPacketHeader) : Prop :=
  h.mark &&& 0x12 = 0x12 ∧ h.checkCRC16 = true

instance (h : ReplPacketHeader) : Decidable h.Marked := inferInstanceAs (Decidable (_ ∧ _))

def checkPack (h : ReplPacketHeader) : Int :=
  if ¬ h.Marked then -1
  else if h.uiPackLen.toNat < 2 ^ 31 then h.uiPackLen.toNat
  else (h.uiPackLen.toNat : Int) - 2 ^ 32

def unpack (pBuf : List UInt8) (bufLen : Nat) : ReplPacketHeader × Int :=
  let h := ofBytes (pBuf.take sizeofReplPacketHeader)
  if bufLen < sizeofReplPacketHeader then (h, (bufLen : Int) - sizeofReplPacketHeader)
  else
    let size := h.checkPack
    if size < 0 then (h, 0)
    else if (bufLen : Int) < size then (h, bufLen - size)
    else (h, size)

/--
`getPackLen() - sizeof(ReplPacketHeader)`, as the receivers compute the length of the data.
-/
def dataLen (h : ReplPacketHeader) : Nat :=
  (h.uiPackLen.toNat + 2 ^ 32 - sizeofReplPacketHeader) % 2 ^ 32

end ReplPacketHeader

def sendPacket (h : ReplPacketHeader) (uContID uiType seqNum : UInt32) (pPayLoad : List UInt8)
    : List UInt8 :=
  let pHeader := h.initPack
  let pHeader := { pHeader with uiContID := uContID }
  let pHeader := pHeader.setType uiType
  let pHeader := { pHeader with uiSequenceNum := seqNum }
  let pHeader := pHeader.setPackLen (UInt32.ofNat (sizeofReplPacketHeader + pPayLoad.length))
  pHeader.bytes ++ pPayLoad

/--
What `processPacket` is given: the header's fields and the data that the header speaks of, as far as
they have been received.
-/
structure ReplPacket where
  uiContID : UInt32
  uiType : UInt32
  uiSequenceNum : UInt32
  pData : List UInt8
  deriving DecidableEq

def ReplPacketHeader.packet (h : ReplPacketHeader) (received : List UInt8) : ReplPacket where
  uiContID := h.uiContID
  uiType := h.getType
  uiSequenceNum := h.uiSequenceNum
  pData := received.take h.dataLen

inductive ConnState where
  | CS_DISCONNECTED
  | CS_CONNECTED
  deriving DecidableEq

/--
The receiving side of a connection: `handled` are the packets that `processPacket` was given,
`overflow` is set when a size does not fit in an `int`.
-/
structure ReplConn where
  m_iConnState : ConnState
  m_bufIncoming : LoopBuf
  handled : List ReplPacket
  overflow : Bool

namespace ReplConn

def start : ReplConn where
  m_iConnState := .CS_CONNECTED
  m_bufIncoming := .new 4096
  handled := []
  overflow := false

def closeConnection (c : ReplConn) : ReplConn :=
  if c.m_iConnState = .CS_DISCONNECTED then c
  else { c with m_iConnState := .CS_DISCONNECTED, m_bufIncoming := c.m_bufIncoming.clear }

def append (c : ReplConn) (bs : List UInt8) : ReplConn :=
  match c.m_bufIncoming.append bs with
  | some b => { c with m_bufIncoming := b }
  | none => { c with overflow := true }

def straighten (c : ReplConn) : ReplConn :=
  if c.m_bufIncoming.blockSize ≠ c.m_bufIncoming.size then
    let r := c.m_bufIncoming.moveTo c.m_bufIncoming.size
    { c with m_bufIncoming := r.2 }.append r.1
  else c

/--
The loop of `processIncoming`. Every iteration but the last takes something out of the buffer.
-/
def processIncomingLoop : Nat → ReplConn → ReplConn
  | 0, c => c
  | fuel + 1, c =>
    let c := c.straighten
    let pBuf := c.m_bufIncoming.peek c.m_bufIncoming.size
    let r := ReplPacketHeader.unpack pBuf c.m_bufIncoming.size
    if 0 < r.2 then
      let packet := r.1.packet (pBuf.drop sizeofReplPacketHeader)
      processIncomingLoop fuel
        { c with
          handled := c.handled ++ [packet]
          m_bufIncoming := c.m_bufIncoming.pop_front r.2.toNat }
    else if r.2 = 0 then c.closeConnection
    else c

def processIncoming (c : ReplConn) : ReplConn :=
  processIncomingLoop (c.m_bufIncoming.size + 1) c

/--
`bs` is what `Read` returns. A connection that was closed is not read.
-/
def onRead (c : ReplConn) (bs : List UInt8) : ReplConn :=
  if c.m_iConnState = .CS_DISCONNECTED ∨ c.overflow = true ∨ bs = [] then c
  else
    let c := c.append bs
    if c.overflow then c else c.processIncoming

end ReplConn

end Lsmcd

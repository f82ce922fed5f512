import Lsmcd.Memcache.Serve

/-!
The handlers of the text protocol and `processCmd`.
-/

namespace Lsmcd

def errorStr : List UInt8 := bytes "ERROR\r\n"
def badCmdLineFmt : List UInt8 := bytes "CLIENT_ERROR bad command line format\r\n"

/--
The input of a handler: the buffer, where the arguments start and end in it, and where the data after
the line starts.
-/
structure McInput where
  buf : List UInt8
  pStr : Nat
  pStrEnd : Nat
  pNxt : Nat

namespace McInput

def iLen (i : McInput) : Nat :=
  i.buf.length - i.pNxt

def data (i : McInput) : List UInt8 :=
  i.buf.drop i.pNxt

def args (i : McInput) : List UInt8 :=
  (i.buf.drop i.pStr).take (i.pStrEnd - i.pStr)

def adv (i : McInput) (pStr : Nat) : Nat × Token :=
  advToken i.buf pStr i.pStrEnd

def tok (i : McInput) (t : Token) : List UInt8 :=
  tokBytes i.buf t

def str (i : McInput) (t : Token) : List UInt8 :=
  cString i.buf t.ptr

def isNoreply (i : McInput) (t : Token) : Bool :=
  chkNoreply i.buf t

def chkEnd (i : McInput) (pStr : Nat) : Bool :=
  chkEndToken i.buf pStr i.pStrEnd

end McInput

namespace McCall

def getKeys (i : McInput) : Nat → Nat → List (List UInt8) × Bool
  | 0, _ => ([], false)
  | fuel + 1, pStr =>
    let t := i.adv pStr
    if t.2.len ≤ 0 then ([], false)
    else if KEY_MAXLEN < t.2.len then ([], true)
    else
      let r := getKeys i fuel t.1
      (i.tok t.2 :: r.1, r.2)

def valueLine (s : McCall) (e : LsShmHElem) (valLen : Int) (withCas : Bool) : List UInt8 :=
  let cas := if s.mc.m_mcparms.m_usecas then e.cas else 0
  bytes "VALUE " ++ e.key ++ bytes " " ++ decimalInt (toInt32 e.flags) ++ bytes " " ++
    decimalInt valLen ++ (if withCas then bytes " " ++ decimal cas else []) ++ bytes "\r\n"

def getKey (arg : Nat) (s : McCall) (key : List UInt8) : McCall :=
  let s := (s.setKey key).setSlice key
  let hash := s.getHash
  let iterOff := hash.find2 s.mc.m_hkey s.mc.m_parms.key
  let miss := s.stat fun st => { st with get_misses := st.get_misses + 1 }
  if iterOff = 0 then miss
  else match hash.offset2iterator iterOff with
    | none => miss
    | some e =>
      if isExpired hash e then
        (s.setHash (hash.eraseIteratorHelper iterOff)).stat fun st =>
          { st with get_misses := st.get_misses + 1 }
      else
        let data := mcIter2data e s.mc.m_mcparms.m_usecas
        let s := s.stat fun st => { st with get_hits := st.get_hits + 1 }
        let s := s.sendResult (s.valueLine e data.2 (arg &&& LSMC_WITHCAS ≠ 0))
        (s.binRespond (getMem e.data data.1 data.2.toNat)).binRespond (bytes "\r\n")

def doCmdGet (s : McCall) (i : McInput) (arg : Nat) : McCall × Int :=
  let s := s.setNoreply false
  let keys := getKeys i (i.buf.length + 1) i.pStr
  if keys.2 then (s.respond badCmdLineFmt, 0)
  else if keys.1 = [] then (s.respond errorStr, 0)
  else ((keys.1.foldl (getKey arg) s).sendResult (bytes "END\r\n"), 0)

/--
The arguments of a storage command. A number that cannot be read makes the line a bad one.
-/
structure UpdateArgs where
  key : Token
  flags : Nat
  exptime : Nat
  length : Int
  cas : Nat
  noreply : Bool
  badcmdline : Bool

def updateArgs (i : McInput) (arg : Nat) : UpdateArgs :=
  let key := i.adv i.pStr
  let pFlags := i.adv key.1
  let pExptime := i.adv pFlags.1
  let pLength := i.adv pExptime.1
  let flags := myStrtoul (i.str pFlags.2)
  let exptime := myStrtoul (i.str pExptime.2)
  let length := myStrtol (i.str pLength.2)
  let withCas : Bool := arg &&& LSMC_WITHCAS ≠ 0
  let pCas := i.adv pLength.1
  let cas := if withCas then myStrtoull (i.str pCas.2) else some 0
  let last := i.adv (if withCas then pCas.1 else pLength.1)
  { key := key.2
    flags := flags.getD 0
    exptime := exptime.getD 0
    length := length.getD 0
    cas := cas.getD 0
    noreply := i.isNoreply last.2
    badcmdline := pLength.2.len ≤ 0 || flags.isNone || exptime.isNone || length.isNone ||
      KEY_MAXLEN < key.2.len || (withCas && pCas.2.len ≤ 0) || cas.isNone }

def dataLen (length : Nat) : Nat :=
  if length ≠ 0 then length + 2 else 0

def storeOp (s : McCall) (arg cas : Nat) : McCall :=
  let opt : LsMcUpdOpt :=
    { s.mc.env.updOpt with
      m_iFlags := if (arg = MC_BINCMD_APPEND ∨ arg = MC_BINCMD_PREPEND) ∧ s.mc.m_mcparms.m_usecas
        then arg ||| LSMC_USECAS else arg
      m_cas := cas }
  if arg = MC_BINCMD_ADD then
    let r := s.doHashInsert opt
    (r.1.setIterOff r.2.2).setRetcode .DONE
  else if arg = MC_BINCMD_SET then
    let hash := s.getHash
    let iterOff := hash.find2 s.mc.m_hkey s.mc.m_parms.key
    let r := s.ofHash (hash.doSet iterOff s.mc.m_hkey s.mc.m_parms)
    (r.1.setIterOff r.2).setRetcode .DONE
  else
    let r := s.doHashUpdate opt
    let s := r.1.setIterOff r.2.2
    if arg = MC_BINCMD_REPLACE then s.setRetcode .DONE
    else if arg = MC_BINCMD_APPEND then s.setRetcode .APPEND
    else if arg = MC_BINCMD_PREPEND then s.setRetcode .PREPEND
    else
      let s := s.setRetcode r.2.1.m_iRetcode
      s.stat fun st =>
        if r.2.1.m_iRetcode = .NOTFOUND then { st with cas_misses := st.cas_misses + 1 }
        else if r.2.1.m_iRetcode = .EEXISTS then { st with cas_badval := st.cas_badval + 1 }
        else { st with cas_hits := st.cas_hits + 1 }

def storeCmd (s : McCall) (i : McInput) (arg : Nat) (flags exptime length cas : Nat) : McCall × Int :=
  let s := s.setItem { x_exptime := exptime, x_flags := flags }
  let s := s.setVal (if arg = MC_BINCMD_APPEND ∨ arg = MC_BINCMD_PREPEND then length
    else s.parmAdjLen length)
  let r := s.chkMemSz arg
  if r.2 = .E2BIG then
    (r.1.respond (bytes "SERVER_ERROR object too large for cache\r\n"), dataLen length)
  else if r.2 ≠ .SUCCESS then
    (r.1.respond (bytes "SERVER_ERROR out of memory storing object\r\n"), dataLen length)
  else
    let s := r.1.stat fun st => { st with set_cmds := st.set_cmds + 1 }
    let s := (s.storeOp arg cas).setNeeded length
    (s.doDataUpdate i.data, dataLen length)

def fwdUpdate (s : McCall) (i : McInput) (length : Nat) : McCall × Int :=
  let len := dataLen length
  let slice := s.sliceAt s.conn.m_pSlice
  if slice.remote.connected then
    (s.fwdCommand s.conn.m_pSlice (s.cmdBytes i.pNxt (i.pNxt + len)), len)
  else (s.respond noForward, len)

def doCmdUpdate (s : McCall) (i : McInput) (arg : Nat) : McCall × Int :=
  let a := updateArgs i arg
  let key := i.tok a.key
  let r := (s.setKey key).canProcessNow key
  if !r.2 then (r.1, -1)
  else
    let s := r.1.setNoreply a.noreply
    if a.badcmdline ∨ a.length < 0 ∨ INT_MAX - 2 < a.length then (s.respond badCmdLineFmt, 0)
    else
      let length := a.length.toNat
      if length ≠ 0 ∧ i.iLen < length + 2 then (s, -1)
      else if length ≠ 0 ∧ (byteAt i.buf (i.pNxt + length) ≠ CR ∨
          byteAt i.buf (i.pNxt + length + 1) ≠ LF) then (s, 0)
      else if !s.getHash.isTidMaster then s.fwdUpdate i length
      else s.storeCmd i arg a.flags a.exptime length a.cas

def arithmeticCmd (s : McCall) (arg delta : Nat) : McCall :=
  let s := s.setVal (s.parmAdjLen 0)
  let r := s.doHashUpdate
    { s.mc.env.updOpt with
      m_iFlags := if s.mc.m_mcparms.m_usecas then arg ||| LSMC_USECAS else arg
      m_value := delta
      m_cas := 0 }
  let s := r.1.setIterOff r.2.2
  let opt := r.2.1
  if r.2.2 ≠ 0 then
    let s := s.stat fun st =>
      if arg = MC_BINCMD_INCREMENT then { st with incr_hits := st.incr_hits + 1 }
      else { st with decr_hits := st.decr_hits + 1 }
    let s := (s.setRetcode .NONE).doDataUpdate opt.m_pMisc
    s.respond (opt.m_pMisc ++ bytes "\r\n")
  else if opt.m_iRetcode = .NOTFOUND then
    let s := s.stat fun st =>
      if arg = MC_BINCMD_INCREMENT then { st with incr_misses := st.incr_misses + 1 }
      else { st with decr_misses := st.decr_misses + 1 }
    s.respond (bytes "NOT_FOUND\r\n")
  else if opt.m_iRetcode = .NONNUMERIC then
    s.respond (bytes "CLIENT_ERROR cannot increment or decrement non-numeric value\r\n")
  else s.respond (bytes "SERVER_ERROR unable to update\r\n")

def doCmdArithmetic (s : McCall) (i : McInput) (arg : Nat) : McCall × Int :=
  let pKey := i.adv i.pStr
  let key := i.tok pKey.2
  let r := (s.setKey key).canProcessNow key
  if !r.2 then (r.1, -1)
  else
    let s := r.1
    let pDelta := i.adv pKey.1
    if pDelta.2.len ≤ 0 ∨ KEY_MAXLEN < pKey.2.len then (s.respond badCmdLineFmt, 0)
    else match myStrtoull (i.str pDelta.2) with
      | none => (s.respond (bytes "CLIENT_ERROR invalid numeric delta argument\r\n"), 0)
      | some delta =>
        let q := s.fwdToRemote s.conn.m_pSlice i.pNxt
        if q.2 then (q.1, 0)
        else
          let noreply := i.isNoreply (i.adv pDelta.1).2
          ((q.1.setNoreply noreply).arithmeticCmd arg delta, 0)

/--
The optional arguments of `delete`: `none` when there are none, else `m_noreply` and whether the
format is bad. A text before `noreply` is taken as an error that is not reported.
-/
def deleteOpt (i : McInput) (pStr : Nat) : Option (Bool × Bool) :=
  let t := i.adv pStr
  let t := if t.2.len = 1 ∧ byteAt i.buf t.2.ptr = 48 then i.adv t.1 else t
  if t.2.len ≤ 0 then none
  else
    let noreply := i.isNoreply t.2
    let t := i.adv t.1
    let err := !noreply
    let noreply' := if noreply then true else i.isNoreply t.2
    let t := if !noreply ∧ noreply' then i.adv t.1 else t
    if 0 < t.2.len then some (false, true) else some (noreply', err)

def deleteElem (s : McCall) : McCall :=
  let hash := s.getHash
  let iterOff := hash.find2 s.mc.m_hkey s.mc.m_parms.key
  let r : LsShmHash × Bool :=
    if iterOff = 0 then (hash, s.mc.env.expired)
    else match hash.offset2iterator iterOff with
      | none => (hash, s.mc.env.expired)
      | some e => (hash.eraseIteratorHelper iterOff, isExpired hash e)
  let s := s.setHash r.1
  if iterOff ≠ 0 ∧ !r.2 then
    let s := s.stat fun st => { st with delete_hits := st.delete_hits + 1 }
    s.notifyChange.respond (bytes "DELETED\r\n")
  else
    let s := s.stat fun st => { st with delete_misses := st.delete_misses + 1 }
    s.respond (bytes "NOT_FOUND\r\n")

def deleteCmd (s : McCall) (i : McInput) : McCall × Int :=
  let q := s.fwdToRemote s.conn.m_pSlice i.pNxt
  if q.2 then (q.1, 0) else (q.1.deleteElem, 0)

/--
Without an optional argument `m_noreply` keeps its value.
-/
def doCmdDelete (s : McCall) (i : McInput) : McCall × Int :=
  let pKey := i.adv i.pStr
  let key := i.tok pKey.2
  let s := s.setKey key
  if pKey.2.len ≤ 0 ∨ KEY_MAXLEN < pKey.2.len then (s.respond badCmdLineFmt, 0)
  else
    let r := s.canProcessNow key
    if !r.2 then (r.1, -1)
    else match deleteOpt i pKey.1 with
      | none => r.1.deleteCmd i
      | some (noreply, err) =>
        let s := r.1.setNoreply noreply
        if err then (s.respond (bytes "CLIENT_ERROR bad delete format\r\n"), 0) else s.deleteCmd i

/--
`setItemExptime` adds in 32 bit.
-/
def touchExptime (exptime now : Nat) : Nat :=
  if exptime ≠ 0 ∧ exptime ≤ LSMC_MAXDELTATIME then (exptime + now) % 2 ^ 32 else exptime

def touchElem (s : McCall) (exptime : Nat) : McCall :=
  let hash := s.getHash
  let iterOff := hash.find2 s.mc.m_hkey s.mc.m_parms.key
  let miss := fun (s : McCall) =>
    (s.stat fun st => { st with touch_misses := st.touch_misses + 1 }).respond (bytes "NOT_FOUND\r\n")
  if iterOff = 0 then miss s
  else match hash.offset2iterator iterOff with
    | none => miss s
    | some e =>
      if isExpired hash e then miss (s.setHash (hash.eraseIteratorHelper iterOff))
      else
        let e := e.setExptime (touchExptime exptime hash.now)
        let hash := (hash.setTable (·.setElem iterOff (some e))).tidReplaceTid iterOff 0
        let s := (s.setHash hash).stat fun st => { st with touch_hits := st.touch_hits + 1 }
        s.notifyChange.respond (bytes "TOUCHED\r\n")

def doCmdTouch (s : McCall) (i : McInput) : McCall × Int :=
  let pKey := i.adv i.pStr
  let key := i.tok pKey.2
  let s := s.setKey key
  let pExptime := i.adv pKey.1
  if pExptime.2.len ≤ 0 ∨ KEY_MAXLEN < pKey.2.len then (s.respond badCmdLineFmt, 0)
  else
    let r := s.canProcessNow key
    if !r.2 then (r.1, -1)
    else match myStrtoul (i.str pExptime.2) with
      | none => (r.1.respond (bytes "CLIENT_ERROR invalid exptime argument\r\n"), 0)
      | some exptime =>
        let s := r.1.setNoreply (i.isNoreply (i.adv pExptime.1).2)
        let q := s.fwdToRemote s.conn.m_pSlice i.pNxt
        if q.2 then (q.1, 0) else (q.1.touchElem exptime, 0)

end McCall

end Lsmcd

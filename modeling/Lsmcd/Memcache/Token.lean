import Lsmcd.Memcache.Types

/-!
The tokens of a command line, their conversion to numbers and the table of commands.

A line is the buffer that holds it, positions in it are the pointers of the source. The byte after
the end of the buffer reads as 0.
-/

namespace Lsmcd

def SP : UInt8 := 32
def LF : UInt8 := 10
def CR : UInt8 := 13

def byteAt (buf : List UInt8) (i : Nat) : UInt8 :=
  buf.getD i 0

theorem byteAt_append_left {a b : List UInt8} {i : Nat} (h : i < a.length)
    : byteAt (a ++ b) i = byteAt a i := by
  simp [byteAt, List.getD_eq_getElem?_getD, List.getElem?_append_left h]

theorem byteAt_length (a b : List UInt8) (x : UInt8) : byteAt (a ++ x :: b) a.length = x := by
  simp [byteAt, List.getD_eq_getElem?_getD]

def memchr (buf : List UInt8) (ch : UInt8) (pStr pEnd : Nat) : Option Nat :=
  go (pEnd - pStr) pStr
where
  go : Nat → Nat → Option Nat
  | 0, _ => none
  | n + 1, p => if byteAt buf p = ch then some p else go n (p + 1)

def skipSpaces (buf : List UInt8) (pStr pStrEnd : Nat) : Nat :=
  go (pStrEnd - pStr) pStr
where
  go : Nat → Nat → Nat
  | 0, p => p
  | n + 1, p => if byteAt buf p = SP then go n (p + 1) else p

structure Token where
  ptr : Nat
  len : Nat

def advToken (buf : List UInt8) (pStr pStrEnd : Nat) : Nat × Token :=
  let pStr := skipSpaces buf pStr pStrEnd
  if pStrEnd ≤ pStr then (pStrEnd, ⟨pStrEnd, 0⟩)
  else
    let tokPtr := pStr
    let pStr := (memchr buf SP pStr pStrEnd).getD pStrEnd
    (if byteAt buf pStr = SP then pStr + 1 else pStr, ⟨tokPtr, pStr - tokPtr⟩)

def chkEndToken (buf : List UInt8) (pStr pStrEnd : Nat) : Bool :=
  (advToken buf pStr pStrEnd).2.len ≤ 0

def tokBytes (buf : List UInt8) (tok : Token) : List UInt8 :=
  (buf.drop tok.ptr).take tok.len

def cString (buf : List UInt8) (ptr : Nat) : List UInt8 :=
  (buf.drop ptr).takeWhile (· ≠ 0)

def chkNoreply (buf : List UInt8) (tok : Token) : Bool :=
  tokBytes buf tok = bytes "noreply"

def isspace (ch : UInt8) : Bool :=
  ch = SP || (9 ≤ ch && ch ≤ 13)

def isdigit (ch : UInt8) : Bool :=
  48 ≤ ch && ch ≤ 57

def digitsVal (ds : List UInt8) : Nat :=
  ds.foldl (fun n d => 10 * n + (d.toNat - 48)) 0

/--
The conversion that `strtol` and its relatives make: the sign, the magnitude and what `*endptr` is.
-/
def strtoNum (str : List UInt8) : Option (Bool × Nat × List UInt8) :=
  let str := str.dropWhile isspace
  let neg := str.head? = some 45
  let str := if neg ∨ str.head? = some 43 then str.tail else str
  let ds := str.takeWhile isdigit
  if ds = [] then none else some (neg, digitsVal ds, str.dropWhile isdigit)

def endOk (rest : List UInt8) : Bool :=
  match rest with
  | [] => true
  | ch :: _ => isspace ch

def myStrtol (str : List UInt8) : Option Int :=
  match strtoNum str with
  | none => none
  | some (neg, n, rest) =>
    if (if neg then 2 ^ 63 < n else 2 ^ 63 ≤ n) ∨ !endOk rest then none
    else some (toInt32 ((if neg then (-n : Int) else n) % 2 ^ 32).toNat)

/--
A minus sign negates the 64 bit number.
-/
def myStrtoull (str : List UInt8) : Option Nat :=
  match strtoNum str with
  | none => none
  | some (neg, n, rest) =>
    if 2 ^ 64 ≤ n ∨ !endOk rest then none
    else some (if neg then (2 ^ 64 - n) % 2 ^ 64 else n)

def myStrtoul (str : List UInt8) : Option Nat :=
  (myStrtoull str).map (· % 2 ^ 32)

inductive CmdFunc
  | doCmdTest1
  | doCmdTest2
  | doCmdPrintTids
  | doCmdGet
  | doCmdUpdate
  | doCmdArithmetic
  | doCmdDelete
  | doCmdTouch
  | doCmdStats
  | doCmdFlush
  | doCmdVersion
  | doCmdQuit
  | notImplemented
  | doCmdVerbosity
  | doCmdClear
  deriving DecidableEq

structure LsMcCmdFunc where
  cmd : String
  arg : Nat
  func : CmdFunc
  deriving DecidableEq

def s_LsMcCmdFuncs : List LsMcCmdFunc :=
  [ ⟨"test1", 0, .doCmdTest1⟩
  , ⟨"test2", 0, .doCmdTest2⟩
  , ⟨"printtids", 0, .doCmdPrintTids⟩
  , ⟨"get", MC_BINCMD_GET, .doCmdGet⟩
  , ⟨"bget", MC_BINCMD_GET, .doCmdGet⟩
  , ⟨"gets", MC_BINCMD_GET ||| LSMC_WITHCAS, .doCmdGet⟩
  , ⟨"add", MC_BINCMD_ADD, .doCmdUpdate⟩
  , ⟨"set", MC_BINCMD_SET, .doCmdUpdate⟩
  , ⟨"replace", MC_BINCMD_REPLACE, .doCmdUpdate⟩
  , ⟨"append", MC_BINCMD_APPEND, .doCmdUpdate⟩
  , ⟨"prepend", MC_BINCMD_PREPEND, .doCmdUpdate⟩
  , ⟨"cas", MC_BINCMD_REPLACE ||| LSMC_WITHCAS, .doCmdUpdate⟩
  , ⟨"incr", MC_BINCMD_INCREMENT, .doCmdArithmetic⟩
  , ⟨"decr", MC_BINCMD_DECREMENT, .doCmdArithmetic⟩
  , ⟨"delete", MC_BINCMD_DELETE, .doCmdDelete⟩
  , ⟨"touch", MC_BINCMD_TOUCH, .doCmdTouch⟩
  , ⟨"stats", MC_BINCMD_STAT, .doCmdStats⟩
  , ⟨"flush_all", 0, .doCmdFlush⟩
  , ⟨"version", MC_BINCMD_VERSION, .doCmdVersion⟩
  , ⟨"quit", MC_BINCMD_QUIT, .doCmdQuit⟩
  , ⟨"shutdown", 0, .notImplemented⟩
  , ⟨"verbosity", MC_BINCMD_VERBOSITY, .doCmdVerbosity⟩
  , ⟨"clear", 0, .doCmdClear⟩ ]

def matchCmd (pCmd : List UInt8) (iPossible iOffset : Nat) : Option LsMcCmdFunc :=
  match s_LsMcCmdFuncs[iPossible]? with
  | none => none
  | some p =>
    if pCmd.length = p.cmd.length ∧ pCmd.drop iOffset = (bytes p.cmd).drop iOffset then some p
    else none

def getCmdFunction (pCmd : List UInt8) : Option LsMcCmdFunc :=
  let c := fun i => Char.ofNat (byteAt pCmd i).toNat
  if pCmd.length < 3 then none
  else match c 0 with
    | 'b' => matchCmd pCmd 4 1
    | 'f' => matchCmd pCmd 17 1
    | 'i' => matchCmd pCmd 12 1
    | 'q' => matchCmd pCmd 19 1
    | 'r' => matchCmd pCmd 8 1
    | 'a' => match c 1 with
      | 'd' => matchCmd pCmd 6 2
      | 'p' => matchCmd pCmd 9 2
      | _ => none
    | 'c' => match c 1 with
      | 'a' => matchCmd pCmd 11 2
      | 'l' => matchCmd pCmd 22 2
      | _ => none
    | 'd' =>
      if c 1 ≠ 'e' then none
      else match c 2 with
        | 'c' => matchCmd pCmd 13 3
        | 'l' => matchCmd pCmd 14 3
        | _ => none
    | 'p' =>
      if c 1 ≠ 'r' then none
      else match c 2 with
        | 'i' => matchCmd pCmd 2 3
        | 'e' => matchCmd pCmd 10 3
        | _ => none
    | 's' => match c 1 with
      | 'e' => matchCmd pCmd 7 2
      | 't' => matchCmd pCmd 16 2
      | 'h' => matchCmd pCmd 20 2
      | _ => none
    | 'v' =>
      if pCmd.length < 7 ∨ (pCmd.drop 1).take 2 ≠ bytes "er" then none
      else match c 3 with
        | 's' => matchCmd pCmd 18 4
        | 'b' => matchCmd pCmd 21 4
        | _ => none
    | 't' =>
      if c 1 = 'o' then matchCmd pCmd 15 2
      else if pCmd.length ≠ 5 ∨ (pCmd.drop 1).take 3 ≠ bytes "est" then none
      else match c 4 with
        | '1' => s_LsMcCmdFuncs[0]?
        | '2' => s_LsMcCmdFuncs[1]?
        | _ => none
    | 'g' =>
      if (pCmd.drop 1).take 2 = bytes "et" then
        if pCmd.length = 3 then s_LsMcCmdFuncs[3]?
        else if pCmd.length = 4 ∧ c 3 = 's' then s_LsMcCmdFuncs[5]?
        else none
      else none
    | _ => none

end Lsmcd

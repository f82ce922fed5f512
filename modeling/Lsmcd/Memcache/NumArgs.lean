import Lsmcd.Memcache.Number
import Lsmcd.Memcache.Sasl
import Lsmcd.Memcache.TextStore

/-!
The numbers in the command lines of the text protocol.
-/

namespace Lsmcd

section Tokens

variable {buf : List UInt8}

theorem byteAt_eq_head (buf : List UInt8) (n : Nat) : byteAt buf n = ((buf.drop n).head?).getD 0 := by
  rw [List.head?_drop]
  rfl

theorem skipSpaces_stops (n p : Nat)
    : skipSpaces.go buf n p = p + n ∨ byteAt buf (skipSpaces.go buf n p) ≠ SP := by
  induction n generalizing p with
  | zero => exact .inl rfl
  | succ n ih =>
    rw [skipSpaces.go]
    split
    . rcases ih (p + 1) with h | h
      . exact .inl (by omega)
      . exact .inr h
    . exact .inr ‹_›

theorem advToken_cases (pStr pStrEnd : Nat)
    : (advToken buf pStr pStrEnd).2.len = 0 ∧ (advToken buf pStr pStrEnd).1 = pStrEnd ∨
      (advToken buf pStr pStrEnd).2.len ≠ 0 ∧
        ((advToken buf pStr pStrEnd).2.ptr + (advToken buf pStr pStrEnd).2.len = pStrEnd ∨
          byteAt buf ((advToken buf pStr pStrEnd).2.ptr + (advToken buf pStr pStrEnd).2.len) = SP) := by
  unfold advToken
  dsimp only
  split
  . exact .inl ⟨rfl, rfl⟩
  . rename_i hlt
    right
    have hfirst : byteAt buf (skipSpaces buf pStr pStrEnd) ≠ SP := by
      rcases @skipSpaces_stops buf (pStrEnd - pStr) pStr with h | h
      . have hle : pStrEnd ≤ skipSpaces buf pStr pStrEnd := by
          unfold skipSpaces
          omega
        exact absurd hle hlt
      . exact h
    cases hnext : memchr buf SP (skipSpaces buf pStr pStrEnd) pStrEnd with
    | none =>
      dsimp only [Option.getD_none]
      exact ⟨by omega, .inl (by omega)⟩
    | some r =>
      obtain ⟨hle, -, hat⟩ := memchr_spec hnext
      have hne : skipSpaces buf pStr pStrEnd ≠ r := fun heq => hfirst (heq ▸ hat)
      dsimp only [Option.getD_some]
      refine ⟨by omega, .inr ?_⟩
      rw [Nat.add_sub_cancel' hle]
      exact hat

theorem byteAt_takeWhile {n : Nat} (h : byteAt buf n = 0 ∨ byteAt buf n = SP)
    : endOk ((buf.drop n).takeWhile (· ≠ 0)) = true := by
  rw [byteAt_eq_head] at h
  cases hd : buf.drop n with
  | nil => rfl
  | cons b bs =>
    rw [hd] at h
    rcases h with rfl | rfl
    . rfl
    . rfl

theorem cString_token {pStr pStrEnd : Nat} (hend : byteAt buf pStrEnd = 0)
    (hds : Digits (tokBytes buf (advToken buf pStr pStrEnd).2))
    : ∃ rest, cString buf (advToken buf pStr pStrEnd).2.ptr =
        tokBytes buf (advToken buf pStr pStrEnd).2 ++ rest ∧ endOk rest = true := by
  generalize ht : (advToken buf pStr pStrEnd).2 = t at hds
  refine ⟨(buf.drop (t.ptr + t.len)).takeWhile (· ≠ 0), ?_, ?_⟩
  . have hne : ∀ d ∈ tokBytes buf t, decide (d ≠ 0) = true := by
      intro d hd
      have hr := isdigit_range (hds.2 d hd)
      refine decide_eq_true ?_
      rintro rfl
      exact absurd hr.1 (by decide)
    have hsplit : buf.drop t.ptr = tokBytes buf t ++ buf.drop (t.ptr + t.len) := by
      unfold tokBytes
      rw [← List.drop_drop, List.take_append_drop]
    unfold cString
    rw [hsplit, List.takeWhile_append_of_pos hne]
  . rcases @advToken_cases buf pStr pStrEnd with ⟨hz, -⟩ | ⟨-, hat⟩
    . refine absurd ?_ hds.1
      unfold tokBytes
      rw [← ht, hz]
      rfl
    . rw [ht] at hat
      rcases hat with hat | hat
      . rw [hat]
        exact byteAt_takeWhile (.inl hend)
      . exact byteAt_takeWhile (.inr hat)

theorem numText_digits {ds rest : List UInt8} (hds : Digits ds) (hrest : endOk rest = true)
    : NumText (ds ++ rest) [] [] ds rest where
  parts := rfl
  blanks := fun _ h => by cases h
  sign := .inl rfl
  digits := hds
  stop := by
    intro b hb
    cases rest with
    | nil => cases hb
    | cons c cs =>
      obtain rfl : c = b := by simpa using hb
      by_contra hdigit
      rw [endOk, isspace_of_isdigit (by simpa using hdigit)] at hrest
      cases hrest

theorem toInt32_of_lt {n : Nat} (h : n < 2 ^ 31) : toInt32 n = n := by
  unfold toInt32
  rw [if_pos (by omega)]
  omega

end Tokens

inductive NumKind
  | myStrtol
  | myStrtoul
  | myStrtoull

def NumKind.conv : NumKind → List UInt8 → Option Int
  | .myStrtol, str => Lsmcd.myStrtol str
  | .myStrtoul, str => (Lsmcd.myStrtoul str).map Int.ofNat
  | .myStrtoull, str => (Lsmcd.myStrtoull str).map Int.ofNat

def NumKind.bound : NumKind → Nat
  | .myStrtol => 2 ^ 31
  | .myStrtoul => 2 ^ 32
  | .myStrtoull => 2 ^ 64

theorem conv_digits (k : NumKind) {ds rest : List UInt8} (hds : Digits ds) (hrest : endOk rest = true)
    (hlt : digitsVal ds < k.bound) : k.conv (ds ++ rest) = some (digitsVal ds : Int) := by
  have hnum := strtoNum_complete (numText_digits hds hrest)
  have hull : digitsVal ds < 2 ^ 64 → myStrtoull (ds ++ rest) = some (digitsVal ds) := by
    intro h64
    exact myStrtoull_iff.mpr ⟨[], [], ds, rest, numText_digits hds hrest, h64, hrest, rfl⟩
  cases k with
  | myStrtol =>
    simp only [NumKind.bound] at hlt
    unfold NumKind.conv myStrtol
    dsimp only
    rw [hnum]
    simp only [List.nil_eq, reduceCtorEq, decide_false, Bool.false_eq_true, if_false, hrest, Bool.not_true, or_false]
    rw [if_neg (by omega)]
    congr 1
    unfold toInt32
    split <;> omega
  | myStrtoul =>
    simp only [NumKind.bound] at hlt
    unfold NumKind.conv myStrtoul
    dsimp only
    rw [hull (by omega), Option.map_some, Option.map_some, Nat.mod_eq_of_lt hlt]
    rfl
  | myStrtoull =>
    unfold NumKind.conv
    dsimp only
    rw [hull hlt]
    rfl

structure NumArg where
  tok : Token
  kind : NumKind
  bound : Nat
  le : bound ≤ kind.bound

namespace NumArg

structure Writes (i : McInput) (a : NumArg) (n : Nat) : Prop where
  digits : Digits (i.tok a.tok)
  val : digitsVal (i.tok a.tok) = n
  fits : n < a.bound

def Refused (i : McInput) (a : NumArg) : Prop :=
  a.tok.len = 0 ∨ a.kind.conv (i.str a.tok) = none

end NumArg

inductive NumCmd
  | update (arg : Nat)
  | arithmetic (arg : Nat)
  | touch
  | verbosity
  | clear

def LsMcCmdFunc.numCmd (p : LsMcCmdFunc) : Option NumCmd :=
  match p.func with
  | .doCmdUpdate => some (.update p.arg)
  | .doCmdArithmetic => some (.arithmetic p.arg)
  | .doCmdTouch => some .touch
  | .doCmdVerbosity => some .verbosity
  | .doCmdClear => some .clear
  | _ => none

namespace NumCmd

/--
The arguments of a command. The verbosity level is stored in a byte. `m_iCnt`, the number of slices, is
an `int`.
-/
def args (i : McInput) (cnt : Nat) : NumCmd → List NumArg
  | .update arg =>
    let pFlags := i.adv (i.adv i.pStr).1
    let pExptime := i.adv pFlags.1
    let pLength := i.adv pExptime.1
    [⟨pFlags.2, .myStrtoul, 2 ^ 32, Nat.le_refl _⟩, ⟨pExptime.2, .myStrtoul, 2 ^ 32, Nat.le_refl _⟩,
      ⟨pLength.2, .myStrtol, 2 ^ 31, Nat.le_refl _⟩] ++
      if arg &&& LSMC_WITHCAS ≠ 0 then [⟨(i.adv pLength.1).2, .myStrtoull, 2 ^ 64, Nat.le_refl _⟩] else []
  | .arithmetic _ => [⟨(i.adv (i.adv i.pStr).1).2, .myStrtoull, 2 ^ 64, Nat.le_refl _⟩]
  | .touch => [⟨(i.adv (i.adv i.pStr).1).2, .myStrtoul, 2 ^ 32, Nat.le_refl _⟩]
  | .verbosity => [⟨(i.adv i.pStr).2, .myStrtoul, 2 ^ 8, Nat.pow_le_pow_right (by decide) (by decide)⟩]
  | .clear =>
    [⟨(i.adv i.pStr).2, .myStrtoul, min cnt (2 ^ 31),
      Nat.le_trans (Nat.min_le_right ..) (Nat.pow_le_pow_right (by decide) (by decide))⟩]

end NumCmd

namespace NumCmd

def Refused (i : McInput) (cnt : Nat) (c : NumCmd) : Prop :=
  (∃ a ∈ c.args i cnt, a.Refused i) ∨
    (c = .clear ∧ Digits (i.tok (i.adv i.pStr).2) ∧ cnt ≤ digitsVal (i.tok (i.adv i.pStr).2) ∧
      digitsVal (i.tok (i.adv i.pStr).2) < 2 ^ 31)

def errors : NumCmd → List (List UInt8)
  | .update _ => [badCmdLineFmt]
  | .arithmetic _ => [badCmdLineFmt, bytes "CLIENT_ERROR invalid numeric delta argument\r\n"]
  | .touch => [badCmdLineFmt, bytes "CLIENT_ERROR invalid exptime argument\r\n"]
  | .verbosity => [badCmdLineFmt, bytes "CLIENT_ERROR invalid verbosity argument\r\n"]
  | .clear => []

/--
Whether the client wants an answer. A storage command looks at the end of its line first.
-/
def asked (i : McInput) (v : OutView) : NumCmd → OutView
  | .update arg => { v with noreply := (McCall.updateArgs i arg).noreply }
  | _ => v

def Answers (i : McInput) (v w : OutView) (c : NumCmd) : Prop :=
  (∃ str ∈ c.errors, w = (c.asked i v).text str) ∨ (c = .clear ∧ w = v)

end NumCmd

namespace McCall

def updateOn (s : McCall) (i : McInput) (arg flags exptime length cas : Nat) : McCall × Int :=
  let a := updateArgs i arg
  let key := i.tok a.key
  let r := (s.setKey key).canProcessNow key
  if !r.2 then (r.1, -1)
  else
    let s := r.1.setNoreply a.noreply
    if KEY_MAXLEN < a.key.len ∨ INT_MAX - 2 < length then (s.respond badCmdLineFmt, 0)
    else if length ≠ 0 ∧ i.iLen < length + 2 then (s, -1)
    else if length ≠ 0 ∧ (byteAt i.buf (i.pNxt + length) ≠ CR ∨
        byteAt i.buf (i.pNxt + length + 1) ≠ LF) then (s, 0)
    else if !s.getHash.isTidMaster then s.fwdUpdate i length
    else s.storeCmd i arg flags exptime length cas

def arithmeticOn (s : McCall) (i : McInput) (arg delta : Nat) : McCall × Int :=
  let pKey := i.adv i.pStr
  let key := i.tok pKey.2
  let r := (s.setKey key).canProcessNow key
  if !r.2 then (r.1, -1)
  else if KEY_MAXLEN < pKey.2.len then (r.1.respond badCmdLineFmt, 0)
  else
    let q := r.1.fwdToRemote r.1.conn.m_pSlice i.pNxt
    if q.2 then (q.1, 0)
    else ((q.1.setNoreply (i.isNoreply (i.adv (i.adv pKey.1).1).2)).arithmeticCmd arg delta, 0)

def touchOn (s : McCall) (i : McInput) (exptime : Nat) : McCall × Int :=
  let pKey := i.adv i.pStr
  let key := i.tok pKey.2
  let s := s.setKey key
  if KEY_MAXLEN < pKey.2.len then (s.respond badCmdLineFmt, 0)
  else
    let r := s.canProcessNow key
    if !r.2 then (r.1, -1)
    else
      let s := r.1.setNoreply (i.isNoreply (i.adv (i.adv pKey.1).1).2)
      let q := s.fwdToRemote s.conn.m_pSlice i.pNxt
      if q.2 then (q.1, 0) else (q.1.touchElem exptime, 0)

def verbosityOn (s : McCall) (i : McInput) (level : Nat) : McCall × Int :=
  let t := i.adv (i.adv i.pStr).1
  let s := s.setNoreply (i.isNoreply t.2)
  if !i.chkEnd t.1 then (s.respond badCmdLineFmt, 0)
  else
    let s := if s.conn.m_iHdrOff ≠ 0 then
        s.setHdrAt s.conn.m_pSlice fun h => { h with x_verbose := UInt8.ofNat level }
      else s
    (s.respond (bytes "OK\r\n"), 0)

variable {s : McCall} {i : McInput}

theorem str_written (hend : byteAt i.buf i.pStrEnd = 0) {pStr n : Nat} {a : NumArg} (ha : a.tok = (i.adv pStr).2)
    (h : a.Writes i n) : a.kind.conv (i.str a.tok) = some (n : Int) := by
  have hds := h.digits
  rw [ha] at hds
  obtain ⟨rest, hstr, hrest⟩ := cString_token hend hds
  have hfits : digitsVal (i.tok a.tok) < a.kind.bound := by
    rw [h.val]
    exact Nat.lt_of_lt_of_le h.fits a.le
  have hconv := conv_digits a.kind h.digits hrest hfits
  have hsame : i.str a.tok = i.tok a.tok ++ rest := by
    rw [ha]
    exact hstr
  rw [hsame, hconv, h.val]

theorem len_written {n : Nat} {a : NumArg} (h : a.Writes i n) : a.tok.len ≠ 0 := by
  intro hz
  refine h.digits.1 ?_
  unfold McInput.tok tokBytes
  rw [hz]
  rfl

theorem myStrtoull_of_conv {str : List UInt8} {n : Nat} (h : NumKind.myStrtoull.conv str = some (n : Int))
    : myStrtoull str = some n := by
  unfold NumKind.conv at h
  obtain ⟨m, hm, hmn⟩ := Option.map_eq_some_iff.mp h
  rw [hm, Int.ofNat.inj hmn]

theorem myStrtoul_of_conv {str : List UInt8} {n : Nat} (h : NumKind.myStrtoul.conv str = some (n : Int))
    : myStrtoul str = some n := by
  unfold NumKind.conv at h
  obtain ⟨m, hm, hmn⟩ := Option.map_eq_some_iff.mp h
  rw [hm, Int.ofNat.inj hmn]

def numRun (s : McCall) (i : McInput) : NumCmd → McCall × Int
  | .update arg => s.doCmdUpdate i arg
  | .arithmetic arg => s.doCmdArithmetic i arg
  | .touch => s.doCmdTouch i
  | .verbosity => s.doCmdVerbosity i
  | .clear => s.doCmdClear i

theorem runCmd_numCmd {p : LsMcCmdFunc} {c : NumCmd} (h : p.numCmd = some c)
    : s.runCmd i p = s.numRun i c := by
  unfold LsMcCmdFunc.numCmd at h
  unfold runCmd
  split at h <;> cases h <;> rename_i hfunc <;> rw [hfunc] <;> rfl

def numOn (s : McCall) (i : McInput) (ns : List Nat) : NumCmd → McCall × Int
  | .update arg => s.updateOn i arg (ns.getD 0 0) (ns.getD 1 0) (ns.getD 2 0) (ns.getD 3 0)
  | .arithmetic arg => s.arithmeticOn i arg (ns.getD 0 0)
  | .touch => s.touchOn i (ns.getD 0 0)
  | .verbosity => s.verbosityOn i (ns.getD 0 0)
  | .clear => ((multiFlushFunc false s (ns.getD 0 0)).1, 0)

theorem updateArgs_written (hend : byteAt i.buf i.pStrEnd = 0) {arg cnt : Nat} {ns : List Nat}
    (h : List.Forall₂ (NumArg.Writes i) ((NumCmd.update arg).args i cnt) ns)
    : (updateArgs i arg).flags = ns.getD 0 0 ∧ (updateArgs i arg).exptime = ns.getD 1 0 ∧
      (updateArgs i arg).length = ns.getD 2 0 ∧ (updateArgs i arg).cas = ns.getD 3 0 ∧
      (updateArgs i arg).badcmdline = decide (KEY_MAXLEN < (updateArgs i arg).key.len) := by
  unfold NumCmd.args at h
  cases h with
  | cons hflags h =>
  cases h with
  | cons hexptime h =>
  cases h with
  | cons hlength h =>
  have hf := myStrtoul_of_conv (str_written hend rfl hflags)
  have he := myStrtoul_of_conv (str_written hend rfl hexptime)
  have hl : myStrtol _ = _ := str_written hend rfl hlength
  have hlen := len_written hlength
  by_cases hcas : arg &&& LSMC_WITHCAS ≠ 0
  . rw [if_pos hcas] at h
    cases h with
    | cons hunique h =>
    cases h
    have hu := myStrtoull_of_conv (str_written hend rfl hunique)
    have hulen := len_written hunique
    unfold updateArgs
    simp only [hf, he, hl, hu]
    simp [hlen, hulen, hcas]
  . rw [if_neg hcas] at h
    cases h
    unfold updateArgs
    simp only [hf, he, hl]
    simp [hlen, hcas]

theorem numRun_written (hend : byteAt i.buf i.pStrEnd = 0) {c : NumCmd} {ns : List Nat}
    (h : List.Forall₂ (NumArg.Writes i) (c.args i s.mc.m_pHashMulti.m_iCnt) ns)
    : s.numRun i c = s.numOn i ns c := by
  cases c with
  | update arg =>
    obtain ⟨hf, he, hl, hu, hbad⟩ := updateArgs_written hend h
    show s.doCmdUpdate i arg = s.updateOn i arg _ _ _ _
    unfold doCmdUpdate updateOn
    dsimp only
    rw [hf, he, hl, hu, hbad]
    simp only [decide_eq_true_eq, Int.toNat_natCast]
    congr 1
    have hneg : ¬ ((ns.getD 2 0 : Nat) : Int) < 0 := by omega
    simp only [hneg, false_or]
  | arithmetic arg =>
    unfold NumCmd.args at h
    cases h with
    | cons hdelta h =>
    cases h
    have hd := myStrtoull_of_conv (str_written hend rfl hdelta)
    have hlen := len_written hdelta
    show s.doCmdArithmetic i arg = s.arithmeticOn i arg _
    unfold doCmdArithmetic arithmeticOn
    dsimp only
    rw [hd]
    simp only [Nat.le_zero, hlen, false_or]
    rfl
  | touch =>
    unfold NumCmd.args at h
    cases h with
    | cons hexptime h =>
    cases h
    have hd := myStrtoul_of_conv (str_written hend rfl hexptime)
    have hlen := len_written hexptime
    show s.doCmdTouch i = s.touchOn i _
    unfold doCmdTouch touchOn
    dsimp only
    rw [hd]
    simp only [Nat.le_zero, hlen, false_or]
    rfl
  | verbosity =>
    unfold NumCmd.args at h
    cases h with
    | cons hlevel h =>
    cases h
    have hd := myStrtoul_of_conv (str_written hend rfl hlevel)
    have hlen := len_written hlevel
    show s.doCmdVerbosity i = s.verbosityOn i _
    unfold doCmdVerbosity verbosityOn
    dsimp only
    rw [hd]
    simp only [Nat.le_zero, hlen, if_false]
    rfl
  | clear =>
    unfold NumCmd.args at h
    cases h with
    | cons hwhich h =>
    cases h
    have hd := myStrtoul_of_conv (str_written hend rfl hwhich)
    have hlen := len_written hwhich
    obtain ⟨hcnt, hint⟩ := Nat.lt_min.mp hwhich.fits
    show s.doCmdClear i = _
    unfold doCmdClear
    dsimp only
    rw [hd]
    simp only [Nat.le_zero, hlen, if_false]
    unfold clearSlice
    rw [toInt32_of_lt hint, if_neg (by omega), if_neg (by omega)]
    rfl

@[simp]
theorem store_canProcessNow (key : List UInt8) : (s.canProcessNow key).1.store = s.store := by
  unfold canProcessNow
  dsimp only
  split <;> simp

@[simp]
theorem outv_canProcessNow (key : List UInt8) : (s.canProcessNow key).1.outv = s.outv := by
  unfold canProcessNow
  dsimp only
  split <;> simp

theorem updateArgs_refused {arg cnt : Nat} {a : NumArg} (ha : a ∈ (NumCmd.update arg).args i cnt)
    (h : a.Refused i) : (updateArgs i arg).badcmdline = true := by
  -- behind a token that is missing there are no others
  have hnext : ∀ p, (i.adv p).2.len = 0 → (i.adv (i.adv p).1).2.len = 0 := by
    intro p hz
    rcases @advToken_cases i.buf p i.pStrEnd with ⟨-, hend⟩ | ⟨hne, -⟩
    . unfold McInput.adv
      rw [hend, advToken_end (Nat.le_refl _)]
    . exact absurd hz hne
  have hul : ∀ str, NumKind.myStrtoul.conv str = none → myStrtoul str = none :=
    fun str hn => Option.map_eq_none_iff.mp hn
  unfold NumCmd.args at ha
  unfold updateArgs
  simp only [Bool.or_eq_true, Bool.and_eq_true, decide_eq_true_eq]
  rcases List.mem_append.mp ha with ha | ha
  . simp only [List.mem_cons, List.not_mem_nil, or_false] at ha
    rcases ha with rfl | rfl | rfl
    . rcases h with hz | hn
      . have hlength := hnext _ (hnext _ hz)
        simp [hlength]
      . simp [hul _ hn]
    . rcases h with hz | hn
      . have hlength := hnext _ hz
        simp [hlength]
      . simp [hul _ hn]
    . rcases h with hz | hn
      . have hlength : (i.adv (i.adv (i.adv (i.adv i.pStr).1).1).1).2.len = 0 := hz
        simp [hlength]
      . have hlength : myStrtol (i.str (i.adv (i.adv (i.adv (i.adv i.pStr).1).1).1).2) = none := hn
        simp [hlength]
  . split at ha
    . rename_i hcas
      obtain rfl := List.mem_singleton.mp ha
      rcases h with hz | hn
      . have hunique : (i.adv (i.adv (i.adv (i.adv (i.adv i.pStr).1).1).1).1).2.len = 0 := hz
        simp [hunique, hcas]
      . have hunique := Option.map_eq_none_iff.mp hn
        simp [hunique, hcas]
    . cases ha

/--
A refused command changes nothing in the store. It waits for the master or answers the error.
-/
structure Declined (s : McCall) (i : McInput) (c : NumCmd) (r : McCall × Int) : Prop where
  store : r.1.store = s.store
  answer : (r.2 = -1 ∧ r.1.outv = s.outv) ∨ (r.2 = 0 ∧ c.Answers i s.outv r.1.outv)

theorem Declined.waits {c : NumCmd} {t : McCall} (hstore : t.store = s.store) (hout : t.outv = s.outv)
    : s.Declined i c (t, -1) :=
  ⟨hstore, .inl ⟨rfl, hout⟩⟩

theorem Declined.respond {c : NumCmd} {t : McCall} {str : List UInt8} (hstore : t.store = s.store)
    (hout : t.outv = c.asked i s.outv) (hstr : str ∈ c.errors) : s.Declined i c (t.respond str, 0) := by
  refine ⟨(store_respond t str).trans hstore, .inr ⟨rfl, .inl ⟨str, hstr, ?_⟩⟩⟩
  rw [outv_respond, hout]

theorem declined_update {arg cnt : Nat} (h : (NumCmd.update arg).Refused i cnt)
    : s.Declined i (.update arg) (s.doCmdUpdate i arg) := by
  have hbad : (updateArgs i arg).badcmdline = true := by
    rcases h with ⟨a, ha, h⟩ | ⟨h, -⟩
    . exact updateArgs_refused ha h
    . cases h
  unfold doCmdUpdate
  dsimp only
  split
  . exact .waits (by simp) (by simp)
  . rw [if_pos (Or.inl hbad)]
    exact .respond (by simp) (by simp; rfl) (List.mem_singleton.mpr rfl)

theorem declined_arithmetic {arg cnt : Nat} (h : (NumCmd.arithmetic arg).Refused i cnt)
    : s.Declined i (.arithmetic arg) (s.doCmdArithmetic i arg) := by
  unfold doCmdArithmetic
  dsimp only
  split
  . exact .waits (by simp) (by simp)
  split
  . exact .respond (by simp) (by simp; rfl) (List.mem_cons_self ..)
  next hargs =>
  rw [not_or] at hargs
  rcases h with ⟨a, ha, h⟩ | ⟨h, -⟩
  . obtain rfl := List.mem_singleton.mp ha
    rcases h with hz | hn
    . exact absurd (Nat.le_of_eq hz) hargs.1
    . rw [Option.map_eq_none_iff.mp hn]
      exact .respond (by simp) (by simp; rfl) (List.mem_cons_of_mem _ (List.mem_singleton.mpr rfl))
  . cases h

theorem declined_touch {cnt : Nat} (h : NumCmd.touch.Refused i cnt)
    : s.Declined i .touch (s.doCmdTouch i) := by
  unfold doCmdTouch
  dsimp only
  split
  . exact .respond (by simp) (by simp; rfl) (List.mem_cons_self ..)
  next hargs =>
  rw [not_or] at hargs
  split
  . exact .waits (by simp) (by simp)
  rcases h with ⟨a, ha, h⟩ | ⟨h, -⟩
  . obtain rfl := List.mem_singleton.mp ha
    rcases h with hz | hn
    . exact absurd (Nat.le_of_eq hz) hargs.1
    . rw [show myStrtoul (i.str (i.adv (i.adv i.pStr).1).2) = none from Option.map_eq_none_iff.mp hn]
      exact .respond (by simp) (by simp; rfl) (List.mem_cons_of_mem _ (List.mem_singleton.mpr rfl))
  . cases h

theorem declined_verbosity {cnt : Nat} (h : NumCmd.verbosity.Refused i cnt)
    : s.Declined i .verbosity (s.doCmdVerbosity i) := by
  unfold doCmdVerbosity
  dsimp only
  split
  . exact .respond rfl rfl (List.mem_cons_self ..)
  next hargs =>
  rcases h with ⟨a, ha, h⟩ | ⟨h, -⟩
  . obtain rfl := List.mem_singleton.mp ha
    rcases h with hz | hn
    . exact absurd (Nat.le_of_eq hz) hargs
    . rw [show myStrtoul (i.str (i.adv i.pStr).2) = none from Option.map_eq_none_iff.mp hn]
      exact .respond rfl rfl (List.mem_cons_of_mem _ (List.mem_singleton.mpr rfl))
  . cases h

theorem declined_clear (hend : byteAt i.buf i.pStrEnd = 0)
    (h : NumCmd.clear.Refused i s.mc.m_pHashMulti.m_iCnt) : s.Declined i .clear (s.doCmdClear i) := by
  have hkeep : s.Declined i .clear (s, 0) := ⟨rfl, .inr ⟨rfl, .inr ⟨rfl, rfl⟩⟩⟩
  unfold doCmdClear
  dsimp only
  split
  . exact hkeep
  next hargs =>
  rcases h with ⟨a, ha, h⟩ | ⟨-, hds, hcnt, hint⟩
  . obtain rfl := List.mem_singleton.mp ha
    rcases h with hz | hn
    . exact absurd (Nat.le_of_eq hz) hargs
    . rw [show myStrtoul (i.str (i.adv i.pStr).2) = none from Option.map_eq_none_iff.mp hn]
      exact hkeep
  . have hwrites : (NumArg.mk (i.adv i.pStr).2 .myStrtoul (2 ^ 32) (Nat.le_refl _)).Writes i
        (digitsVal (i.tok (i.adv i.pStr).2)) := ⟨hds, rfl, Nat.lt_trans hint (show 2 ^ 31 < 2 ^ 32 by decide)⟩
    rw [myStrtoul_of_conv (str_written hend rfl hwrites)]
    unfold clearSlice
    dsimp only
    rw [toInt32_of_lt hint, if_pos (by omega)]
    exact hkeep

theorem declined_numRun {c : NumCmd} (hend : byteAt i.buf i.pStrEnd = 0)
    (h : c.Refused i s.mc.m_pHashMulti.m_iCnt) : s.Declined i c (s.numRun i c) := by
  cases c with
  | update arg => exact declined_update h
  | arithmetic arg => exact declined_arithmetic h
  | touch => exact declined_touch h
  | verbosity => exact declined_verbosity h
  | clear => exact declined_clear hend h

/--
The first line of the buffer ends in CR LF, the line feed at `endp`, and is the command `p`. Its handler
gets `i`.
-/
structure CmdLine (s : McCall) (endp : Nat) (i : McInput) (p : LsMcCmdFunc) : Prop where
  line : memchr s.conn.m_bufIncoming LF 0 s.conn.m_bufIncoming.length = some endp
  pos : 0 < endp
  cr : byteAt s.conn.m_bufIncoming (endp - 1) = CR
  input : i = ⟨cutLine s.conn.m_bufIncoming endp,
    (advToken (cutLine s.conn.m_bufIncoming endp) 0 (endp - 1)).1, endp - 1, endp + 1⟩
  cmd : getCmdFunction (tokBytes i.buf (advToken i.buf 0 (endp - 1)).2) = some p

theorem byteAt_cutLine {buf : List UInt8} {endp : Nat} (hpos : 0 < endp) (hlt : endp < buf.length)
    (hcr : byteAt buf (endp - 1) = CR) : byteAt (cutLine buf endp) (endp - 1) = 0 := by
  have hset : byteAt (buf.set endp 0) (endp - 1) = CR := by
    rw [← hcr]
    unfold byteAt
    rw [List.getD_eq_getElem?_getD, List.getD_eq_getElem?_getD, List.getElem?_set_ne (by omega)]
  unfold cutLine
  dsimp only
  rw [if_pos ⟨hpos, hset⟩]
  unfold byteAt
  rw [List.getD_eq_getElem?_getD, List.getElem?_set_self (by rw [List.length_set]; omega)]
  rfl

theorem CmdLine.end_zero {endp : Nat} {p : LsMcCmdFunc} (h : s.CmdLine endp i p)
    : byteAt i.buf i.pStrEnd = 0 := by
  obtain ⟨-, hlt, -⟩ := memchr_spec h.line
  rw [h.input]
  exact byteAt_cutLine h.pos (by omega) h.cr

theorem advToken_le {buf : List UInt8} {pStrEnd : Nat} (hend : byteAt buf pStrEnd = 0) (pStr : Nat)
    : (advToken buf pStr pStrEnd).1 ≤ pStrEnd := by
  unfold advToken
  dsimp only
  split
  . exact Nat.le_refl _
  . cases hnext : memchr buf SP (skipSpaces buf pStr pStrEnd) pStrEnd with
    | none =>
      rw [Option.getD_none, if_neg (by rw [hend]; decide)]
    | some r =>
      obtain ⟨-, hlt, -⟩ := memchr_spec hnext
      rw [Option.getD_some]
      dsimp only
      split <;> omega

theorem processCmd_cmdLine {endp : Nat} {p : LsMcCmdFunc} (h : s.CmdLine endp i p)
    (hsasl : ¬ s.TextRefused) : s.processCmd = finish endp ((s.handed endp i).runCmd i p) := by
  have hinput := h.input
  have hcmd := h.cmd
  have hzero := h.end_zero
  obtain ⟨hlen, -⟩ := getCmdFunction_some hcmd
  have htok : (advToken (cutLine s.conn.m_bufIncoming endp) 0 (endp - 1)).2.len ≠ 0 := by
    intro hz
    rw [hinput] at hlen
    unfold tokBytes at hlen
    rw [hz] at hlen
    simp at hlen
  have hstart : ¬ endp - 1 < (advToken (cutLine s.conn.m_bufIncoming endp) 0 (endp - 1)).1 := by
    rw [hinput] at hzero
    exact Nat.not_lt.mpr (advToken_le hzero 0)
  rw [hinput] at hcmd
  unfold processCmd
  rw [textRefused_eq_false hsasl, if_neg Bool.false_ne_true]
  dsimp only
  rw [h.line]
  unfold processLine
  dsimp only [setBuf, setStrt]
  rw [if_neg htok, hcmd]
  dsimp only
  rw [if_neg hstart, ← hinput]
  rfl

structure LineDeclined (s : McCall) (endp : Nat) (i : McInput) (c : NumCmd) : Prop where
  store : s.processCmd.1.store = s.store
  answer : (s.processCmd.2 = -1 ∧ s.processCmd.1.outv = s.outv) ∨
    (s.processCmd.2 = (endp + 1 : Nat) ∧ c.Answers i s.outv s.processCmd.1.outv)

def sampleLine (buf : List UInt8) : McCall :=
  let multi := sampleMulti (sampleCounterHash.get sampleCounterHash_isSome) sampleParms
  (((McWorld.start multi sampleParms false false sampleEnv).step .accept).call 0).setBuf buf

def sampleNum : McCall :=
  sampleLine (bytes "set a 7 0 1\r\nx\r\n")

def sampleNumInput : McInput :=
  ⟨cutLine sampleNum.conn.m_bufIncoming 12,
    (advToken (cutLine sampleNum.conn.m_bufIncoming 12) 0 11).1, 11, 13⟩

end McCall

end Lsmcd

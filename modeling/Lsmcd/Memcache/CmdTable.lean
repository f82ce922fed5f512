import Lsmcd.Memcache.TextStore

/-!
The decision tree of `getCmdFunction` and the table of commands that it stands for.
-/

namespace Lsmcd

section Read

variable {pCmd : List UInt8}

def readByte (pCmd : List UInt8) (i : Nat) : Option Char :=
  (pCmd[i]?).map fun b => Char.ofNat b.toNat

def readBytes (pCmd : List UInt8) (off n : Nat) : Option (List UInt8) :=
  if off + n ≤ pCmd.length then some ((pCmd.drop off).take n) else none

def matchCmdRead (pCmd : List UInt8) (iPossible iOffset : Nat) : Option (Option LsMcCmdFunc) :=
  match s_LsMcCmdFuncs[iPossible]? with
  | none => some none
  | some p =>
    if pCmd.length = p.cmd.length then
      (readBytes pCmd iOffset (pCmd.length - iOffset)).map fun bs =>
        if bs = (bytes p.cmd).drop iOffset then some p else none
    else some none

/--
`getCmdFunction` on a buffer of `len` bytes. `none` when it reads another byte.
-/
def getCmdFunctionRead (pCmd : List UInt8) : Option (Option LsMcCmdFunc) :=
  let c := readByte pCmd
  if pCmd.length < 3 then some none
  else (c 0).bind fun
    | 'b' => matchCmdRead pCmd 4 1
    | 'f' => matchCmdRead pCmd 17 1
    | 'i' => matchCmdRead pCmd 12 1
    | 'q' => matchCmdRead pCmd 19 1
    | 'r' => matchCmdRead pCmd 8 1
    | 'a' => (c 1).bind fun
      | 'd' => matchCmdRead pCmd 6 2
      | 'p' => matchCmdRead pCmd 9 2
      | _ => some none
    | 'c' => (c 1).bind fun
      | 'a' => matchCmdRead pCmd 11 2
      | 'l' => matchCmdRead pCmd 22 2
      | _ => some none
    | 'd' => (c 1).bind fun c1 =>
      if c1 ≠ 'e' then some none
      else (c 2).bind fun
        | 'c' => matchCmdRead pCmd 13 3
        | 'l' => matchCmdRead pCmd 14 3
        | _ => some none
    | 'p' => (c 1).bind fun c1 =>
      if c1 ≠ 'r' then some none
      else (c 2).bind fun
        | 'i' => matchCmdRead pCmd 2 3
        | 'e' => matchCmdRead pCmd 10 3
        | _ => some none
    | 's' => (c 1).bind fun
      | 'e' => matchCmdRead pCmd 7 2
      | 't' => matchCmdRead pCmd 16 2
      | 'h' => matchCmdRead pCmd 20 2
      | _ => some none
    | 'v' =>
      if pCmd.length < 7 then some none
      else (readBytes pCmd 1 2).bind fun er =>
        if er ≠ bytes "er" then some none
        else (c 3).bind fun
          | 's' => matchCmdRead pCmd 18 4
          | 'b' => matchCmdRead pCmd 21 4
          | _ => some none
    | 't' => (c 1).bind fun c1 =>
      if c1 = 'o' then matchCmdRead pCmd 15 2
      else if pCmd.length ≠ 5 then some none
      else (readBytes pCmd 1 3).bind fun est =>
        if est ≠ bytes "est" then some none
        else (c 4).bind fun
          | '1' => some s_LsMcCmdFuncs[0]?
          | '2' => some s_LsMcCmdFuncs[1]?
          | _ => some none
    | 'g' => (readBytes pCmd 1 2).bind fun et =>
      if et = bytes "et" then
        if pCmd.length = 3 then some s_LsMcCmdFuncs[3]?
        else if pCmd.length = 4 then (c 3).bind fun
          | 's' => some s_LsMcCmdFuncs[5]?
          | _ => some none
        else some none
      else some none
    | _ => some none

theorem readByte_eq {i : Nat} (h : i < pCmd.length)
    : readByte pCmd i = some (Char.ofNat (byteAt pCmd i).toNat) := by
  simp [readByte, byteAt, h]

theorem readBytes_eq {off n : Nat} (h : off + n ≤ pCmd.length)
    : readBytes pCmd off n = some ((pCmd.drop off).take n) :=
  if_pos h

theorem matchCmdRead_eq {iPossible iOffset : Nat} (h : iOffset ≤ pCmd.length)
    : matchCmdRead pCmd iPossible iOffset = some (matchCmd pCmd iPossible iOffset) := by
  unfold matchCmdRead matchCmd
  cases s_LsMcCmdFuncs[iPossible]? with
  | none => rfl
  | some p =>
    dsimp only
    by_cases hlen : pCmd.length = p.cmd.length
    . rw [if_pos hlen, readBytes_eq (by omega), List.take_of_length_le (by simp), Option.map_some]
      congr 1
      by_cases htail : pCmd.drop iOffset = (bytes p.cmd).drop iOffset
      . rw [if_pos htail, if_pos ⟨hlen, htail⟩]
      . rw [if_neg htail, if_neg fun hc => htail hc.2]
    . rw [if_neg hlen, if_neg fun hc => hlen hc.1]

/--
The letters that commands start with.
-/
def cmdLetters : List Char :=
  ['b', 'f', 'i', 'q', 'r', 'a', 'c', 'd', 'p', 's', 'v', 't', 'g']

theorem getCmdFunction_other (h : Char.ofNat (byteAt pCmd 0).toNat ∉ cmdLetters) : getCmdFunction pCmd = none := by
  unfold cmdLetters at h
  unfold getCmdFunction
  dsimp only
  split
  . rfl
  . split <;> simp_all

theorem getCmdFunctionRead_other (hlen : ¬ pCmd.length < 3) (h : Char.ofNat (byteAt pCmd 0).toNat ∉ cmdLetters)
    : getCmdFunctionRead pCmd = some none := by
  unfold cmdLetters at h
  unfold getCmdFunctionRead
  dsimp only
  rw [if_neg hlen, readByte_eq (show 0 < pCmd.length by omega), Option.bind_some]
  split <;> simp_all

theorem getCmdFunctionRead_eq (pCmd : List UInt8)
    : getCmdFunctionRead pCmd = some (getCmdFunction pCmd) := by
  by_cases hlen : pCmd.length < 3
  . rw [getCmdFunctionRead, getCmdFunction, if_pos hlen, if_pos hlen]
  by_cases hother : Char.ofNat (byteAt pCmd 0).toNat ∉ cmdLetters
  . rw [getCmdFunction_other hother, getCmdFunctionRead_other hlen hother]
  unfold getCmdFunctionRead getCmdFunction
  dsimp only
  rw [if_neg hlen, if_neg hlen]
  have h1 : 1 ≤ pCmd.length := by omega
  have h2 : 2 ≤ pCmd.length := by omega
  have h3 : 3 ≤ pCmd.length := by omega
  rw [readByte_eq (show 0 < pCmd.length by omega), Option.bind_some]
  simp only [readByte_eq (show 1 < pCmd.length by omega), readByte_eq (show 2 < pCmd.length by omega),
    readBytes_eq (show 1 + 2 ≤ pCmd.length by omega), Option.bind_some, matchCmdRead_eq h1, matchCmdRead_eq h2,
    matchCmdRead_eq h3]
  by_cases hv : Char.ofNat (byteAt pCmd 0).toNat = 'v'
  . simp only [hv]
    by_cases h7 : pCmd.length < 7
    . rw [if_pos h7, if_pos (.inl h7)]
    rw [if_neg h7, readByte_eq (show 3 < pCmd.length by omega), matchCmdRead_eq (show 4 ≤ pCmd.length by omega),
      matchCmdRead_eq (show 4 ≤ pCmd.length by omega)]
    by_cases her : (pCmd.drop 1).take 2 = bytes "er"
    . rw [if_neg (not_not.mpr her), if_neg fun hc => hc.elim h7 fun hne => hne her, Option.bind_some]
      split <;> simp_all
    . rw [if_pos her, if_pos (.inr her)]
  by_cases ht : Char.ofNat (byteAt pCmd 0).toNat = 't'
  . simp only [ht]
    by_cases ho : Char.ofNat (byteAt pCmd 1).toNat = 'o'
    . rw [if_pos ho, if_pos ho]
    rw [if_neg ho, if_neg ho]
    by_cases h5 : pCmd.length = 5
    . rw [if_neg (not_not.mpr h5), readBytes_eq (by omega), Option.bind_some, readByte_eq (by omega), Option.bind_some]
      by_cases hest : (pCmd.drop 1).take 3 = bytes "est"
      . rw [if_neg (not_not.mpr hest), if_neg fun hc => hc.elim (fun hne => hne h5) fun hne => hne hest]
        split <;> simp_all
      . rw [if_pos hest, if_pos (.inr hest)]
    . rw [if_pos h5, if_pos (.inl h5)]
  by_cases hg : Char.ofNat (byteAt pCmd 0).toNat = 'g'
  . simp only [hg]
    by_cases het : (pCmd.drop 1).take 2 = bytes "et"
    . rw [if_pos het, if_pos het]
      by_cases h3' : pCmd.length = 3
      . rw [if_pos h3', if_pos h3']
      rw [if_neg h3', if_neg h3']
      by_cases h4 : pCmd.length = 4
      . rw [if_pos h4, readByte_eq (by omega), Option.bind_some]
        split
        . rename_i hs
          rw [if_pos ⟨h4, hs⟩]
        . rename_i hs
          rw [if_neg fun hc => hs hc.2]
      . rw [if_neg h4, if_neg fun hc => h4 hc.1]
    . rw [if_neg het, if_neg het]
  by_cases htwo : Char.ofNat (byteAt pCmd 0).toNat = 'd' ∨ Char.ofNat (byteAt pCmd 0).toNat = 'p'
  . rcases htwo with hc | hc
    all_goals
      simp only [hc]
      split
      . rfl
      . split <;> simp_all
  by_cases hone : Char.ofNat (byteAt pCmd 0).toNat ∈ ['a', 'c', 's']
  . simp only [List.mem_cons, List.not_mem_nil, or_false] at hone
    rcases hone with hc | hc | hc
    all_goals
      simp only [hc]
      split <;> simp_all
  by_cases hletter : Char.ofNat (byteAt pCmd 0).toNat ∈ ['b', 'f', 'i', 'q', 'r']
  . simp only [List.mem_cons, List.not_mem_nil, or_false] at hletter
    rcases hletter with hc | hc | hc | hc | hc
    all_goals simp only [hc]
  . have hnone : Char.ofNat (byteAt pCmd 0).toNat ∉ cmdLetters := by
      unfold cmdLetters
      simp_all
    exact absurd hnone hother

end Read

section Table

variable {pCmd bs : List UInt8} {p : LsMcCmdFunc}

theorem byte_of_char {b : UInt8} {c : Char} (h : Char.ofNat b.toNat = c) : b = UInt8.ofNat c.toNat := by
  have hlt := b.toNat_lt
  have hvalid : b.toNat.isValidChar := .inl (by omega)
  have hchar : (Char.ofNat b.toNat).toNat = b.toNat := by
    unfold Char.ofNat
    rw [dif_pos hvalid]
    rfl
  rw [← h, hchar, UInt8.ofNat_toNat]

theorem take_succ_of_char {n : Nat} {c : Char} (hn : n < pCmd.length) (hpre : pCmd.take n = bs)
    (h : Char.ofNat (byteAt pCmd n).toNat = c) : pCmd.take (n + 1) = bs ++ [UInt8.ofNat c.toNat] := by
  have hbyte : pCmd[n] = UInt8.ofNat c.toNat := by
    rw [← byte_of_char h]
    simp [byteAt, hn]
  rw [List.take_add_one, hpre, List.getElem?_eq_getElem hn, hbyte]
  rfl

theorem take_add_of_drop {n k : Nat} {cs : List UInt8} (hpre : pCmd.take n = bs)
    (h : (pCmd.drop n).take k = cs) : pCmd.take (n + k) = bs ++ cs := by
  rw [List.take_add, hpre, h]

theorem bytes_of_matchCmd {iPossible iOffset : Nat} {q : LsMcCmdFunc}
    (h : matchCmd pCmd iPossible iOffset = some p) (hq : s_LsMcCmdFuncs[iPossible]? = some q)
    (hpre : pCmd.take iOffset = (bytes q.cmd).take iOffset) : bytes p.cmd = pCmd := by
  unfold matchCmd at h
  rw [hq] at h
  dsimp only at h
  split at h
  . rename_i hc
    cases h
    rw [← List.take_append_drop iOffset pCmd, hpre, hc.2, List.take_append_drop]
  . cases h

theorem bytes_of_take {n : Nat} (hlen : pCmd.length = n) (hpre : pCmd.take n = bs) : bs = pCmd := by
  rw [← hpre, ← hlen, List.take_length]

theorem bytes_of_getCmdFunction (h : getCmdFunction pCmd = some p) : bytes p.cmd = pCmd := by
  unfold getCmdFunction at h
  dsimp only at h
  split at h
  . cases h
  rename_i hlen
  have h0 : 0 < pCmd.length := by omega
  have h1 : 1 < pCmd.length := by omega
  have h2 : 2 < pCmd.length := by omega
  split at h
  case h_1 | h_2 | h_3 | h_4 | h_5 =>
    exact bytes_of_matchCmd h rfl (take_succ_of_char h0 List.take_zero ‹_ = _›)
  case h_6 | h_7 =>
    have hpre := take_succ_of_char h0 List.take_zero ‹_ = _›
    split at h
    . exact bytes_of_matchCmd h rfl (take_succ_of_char h1 hpre ‹_ = _›)
    . exact bytes_of_matchCmd h rfl (take_succ_of_char h1 hpre ‹_ = _›)
    . cases h
  case h_8 | h_9 =>
    have hpre := take_succ_of_char h0 List.take_zero ‹_ = _›
    split at h
    . cases h
    . have hpre := take_succ_of_char h1 hpre (not_not.mp ‹_›)
      split at h
      . exact bytes_of_matchCmd h rfl (take_succ_of_char h2 hpre ‹_ = _›)
      . exact bytes_of_matchCmd h rfl (take_succ_of_char h2 hpre ‹_ = _›)
      . cases h
  case h_10 =>
    have hpre := take_succ_of_char h0 List.take_zero ‹_ = _›
    split at h
    . exact bytes_of_matchCmd h rfl (take_succ_of_char h1 hpre ‹_ = _›)
    . exact bytes_of_matchCmd h rfl (take_succ_of_char h1 hpre ‹_ = _›)
    . exact bytes_of_matchCmd h rfl (take_succ_of_char h1 hpre ‹_ = _›)
    . cases h
  case h_11 =>
    have hpre := take_succ_of_char h0 List.take_zero ‹_ = _›
    split at h
    . cases h
    . rename_i hc
      rw [not_or, not_not] at hc
      have hpre := take_add_of_drop hpre hc.2
      have h3 : 1 + 2 < pCmd.length := by omega
      split at h
      . exact bytes_of_matchCmd h rfl (take_succ_of_char h3 hpre ‹_ = _›)
      . exact bytes_of_matchCmd h rfl (take_succ_of_char h3 hpre ‹_ = _›)
      . cases h
  case h_12 =>
    have hpre := take_succ_of_char h0 List.take_zero ‹_ = _›
    split at h
    . exact bytes_of_matchCmd h rfl (take_succ_of_char h1 hpre ‹_ = _›)
    . split at h
      . cases h
      . rename_i hc
        rw [not_or, not_not, not_not] at hc
        have hpre := take_add_of_drop hpre hc.2
        have h4 : 1 + 3 < pCmd.length := by omega
        split at h
        . cases h
          exact bytes_of_take hc.1 (take_succ_of_char h4 hpre ‹_ = _›)
        . cases h
          exact bytes_of_take hc.1 (take_succ_of_char h4 hpre ‹_ = _›)
        . cases h
  case h_13 =>
    have hpre := take_succ_of_char h0 List.take_zero ‹_ = _›
    split at h
    . have hpre := take_add_of_drop hpre ‹_ = _›
      split at h
      . cases h
        exact bytes_of_take ‹_ = _› hpre
      . split at h
        . rename_i hs
          cases h
          exact bytes_of_take hs.1 (take_succ_of_char (show 1 + 2 < pCmd.length by omega) hpre hs.2)
        . cases h
    . cases h
  case h_14 => cases h

theorem getCmdFunction_bytes : ∀ p ∈ s_LsMcCmdFuncs, getCmdFunction (bytes p.cmd) = some p := by
  decide +kernel

/--
The tree finds what a search of the table finds, and no byte behind the command is read.
-/
theorem getCmdFunction_eq_find (pCmd : List UInt8)
    : getCmdFunctionRead pCmd = some (s_LsMcCmdFuncs.find? fun p => bytes p.cmd = pCmd) ∧
      getCmdFunction pCmd = s_LsMcCmdFuncs.find? fun p => bytes p.cmd = pCmd := by
  have heq : getCmdFunction pCmd = s_LsMcCmdFuncs.find? fun p => bytes p.cmd = pCmd := by
    cases hfind : s_LsMcCmdFuncs.find? fun p => bytes p.cmd = pCmd with
    | some p =>
      have hname : bytes p.cmd = pCmd := by simpa using List.find?_some hfind
      rw [← hname]
      exact getCmdFunction_bytes p (List.mem_of_find?_eq_some hfind)
    | none =>
      cases hfun : getCmdFunction pCmd with
      | none => rfl
      | some p =>
        have hno := List.find?_eq_none.mp hfind p (McCall.getCmdFunction_some hfun).2
        exact absurd (decide_eq_true (bytes_of_getCmdFunction hfun)) hno
  exact ⟨by rw [getCmdFunctionRead_eq, heq], heq⟩

end Table

end Lsmcd

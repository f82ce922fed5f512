import Lsmcd.Lib.CString
import Lsmcd.Memcache.Types
import Mathlib.Data.List.TakeWhile

/-!
How the data of a SASL request is made ready for the library (`lsmcsasl.cpp`), with all accesses to it.

The body of the request is a list, and a pointer into it is its offset, or none for `NULL`. A function
has no result when it reads what is not of the body, goes through `NULL`, uses `password_len` before it
is set or writes behind the end of its buffer.
-/

namespace Lsmcd

open CString

structure LogLevel where
  error : Bool
  debug : Bool

namespace LsMcSasl

def charAt (pVal : List UInt8) (p : Option Nat) : Option UInt8 := p.bind fun off => pVal[off]?

def strAt (pVal : List UInt8) (p : Option Nat) : Option (List UInt8) :=
  p.bind fun off => cstr (pVal.drop off)

def logStr (on : Bool) (pVal : List UInt8) (p : Option Nat) : Option Unit :=
  if on then (strAt pVal p).map fun _ => () else some ()

structure AuthFields where
  user2 : Option Nat
  password : Option Nat
  password_len : Option Nat

def findFields (pVal : List UInt8) : Nat → Nat → AuthFields → Option AuthFields
  | 0, _, f => some f
  | left + 1, index, f =>
    if index < pVal.length then
      if left = 1 then do
        let s ← strAt pVal (some index)
        findFields pVal left (index + (s.length + 1)) { f with user2 := some index }
      else
        findFields pVal left pVal.length
          { f with password := some index, password_len := some (pVal.length - index) }
    else some f

def put (size : Nat) (sval bs : List UInt8) : Option (List UInt8) :=
  if sval.length + bs.length ≤ size then some (sval ++ bs) else none

section Auth

variable (log : LogLevel) (HOST_NAME_MAX : Nat) (hostname pVal : List UInt8)

def sameUser (user1 user2 : Option Nat) : Option Bool := do
  let c ← charAt pVal user1
  if c = 0 then some false
  else do
    let s1 ← strAt pVal user1
    let s2 ← strAt pVal user2
    some (decide (s1 = s2))

/--
The end of `rebuildAuth`: `sval` has `valLen + HOST_NAME_MAX + 1` bytes.
-/
def buildAuth (user1 : Option Nat) (f : AuthFields) : Option (List UInt8) := do
  let user ← strAt pVal user1
  let full_username :=
    (user ++ 64 :: hostname).take ((HOST_NAME_MAX + pVal.length) % 2 ^ 32 - 1)
  let size := (pVal.length + HOST_NAME_MAX + 1) % 2 ^ 32
  let sval ← put size [] (full_username ++ [0])
  let sval ← put size sval (full_username ++ [0])
  let password ← f.password
  let password_len ← f.password_len
  put size sval ((pVal.drop password).take password_len)

/--
The inner none is the result -1.
-/
def rebuildAuth : Option (Option (List UInt8)) := do
  let s ← cstr pVal
  let f ← findFields pVal 2 (s.length + 1) ⟨none, none, none⟩
  let c1 ← charAt pVal (some 0)
  logStr (log.debug && c1 = 0) pVal f.user2
  let user1 := if c1 = 0 then f.user2 else some 0
  let c2 ← charAt pVal f.user2
  logStr (log.debug && c2 = 0) pVal user1
  let user2 := if c2 = 0 then user1 else f.user2
  let same ← sameUser pVal user1 user2
  if !same then do
    logStr log.error pVal user1
    logStr log.error pVal user2
    logStr log.error pVal f.password
    some none
  else do
    logStr log.debug pVal user1
    let sval ← buildAuth HOST_NAME_MAX hostname pVal user1 f
    some (some sval)

def serverVal : Option (Option (List UInt8)) := do
  logStr log.debug pVal (some 0)
  let found ← strchr 64 pVal
  if found then do
    logStr log.debug pVal (some 0)
    some (some pVal)
  else do
    let val ← rebuildAuth log HOST_NAME_MAX hostname pVal
    match val with
    | none => some none
    | some sval => do
      logStr log.debug sval (some 0)
      some (some sval)

def chkAuth (saslConn : Bool) (server_start : List UInt8 → List UInt8 → SaslRet)
    (mech : List UInt8) : Option SaslRet :=
  if !saslConn || pVal.length = 0 then some .fail
  else do
    let val ← serverVal log HOST_NAME_MAX hostname pVal
    match val with
    | none => some .fail
    | some v => some (server_start mech v)

end Auth

def splitAuth (b : List UInt8) : Option (List UInt8 × List UInt8 × List UInt8) := do
  let name1 ← cstr b
  let name2 ← cstr (b.drop (name1.length + 1))
  some (name1, name2, b.drop (name1.length + 1 + (name2.length + 1)))

def authUser (name1 name2 : List UInt8) : Option (List UInt8) :=
  let user := if name1 = [] then name2 else name1
  if user ≠ [] ∧ (name2 = [] ∨ user = name2) then some user else none

/--
What is to be handed to the library: a body with a realm as it is, else the names with the host in
place of it. A body without two names and a password is refused.
-/
def wanted (hostname b : List UInt8) : Option (List UInt8) :=
  if 64 ∈ b.takeWhile (· ≠ 0) then some b
  else
    match splitAuth b with
    | none => none
    | some (name1, name2, password) =>
      if password = [] then none
      else
        (authUser name1 name2).map fun user =>
          (user ++ 64 :: hostname ++ [0]) ++ (user ++ 64 :: hostname ++ [0]) ++ password

/--
The request is answered within bounds: the message of a name that is not the same, and the one of a
body with a realm, need an end of the string in the body, and both copies of the name need their
place.
-/
def Bounded (log : LogLevel) (HOST_NAME_MAX : Nat) (hostname b : List UInt8) : Prop :=
  if 64 ∈ b.takeWhile (· ≠ 0) then log.debug = true → 0 ∈ b
  else
    ∃ name1 name2 password, splitAuth b = some (name1, name2, password) ∧
      match authUser name1 name2 with
      | none => log.error = true → 0 ∈ password
      | some user =>
        password ≠ [] ∧
          2 * (user.length + hostname.length + 2) + password.length ≤ b.length + HOST_NAME_MAX + 1

section Body

variable {b name1 name2 password : List UInt8}

theorem strAt_some {off : Nat} : strAt b (some off) = cstr (b.drop off) := rfl

theorem charAt_of_strAt {p : Option Nat} {str : List UInt8} (h : strAt b p = some str)
    : ∃ c, charAt b p = some c ∧ (c = 0 ↔ str = []) := by
  cases p with
  | none => contradiction
  | some off =>
    rw [strAt_some] at h
    have hchar : charAt b (some off) = (b.drop off)[0]? := by
      rw [List.getElem?_drop, Nat.add_zero]
      rfl
    cases hd : b.drop off with
    | nil =>
      rw [hd] at h
      contradiction
    | cons c rest =>
      rw [hd] at h hchar
      refine ⟨c, hchar, ?_⟩
      rw [cstr] at h
      split at h
      . next hc => exact iff_of_true hc (Option.some.inj h).symm
      . next hc =>
        obtain ⟨str', _, rfl⟩ := Option.map_eq_some_iff.mp h
        exact iff_of_false hc (List.cons_ne_nil c str')

theorem sameUser_eq {p q : Option Nat} {user1 user2 : List UInt8} (hp : strAt b p = some user1)
    (hq : strAt b q = some user2)
    : sameUser b p q = some (decide (user1 ≠ [] ∧ user1 = user2)) := by
  obtain ⟨c, hc, hnil⟩ := charAt_of_strAt hp
  unfold sameUser
  rw [hc, hp, hq]
  dsimp only [bind, Option.bind_some]
  by_cases h : user1 = []
  . rw [if_pos (hnil.mpr h)]
    simp [h]
  . rw [if_neg (mt hnil.mp h)]
    simp [h]

theorem logStr_of_strAt {p : Option Nat} {str : List UInt8} (h : strAt b p = some str) (on : Bool)
    : logStr on b p = some () := by
  unfold logStr
  rw [h]
  cases on <;> rfl

structure IsBody (b name1 name2 password : List UInt8) : Prop where
  eq : b = name1 ++ 0 :: (name2 ++ 0 :: password)
  name1 : 0 ∉ name1
  name2 : 0 ∉ name2

namespace IsBody

variable (h : IsBody b name1 name2 password)
include h

theorem drop1 : b.drop (name1.length + 1) = name2 ++ 0 :: password := by
  rw [h.eq, ← List.drop_drop, List.drop_left]
  rfl

theorem drop2 : b.drop (name1.length + 1 + (name2.length + 1)) = password := by
  rw [← List.drop_drop, h.drop1, ← List.drop_drop, List.drop_left]
  rfl

theorem length_eq : b.length = name1.length + 1 + (name2.length + 1) + password.length := by
  rw [h.eq, List.length_append, List.length_cons, List.length_append, List.length_cons]
  omega

theorem strAt_name1 : strAt b (some 0) = some name1 := by
  rw [strAt_some, List.drop_zero, h.eq, cstr_append h.name1]

theorem strAt_name2 : strAt b (some (name1.length + 1)) = some name2 := by
  rw [strAt_some, h.drop1, cstr_append h.name2]

theorem splitAuth_eq : splitAuth b = some (name1, name2, password) := by
  have hfirst := h.strAt_name1
  have hsecond := h.strAt_name2
  rw [strAt_some, List.drop_zero] at hfirst
  rw [strAt_some] at hsecond
  unfold splitAuth
  rw [hfirst]
  dsimp only [bind, Option.bind_some]
  rw [hsecond, Option.bind_some, h.drop2]

theorem findFields_eq
    : findFields b 2 (name1.length + 1) ⟨none, none, none⟩
      = some ⟨some (name1.length + 1),
          if password = [] then none else some (name1.length + 1 + (name2.length + 1)),
          if password = [] then none else some password.length⟩ := by
  have hlen := h.length_eq
  have hfirst : name1.length + 1 < b.length := by omega
  rw [findFields, if_pos hfirst, if_pos rfl, h.strAt_name2]
  dsimp only [bind, Option.bind_some]
  rw [findFields]
  by_cases hpw : password = []
  . have hend : ¬ name1.length + 1 + (name2.length + 1) < b.length := by
      rw [hpw, List.length_nil] at hlen
      omega
    rw [if_neg hend, if_pos hpw, if_pos hpw]
  . have hpos := List.length_pos_iff.mpr hpw
    have hmore : name1.length + 1 + (name2.length + 1) < b.length := by omega
    have hleft : b.length - (name1.length + 1 + (name2.length + 1)) = password.length := by omega
    rw [if_pos hmore, if_neg (by decide), findFields, if_neg hpw, if_neg hpw, hleft]

theorem logStr_password (on : Bool)
    : logStr on b (if password = [] then none else some (name1.length + 1 + (name2.length + 1)))
      = if on = true → 0 ∈ password then some () else none := by
  unfold logStr
  cases on with
  | false => rfl
  | true =>
    rw [if_pos rfl]
    by_cases hpw : password = []
    . rw [if_pos hpw, hpw]
      rfl
    . rw [if_neg hpw, strAt_some, h.drop2]
      by_cases hzero : 0 ∈ password
      . obtain ⟨str, hstr⟩ := Option.isSome_iff_exists.mp (cstr_isSome.mpr hzero)
        rw [hstr, if_pos fun _ => hzero]
        rfl
      . rw [cstr_eq_none hzero, if_neg fun himp => hzero (himp rfl)]
        rfl

end IsBody

theorem put_three (size : Nat) (x y z : List UInt8)
    : (do
        let sval ← put size [] x
        let sval ← put size sval y
        put size sval z)
      = if x.length + y.length + z.length ≤ size then some (x ++ y ++ z) else none := by
  unfold put
  rw [List.nil_append, List.length_nil, Nat.zero_add]
  by_cases hx : x.length ≤ size
  . rw [if_pos hx]
    dsimp only [bind, Option.bind_some]
    by_cases hy : x.length + y.length ≤ size
    . rw [if_pos hy, Option.bind_some, List.length_append]
    . rw [if_neg hy, if_neg (by omega)]
      rfl
  . rw [if_neg hx, if_neg (by omega)]
    rfl

section Build

variable {log : LogLevel} {HOST_NAME_MAX : Nat} {hostname : List UInt8}

theorem buildAuth_eq (h : IsBody b name1 name2 password) (hhost : hostname.length ≤ HOST_NAME_MAX)
    (hsize : b.length + HOST_NAME_MAX + 1 < 2 ^ 32) {p : Option Nat} {user : List UInt8}
    (hp : strAt b p = some user) (hlen : user.length + 2 ≤ b.length)
    : buildAuth HOST_NAME_MAX hostname b p ⟨some (name1.length + 1),
          if password = [] then none else some (name1.length + 1 + (name2.length + 1)),
          if password = [] then none else some password.length⟩
      = if password ≠ [] ∧
            2 * (user.length + hostname.length + 2) + password.length ≤ b.length + HOST_NAME_MAX + 1 then
          some ((user ++ 64 :: hostname ++ [0]) ++ (user ++ 64 :: hostname ++ [0]) ++ password)
        else none := by
  have hfull : (user ++ 64 :: hostname).take ((HOST_NAME_MAX + b.length) % 2 ^ 32 - 1)
      = user ++ 64 :: hostname := by
    apply List.take_of_length_le
    rw [List.length_append, List.length_cons]
    omega
  have hmod : (b.length + HOST_NAME_MAX + 1) % 2 ^ 32 = b.length + HOST_NAME_MAX + 1 :=
    Nat.mod_eq_of_lt hsize
  unfold buildAuth
  rw [hp]
  dsimp only [bind, Option.bind_some]
  rw [hfull, hmod]
  by_cases hpw : password = []
  . rw [if_pos hpw]
    simp only [Option.bind_none, Option.bind_fun_none]
    exact (if_neg fun hne => hne.1 hpw).symm
  . have hthree := put_three (b.length + HOST_NAME_MAX + 1) (user ++ 64 :: hostname ++ [0])
      (user ++ 64 :: hostname ++ [0]) password
    have hcount : (user ++ 64 :: hostname ++ [0]).length + (user ++ 64 :: hostname ++ [0]).length +
        password.length = 2 * (user.length + hostname.length + 2) + password.length := by
      simp only [List.length_append, List.length_cons, List.length_nil]
      omega
    rw [hcount] at hthree
    rw [if_neg hpw, if_neg hpw]
    dsimp only [Option.bind_some]
    rw [h.drop2, List.take_length]
    refine hthree.trans ?_
    simp only [ne_eq, hpw, not_false_eq_true, true_and]

theorem rebuildAuth_eq (h : IsBody b name1 name2 password) (hhost : hostname.length ≤ HOST_NAME_MAX)
    (hsize : b.length + HOST_NAME_MAX + 1 < 2 ^ 32)
    : rebuildAuth log HOST_NAME_MAX hostname b =
        match authUser name1 name2 with
        | none => if log.error = true → 0 ∈ password then some none else none
        | some user =>
          if password ≠ [] ∧
              2 * (user.length + hostname.length + 2) + password.length ≤ b.length + HOST_NAME_MAX + 1
          then some (some
            ((user ++ 64 :: hostname ++ [0]) ++ (user ++ 64 :: hostname ++ [0]) ++ password))
          else none := by
  have hlen := h.length_eq
  have hone := h.strAt_name1
  have htwo := h.strAt_name2
  obtain ⟨c1, hc1, hnil1⟩ := charAt_of_strAt hone
  obtain ⟨c2, hc2, hnil2⟩ := charAt_of_strAt htwo
  have hcstr : cstr b = some name1 := by
    rw [strAt_some, List.drop_zero] at hone
    exact hone
  unfold rebuildAuth
  rw [hcstr]
  dsimp only [bind, Option.bind_some]
  rw [h.findFields_eq, Option.bind_some, hc1, Option.bind_some, logStr_of_strAt htwo, Option.bind_some]
  dsimp only
  rw [hc2, Option.bind_some]
  -- The strings that the two pointers stand for once an empty one was replaced.
  have huser : strAt b (if c1 = 0 then some (name1.length + 1) else some 0)
      = some (if name1 = [] then name2 else name1) := by
    simp only [hnil1]
    split
    . exact htwo
    . exact hone
  generalize (if c1 = 0 then some (name1.length + 1) else some 0) = p at huser ⊢
  generalize hu : (if name1 = [] then name2 else name1) = user at huser
  have hother : strAt b (if c2 = 0 then p else some (name1.length + 1))
      = some (if name2 = [] then user else name2) := by
    simp only [hnil2]
    split
    . exact huser
    . exact htwo
  have huserLen : user.length + 2 ≤ b.length := by
    rw [← hu]
    split <;> omega
  rw [logStr_of_strAt huser, Option.bind_some, sameUser_eq huser hother, Option.bind_some]
  have hauth : authUser name1 name2
      = if user ≠ [] ∧ user = (if name2 = [] then user else name2) then some user else none := by
    unfold authUser
    rw [hu]
    by_cases hn : name2 = [] <;> simp [hn]
  rw [hauth]
  by_cases hsame : user ≠ [] ∧ user = (if name2 = [] then user else name2)
  . rw [if_pos hsame, decide_eq_true hsame, if_neg (by decide), logStr_of_strAt huser,
      Option.bind_some, buildAuth_eq h hhost hsize huser huserLen]
    dsimp only
    split <;> rfl
  . rw [if_neg hsame, decide_eq_false hsame, if_pos (by decide), logStr_of_strAt huser,
      Option.bind_some, logStr_of_strAt hother, Option.bind_some]
    dsimp only
    rw [h.logStr_password]
    split <;> rfl

theorem body_cases (b : List UInt8)
    : 0 ∉ b ∨ (∃ name1 rest, b = name1 ++ 0 :: rest ∧ 0 ∉ name1 ∧ 0 ∉ rest) ∨
        ∃ name1 name2 password, IsBody b name1 name2 password := by
  by_cases h : 0 ∈ b
  . obtain ⟨name1, rest, rfl, h1⟩ := List.eq_append_cons_of_mem h
    by_cases hrest : 0 ∈ rest
    . obtain ⟨name2, password, rfl, h2⟩ := List.eq_append_cons_of_mem hrest
      exact .inr (.inr ⟨name1, name2, password, rfl, h1, h2⟩)
    . exact .inr (.inl ⟨name1, rest, rfl, h1, hrest⟩)
  . exact .inl h

theorem takeWhile_append (h : 0 ∉ name1) (rest : List UInt8)
    : (name1 ++ 0 :: rest).takeWhile (· ≠ 0) = name1 := by
  rw [List.takeWhile_append_of_pos, List.takeWhile_cons_of_neg (by decide), List.append_nil]
  intro c hc
  rw [decide_eq_true_eq]
  rintro rfl
  exact h hc

theorem takeWhile_of_notMem (h : 0 ∉ b) : b.takeWhile (· ≠ 0) = b := by
  apply List.takeWhile_eq_self_iff.mpr
  intro c hc
  rw [decide_eq_true_eq]
  rintro rfl
  exact h hc

theorem rebuildAuth_short {rest : List UInt8} (h1 : 0 ∉ name1) (hrest : 0 ∉ rest)
    : rebuildAuth log HOST_NAME_MAX hostname (name1 ++ 0 :: rest) = none := by
  have hdrop : (name1 ++ 0 :: rest).drop (name1.length + 1) = rest := by
    rw [← List.drop_drop, List.drop_left]
    rfl
  have hlen : (name1 ++ 0 :: rest).length = name1.length + 1 + rest.length := by
    rw [List.length_append, List.length_cons]
    omega
  unfold rebuildAuth
  rw [cstr_append h1]
  dsimp only [bind, Option.bind_some]
  rw [findFields]
  by_cases hnil : rest = []
  . rw [hnil, List.length_nil] at hlen
    rw [hnil, if_neg (by omega), Option.bind_some]
    simp only [charAt, Option.bind_none, Option.bind_fun_none]
  . have hpos := List.length_pos_iff.mpr hnil
    rw [if_pos (by omega), if_pos rfl, strAt_some, hdrop, cstr_eq_none hrest]
    rfl

theorem serverVal_realm (h : 64 ∈ b.takeWhile (· ≠ 0))
    : serverVal log HOST_NAME_MAX hostname b
      = if log.debug = true → 0 ∈ b then some (some b) else none := by
  unfold serverVal
  by_cases hzero : 0 ∈ b
  . obtain ⟨name1, rest, rfl, h1⟩ := List.eq_append_cons_of_mem hzero
    rw [takeWhile_append h1] at h
    have hstr : strAt (name1 ++ 0 :: rest) (some 0) = some name1 := cstr_append h1
    rw [logStr_of_strAt hstr, strchr_append h1 (by decide), decide_eq_true h, if_pos fun _ => hzero]
    rfl
  . rw [takeWhile_of_notMem hzero] at h
    have hstr : strAt b (some 0) = none := cstr_eq_none hzero
    rw [strchr_of_notMem hzero, if_pos h]
    unfold logStr
    rw [hstr]
    cases log.debug with
    | false => rfl
    | true => simp [hzero]

theorem serverVal_of_notMem (h : 64 ∉ b) (hzero : 0 ∉ b)
    : serverVal log HOST_NAME_MAX hostname b = none := by
  unfold serverVal
  rw [strchr_of_notMem hzero, if_neg h]
  simp only [bind, Option.bind_none, Option.bind_fun_none]

theorem logStr_of_mem (h : 0 ∈ b) (on : Bool) : logStr on b (some 0) = some () := by
  obtain ⟨str, hstr⟩ := Option.isSome_iff_exists.mp (cstr_isSome.mpr h)
  exact logStr_of_strAt (p := some 0) hstr on

theorem serverVal_rebuild {rest : List UInt8} (h1 : 0 ∉ name1) (h : 64 ∉ name1)
    : serverVal log HOST_NAME_MAX hostname (name1 ++ 0 :: rest)
      = (rebuildAuth log HOST_NAME_MAX hostname (name1 ++ 0 :: rest)).bind fun val =>
          match val with
          | none => some none
          | some sval => (logStr log.debug sval (some 0)).bind fun _ => some (some sval) := by
  have hstr : strAt (name1 ++ 0 :: rest) (some 0) = some name1 := cstr_append h1
  unfold serverVal
  rw [logStr_of_strAt hstr, strchr_append h1 (by decide), decide_eq_false h]
  rfl

end Build

end Body

theorem serverVal_iff (log : LogLevel) {HOST_NAME_MAX : Nat} {hostname b : List UInt8}
    (hhost : hostname.length ≤ HOST_NAME_MAX)
    (hsize : b.length + HOST_NAME_MAX + 1 < 2 ^ 32)
    : serverVal log HOST_NAME_MAX hostname b = some (wanted hostname b) ↔
        Bounded log HOST_NAME_MAX hostname b := by
  unfold wanted Bounded
  by_cases hrealm : 64 ∈ b.takeWhile (· ≠ 0)
  . rw [if_pos hrealm, if_pos hrealm, serverVal_realm hrealm]
    simp
  . rw [if_neg hrealm, if_neg hrealm]
    rcases body_cases b with hzero | ⟨name1, rest, rfl, h1, hrest⟩ | ⟨name1, name2, password, hbody⟩
    . rw [takeWhile_of_notMem hzero] at hrealm
      have hsplit : splitAuth b = none := by
        unfold splitAuth
        rw [cstr_eq_none hzero]
        rfl
      rw [serverVal_of_notMem hrealm hzero, hsplit]
      simp
    . rw [takeWhile_append h1] at hrealm
      have hsplit : splitAuth (name1 ++ 0 :: rest) = none := by
        unfold splitAuth
        rw [cstr_append h1]
        dsimp only [bind, Option.bind_some]
        rw [← List.drop_drop, List.drop_left, List.drop_one, List.tail_cons, cstr_eq_none hrest]
        rfl
      rw [serverVal_rebuild h1 hrealm, rebuildAuth_short h1 hrest, hsplit]
      simp
    . have hrebuild := @serverVal_rebuild name1 log HOST_NAME_MAX hostname (name2 ++ 0 :: password)
        hbody.name1
      rw [← hbody.eq, rebuildAuth_eq hbody hhost hsize] at hrebuild
      rw [hbody.eq, takeWhile_append hbody.name1] at hrealm
      rw [hrebuild hrealm, hbody.splitAuth_eq]
      dsimp only
      have hexists : (∃ n1 n2 pw, some (name1, name2, password) = some (n1, n2, pw) ∧
          match authUser n1 n2 with
          | none => log.error = true → 0 ∈ pw
          | some user => pw ≠ [] ∧
              2 * (user.length + hostname.length + 2) + pw.length ≤ b.length + HOST_NAME_MAX + 1) ↔
          match authUser name1 name2 with
          | none => log.error = true → 0 ∈ password
          | some user => password ≠ [] ∧
              2 * (user.length + hostname.length + 2) + password.length
                ≤ b.length + HOST_NAME_MAX + 1 := by
        constructor
        . rintro ⟨_, _, _, ⟨⟩, hall⟩
          exact hall
        . intro hall
          exact ⟨_, _, _, rfl, hall⟩
      rw [hexists]
      cases authUser name1 name2 with
      | none =>
        dsimp only
        split
        . next himp =>
          refine iff_of_true ?_ himp
          split <;> rfl
        . next himp =>
          refine iff_of_false ?_ himp
          rw [Option.bind_none]
          exact Option.some_ne_none _ ∘ Eq.symm
      | some user =>
        dsimp only
        split
        . next hok =>
          refine iff_of_true ?_ hok
          have hzero : 0 ∈ user ++ 64 :: hostname ++ [0] ++ (user ++ 64 :: hostname ++ [0]) ++
              password := by simp
          rw [Option.bind_some]
          dsimp only
          rw [logStr_of_mem hzero, if_neg hok.1]
          rfl
        . next hok =>
          refine iff_of_false ?_ hok
          rw [Option.bind_none]
          exact Option.some_ne_none _ ∘ Eq.symm

def answered (server_start : List UInt8 → List UInt8 → SaslRet) (mech : List UInt8)
    : Option (List UInt8) → SaslRet
  | none => .fail
  | some v => server_start mech v

/--
A library that gives back what it was handed tells all answers apart.
-/
theorem answered_injective {v w : Option (List UInt8)}
    (h : answered (fun _ v => .ok v) [] v = answered (fun _ v => .ok v) [] w) : v = w := by
  cases v with
  | none =>
    cases w with
    | none => rfl
    | some w => contradiction
  | some v =>
    cases w with
    | none => contradiction
    | some w => rw [SaslRet.ok.inj h]

theorem chkAuth_eq (log : LogLevel) (HOST_NAME_MAX : Nat) (hostname : List UInt8) {b : List UInt8}
    (hb : 1 ≤ b.length) (server_start : List UInt8 → List UInt8 → SaslRet) (mech : List UInt8)
    : chkAuth log HOST_NAME_MAX hostname b true server_start mech
      = (serverVal log HOST_NAME_MAX hostname b).map (answered server_start mech) := by
  have hpos : ¬ b.length = 0 := by omega
  unfold chkAuth
  rw [decide_eq_false hpos]
  rcases serverVal log HOST_NAME_MAX hostname b with _ | _ | v <;> rfl

/--
A request is answered as wanted, whatever the library says, exactly when it stays within bounds. A body
is in a buffer whose size is an `int`.
-/
theorem chkAuth_iff (log : LogLevel) {HOST_NAME_MAX : Nat} {hostname b : List UInt8}
    (hhost : hostname.length ≤ HOST_NAME_MAX) (hmax : HOST_NAME_MAX < 2 ^ 31) (hb : 1 ≤ b.length)
    (hlen : b.length < 2 ^ 31)
    : (∀ server_start mech, chkAuth log HOST_NAME_MAX hostname b true server_start mech
        = some (answered server_start mech (wanted hostname b))) ↔
        Bounded log HOST_NAME_MAX hostname b := by
  rw [← serverVal_iff log hhost (by omega)]
  constructor
  . intro hall
    have hok := hall (fun _ v => .ok v) []
    rw [chkAuth_eq log _ _ hb] at hok
    obtain ⟨val, hval, heq⟩ := Option.map_eq_some_iff.mp hok
    rw [hval, answered_injective heq]
  . intro hval server_start mech
    rw [chkAuth_eq log _ _ hb, hval]
    rfl

theorem chkAuth_sample
    : chkAuth ⟨true, true⟩ 64 [104] [117, 0, 117, 0, 112] true (fun _ v => .ok v) []
      = some (.ok [117, 64, 104, 0, 117, 64, 104, 0, 112]) := by
  have huser : authUser [117] [117] = some [117] := by decide
  have hbounded : Bounded ⟨true, true⟩ 64 [104] [117, 0, 117, 0, 112] := by
    rw [Bounded, if_neg (by decide)]
    refine ⟨[117], [117], [112], by decide, ?_⟩
    rw [huser]
    decide
  exact (chkAuth_iff ⟨true, true⟩ (by decide) (by decide) (by decide) (by decide)).mpr hbounded _ []

/--
A name and nothing behind it: `user2[0]` is read through `NULL`.
-/
theorem not_chkAuth_name
    : ¬ ∀ server_start mech, chkAuth ⟨true, false⟩ 64 [104] [117, 0] true server_start mech
        = some (answered server_start mech (wanted [104] [117, 0])) := by
  intro hall
  have hnone : serverVal ⟨true, false⟩ 64 [104] [117, 0] = none := by decide
  have hok := hall (fun _ v => .ok v) []
  rw [chkAuth_eq _ _ _ (by decide), hnone] at hok
  contradiction

end LsMcSasl

end Lsmcd

import DistributedNotary.Library.Script
import DistributedNotary.Service.Message

/-! The scripts that lock Bitcoin until a secret is revealed or a block is reached.
The lock of a lockin pays the notaries for the secret and gives back to the user,
that of a lockout pays the user and gives back to the notaries. -/
namespace DistributedNotary.Btc

open Library Contracts Service
open Library.Script hiding Bytes

/-- What both `GetPKScript` write: the branch for the secret, and the branch after the expiration. -/
def hashTimeLock (lockSecretHash : Bytes32) (redeemer : PubKeyHash) (expiration : Int64) (refunded : PubKeyHash) :
    Bytes :=
  [OP_IF, OP_SHA256] ++ addData (bytesOf 32 lockSecretHash.toNat) ++ [OP_EQUALVERIFY, OP_DUP, OP_HASH160] ++
    addData (bytesOf 20 redeemer.toNat) ++ [OP_EQUALVERIFY, OP_CHECKSIG, OP_ELSE] ++ addInt64 expiration ++
    [OP_CHECKLOCKTIMEVERIFY, OP_DROP, OP_DUP, OP_HASH160] ++ addData (bytesOf 20 refunded.toNat) ++
    [OP_EQUALVERIFY, OP_CHECKSIG, OP_ENDIF]

structure PrepareLockInScriptBuilder where
  userAddr : PubKeyHash
  notaryAddr : PubKeyHash
  lockSecretHash : Bytes32
  expiration : Int64

structure PrepareLockOutScriptBuilder where
  userAddr : PubKeyHash
  notaryAddr : PubKeyHash
  lockSecretHash : Bytes32
  expiration : Int64

namespace PrepareLockInScriptBuilder

variable (b : PrepareLockInScriptBuilder)

def getPKScript : Bytes := hashTimeLock b.lockSecretHash b.notaryAddr b.expiration b.userAddr

/-- What the notaries add to their signature and key to spend the output. -/
def getSigScriptForNotary (secret : Bytes32) : Bytes := addData (bytesOf 32 secret.toNat) ++ [OP_1]

/-- What the user adds to his signature and key to get the output back. -/
def getSigScriptForUser : Bytes := [OP_0]

end PrepareLockInScriptBuilder

namespace PrepareLockOutScriptBuilder

variable (b : PrepareLockOutScriptBuilder)

def getPKScript : Bytes := hashTimeLock b.lockSecretHash b.userAddr b.expiration b.notaryAddr

def getSigScriptForUser (secret : Bytes32) : Bytes := addData (bytesOf 32 secret.toNat) ++ [OP_1]

def getSigScriptForNotary : Bytes := [OP_0]

end PrepareLockOutScriptBuilder

section Branches

variable {lockSecretHash : Bytes32} {redeemer refunded : PubKeyHash} {expiration : Int64}

/-- A branch that ends with the check of a signature for the hash of a key. -/
def payTo (h : PubKeyHash) : List Instr :=
  [⟨OP_DUP, []⟩, ⟨OP_HASH160, []⟩, ⟨20, bytesOf 20 h.toNat⟩, ⟨OP_EQUALVERIFY, []⟩, ⟨OP_CHECKSIG, []⟩]

def secretBranch (lockSecretHash : Bytes32) (redeemer : PubKeyHash) : List Instr :=
  [⟨OP_SHA256, []⟩, ⟨32, bytesOf 32 lockSecretHash.toNat⟩, ⟨OP_EQUALVERIFY, []⟩] ++ payTo redeemer

def timeoutBranch (push : Instr) (refunded : PubKeyHash) : List Instr :=
  [push, ⟨OP_CHECKLOCKTIMEVERIFY, []⟩, ⟨OP_DROP, []⟩] ++ payTo refunded

theorem parse_opcode {opcode : UInt8} (h : OP_PUSHDATA4 < opcode) (rest : Bytes) :
    parse (opcode :: rest) = (parse rest).map (List.cons ⟨opcode, []⟩) := parse_of_next (next_opcode h rest)

theorem parse_bytesOf {k : ℕ} (h : 2 ≤ k) (h75 : k ≤ 75) (n : ℕ) (rest : Bytes) :
    parse (addData (bytesOf k n) ++ rest) = (parse rest).map (List.cons ⟨UInt8.ofNat k, bytesOf k n⟩) := by
  have hnext := next_addData (d := bytesOf k n) (by simpa using h) (by simpa using h75) rest
  rw [length_bytesOf] at hnext
  exact parse_of_next hnext

theorem length_addData_bytesOf {k : ℕ} (h : 2 ≤ k) (h75 : k ≤ 75) (n : ℕ) : (addData (bytesOf k n)).length = k + 1 := by
  rw [addData_of_length (by simpa using h) (by simpa using h75), List.length_cons, length_bytesOf]

/-- The lock script is too long for an instruction that is the length of its data, but not for the next one. -/
theorem length_hashTimeLock (lockSecretHash : Bytes32) (redeemer refunded : PubKeyHash) (expiration : Int64) :
    75 < (hashTimeLock lockSecretHash redeemer expiration refunded).length ∧
      (hashTimeLock lockSecretHash redeemer expiration refunded).length ≤ 255 := by
  have h32 := length_addData_bytesOf (k := 32) (by decide) (by decide) lockSecretHash.toNat
  have h20 := length_addData_bytesOf (k := 20) (by decide) (by decide) redeemer.toNat
  have h20' := length_addData_bytesOf (k := 20) (by decide) (by decide) refunded.toNat
  have hexp := length_addInt64_le expiration
  simp only [hashTimeLock, List.length_append, List.length_cons, List.length_nil, h32, h20, h20']
  omega

/-- The lock script is one conditional. -/
theorem parse_hashTimeLock (expiration : Int64) : ∃ push : Instr, push.Pushes ∧
    ∀ lockSecretHash redeemer refunded, parse (hashTimeLock lockSecretHash redeemer expiration refunded) =
      some (⟨OP_IF, []⟩ :: secretBranch lockSecretHash redeemer ++
        ⟨OP_ELSE, []⟩ :: timeoutBranch push refunded ++ [⟨OP_ENDIF, []⟩]) := by
  obtain ⟨push, hpush, hnext⟩ := exists_next_addInt64 expiration
  refine ⟨push, hpush, fun lockSecretHash redeemer refunded => ?_⟩
  have hexp : ∀ rest, parse (addInt64 expiration ++ rest) = (parse rest).map (List.cons push) :=
    fun rest => parse_of_next (hnext rest)
  have hop : ∀ opcode rest, OP_PUSHDATA4 < opcode →
      parse (opcode :: rest) = (parse rest).map (List.cons ⟨opcode, []⟩) := fun _ rest h => parse_opcode h rest
  have hend : parse [] = some [] := rfl
  simp only [hashTimeLock, List.append_assoc, List.cons_append, List.nil_append]
  rw [hop OP_IF _ (by decide), hop OP_SHA256 _ (by decide), parse_bytesOf (by decide) (by decide),
    hop OP_EQUALVERIFY _ (by decide), hop OP_DUP _ (by decide), hop OP_HASH160 _ (by decide),
    parse_bytesOf (by decide) (by decide), hop OP_EQUALVERIFY _ (by decide), hop OP_CHECKSIG _ (by decide),
    hop OP_ELSE _ (by decide), hexp, hop OP_CHECKLOCKTIMEVERIFY _ (by decide), hop OP_DROP _ (by decide),
    hop OP_DUP _ (by decide), hop OP_HASH160 _ (by decide), parse_bytesOf (by decide) (by decide),
    hop OP_EQUALVERIFY _ (by decide), hop OP_CHECKSIG _ (by decide), hop OP_ENDIF _ (by decide), hend]
  rfl

variable {c : Checks} {st out : List Bytes}

theorem runPlain_payTo_iff {h : PubKeyHash} :
    c.runPlain (payTo h) st = some out ↔ ∃ key sig rest, st = key :: sig :: rest ∧
      c.hash160 key = bytesOf 20 h.toNat ∧ out = fromBool (c.checkSig sig key) :: rest := by
  have hdup : ∀ x st, c.plain ⟨OP_DUP, []⟩ (x :: st) = some (x :: x :: st) := fun _ _ => rfl
  have hhash : ∀ x st, c.plain ⟨OP_HASH160, []⟩ (x :: st) = some (c.hash160 x :: st) := fun _ _ => rfl
  have hpush : ∀ d st, c.plain ⟨20, d⟩ st = some (d :: st) := fun _ _ => rfl
  have hequal : ∀ x y st, c.plain ⟨OP_EQUALVERIFY, []⟩ (x :: y :: st) = if x = y then some st else none :=
    fun _ _ _ => rfl
  have hcheck : ∀ key sig st, c.plain ⟨OP_CHECKSIG, []⟩ (key :: sig :: st) =
      some (fromBool (c.checkSig sig key) :: st) := fun _ _ _ => rfl
  cases st with
  | nil =>
    have hnone : c.runPlain (payTo h) [] = none := rfl
    simp [hnone]
  | cons key st =>
    simp only [payTo, Checks.runPlain, hdup, hhash, hpush, hequal, Option.bind_some]
    by_cases heq : bytesOf 20 h.toNat = c.hash160 key
    · simp only [if_pos heq, Option.bind_some]
      cases st with
      | nil =>
        have hnone : c.plain ⟨OP_CHECKSIG, []⟩ [key] = none := rfl
        simp [hnone]
      | cons sig st => simp [hcheck, heq, eq_comm]
    · have hne : ¬ c.hash160 key = bytesOf 20 h.toNat := fun h => heq h.symm
      simp only [if_neg heq, Option.bind_none, List.cons.injEq]
      constructor
      · intro h
        cases h
      · rintro ⟨key', sig, rest, ⟨rfl, -⟩, h, -⟩
        exact absurd h hne

theorem runPlain_secretBranch_iff :
    c.runPlain (secretBranch lockSecretHash redeemer) st = some out ↔ ∃ secret rest, st = secret :: rest ∧
      sha256 secret = bytesOf 32 lockSecretHash.toNat ∧ c.runPlain (payTo redeemer) rest = some out := by
  have hsha : ∀ x st, c.plain ⟨OP_SHA256, []⟩ (x :: st) = some (sha256 x :: st) := fun _ _ => rfl
  have hpush : ∀ d st, c.plain ⟨32, d⟩ st = some (d :: st) := fun _ _ => rfl
  have hequal : ∀ x y st, c.plain ⟨OP_EQUALVERIFY, []⟩ (x :: y :: st) = if x = y then some st else none :=
    fun _ _ _ => rfl
  cases st with
  | nil =>
    have hnone : c.runPlain (secretBranch lockSecretHash redeemer) [] = none := rfl
    simp [hnone]
  | cons secret st =>
    simp only [secretBranch, List.cons_append, List.nil_append, Checks.runPlain, hsha, hpush, hequal, Option.bind_some]
    by_cases heq : bytesOf 32 lockSecretHash.toNat = sha256 secret
    · simp [heq]
    · simp only [if_neg heq, Option.bind_none, List.cons.injEq]
      constructor
      · intro h
        cases h
      · rintro ⟨secret', rest, ⟨rfl, rfl⟩, h, -⟩
        exact absurd h.symm heq

theorem runPlain_timeoutBranch_iff {push : Instr} {d : Bytes} (hpush : push.pushed = some d) :
    c.runPlain (timeoutBranch push refunded) st = some out ↔
      c.checkLockTime d = true ∧ c.runPlain (payTo refunded) st = some out := by
  have hplain : ∀ st, c.plain push st = some (d :: st) := fun st => by rw [Checks.plain, hpush]
  have htime : ∀ x st, c.plain ⟨OP_CHECKLOCKTIMEVERIFY, []⟩ (x :: st) =
      if c.checkLockTime x then some (x :: st) else none := fun _ _ => rfl
  have hdrop : ∀ x st, c.plain ⟨OP_DROP, []⟩ (x :: st) = some st := fun _ _ => rfl
  simp only [timeoutBranch, List.cons_append, List.nil_append, Checks.runPlain, hplain, htime, Option.bind_some]
  by_cases hlock : c.checkLockTime d = true
  · simp [hlock, hdrop]
  · simp [hlock]

theorem plain_payTo (h : PubKeyHash) : ∀ i ∈ payTo h, i.Plain := by
  simp [payTo, Instr.Plain, OP_DUP, OP_HASH160, OP_EQUALVERIFY, OP_CHECKSIG, OP_IF, OP_ELSE, OP_ENDIF]

theorem plain_secretBranch (lockSecretHash : Bytes32) (redeemer : PubKeyHash) :
    ∀ i ∈ secretBranch lockSecretHash redeemer, i.Plain := by
  rw [secretBranch, List.forall_mem_append]
  refine ⟨?_, plain_payTo redeemer⟩
  simp [Instr.Plain, OP_SHA256, OP_EQUALVERIFY, OP_IF, OP_ELSE, OP_ENDIF]

theorem plain_timeoutBranch {push : Instr} (hpush : push.Pushes) (refunded : PubKeyHash) :
    ∀ i ∈ timeoutBranch push refunded, i.Plain := by
  rw [timeoutBranch, List.forall_mem_append]
  refine ⟨?_, plain_payTo refunded⟩
  simp only [List.forall_mem_cons, List.not_mem_nil, false_imp_iff, implies_true, and_true]
  refine ⟨hpush.plain, ?_, ?_⟩
  · simp [Instr.Plain, OP_CHECKLOCKTIMEVERIFY, OP_IF, OP_ELSE, OP_ENDIF]
  · simp [Instr.Plain, OP_DROP, OP_IF, OP_ELSE, OP_ENDIF]

/-- The key and the signature on the stack are those of the holder of the hash. -/
def PaidTo (c : Checks) (h : PubKeyHash) (st : List Bytes) : Prop :=
  ∃ key sig rest, st = key :: sig :: rest ∧ c.hash160 key = bytesOf 20 h.toNat ∧ c.checkSig sig key = true

theorem pays_iff {h : PubKeyHash} :
    PaidTo c h st ↔ ∃ top rest, c.runPlain (payTo h) st = some (top :: rest) ∧ asBool top = true := by
  simp only [runPlain_payTo_iff, PaidTo]
  constructor
  · rintro ⟨key, sig, rest, rfl, hkey, hsig⟩
    exact ⟨_, rest, ⟨key, sig, rest, rfl, hkey, rfl⟩, by rw [asBool_fromBool, hsig]⟩
  · rintro ⟨top, rest, ⟨key, sig, rest', rfl, hkey, hout⟩, htop⟩
    obtain ⟨rfl, rfl⟩ := List.cons.inj hout
    exact ⟨key, sig, rest, rfl, hkey, by rw [← htop, asBool_fromBool]⟩

/-- The result of a script whose conditionals are all closed. -/
theorem succeeds_iff (out : Option (List Bytes)) :
    (out.map fun st => (⟨st, []⟩ : State)).any State.succeeds = true ↔
      ∃ top rest, out = some (top :: rest) ∧ asBool top = true := by
  rcases out with _ | _ | ⟨top, rest⟩
  · simp
  · simp [State.succeeds]
  · simp [State.succeeds]

/-- A true value on top of the stack selects the branch for the secret, and any other one that after the expiration. -/
theorem accepts_hashTimeLock (expiration : Int64) : ∃ d, ∀ (c : Checks) lockSecretHash redeemer refunded stack,
    c.accepts (hashTimeLock lockSecretHash redeemer expiration refunded) stack = true ↔
      ∃ selector st, stack = selector :: st ∧ if asBool selector then
        ∃ secret rest, st = secret :: rest ∧ sha256 secret = bytesOf 32 lockSecretHash.toNat ∧ PaidTo c redeemer rest
        else c.checkLockTime d = true ∧ PaidTo c refunded st := by
  obtain ⟨push, hpush, hparse⟩ := parse_hashTimeLock expiration
  obtain ⟨d, hd⟩ := hpush.pushed
  refine ⟨d, fun c lockSecretHash redeemer refunded stack => ?_⟩
  rw [Checks.accepts, hparse]
  cases stack with
  | nil =>
    have hnone : c.run (⟨OP_IF, []⟩ :: secretBranch lockSecretHash redeemer ++
        ⟨OP_ELSE, []⟩ :: timeoutBranch push refunded ++ [⟨OP_ENDIF, []⟩]) ⟨[], []⟩ = none := rfl
    dsimp only
    rw [hnone]
    simp
  | cons selector st =>
    dsimp only
    rw [run_ifElse (plain_secretBranch lockSecretHash redeemer) (plain_timeoutBranch hpush refunded), succeeds_iff]
    have hsel : (∃ selector' st', selector :: st = selector' :: st' ∧ if asBool selector' then
        ∃ secret rest, st' = secret :: rest ∧ sha256 secret = bytesOf 32 lockSecretHash.toNat ∧ PaidTo c redeemer rest
        else c.checkLockTime d = true ∧ PaidTo c refunded st') ↔ if asBool selector then
        ∃ secret rest, st = secret :: rest ∧ sha256 secret = bytesOf 32 lockSecretHash.toNat ∧ PaidTo c redeemer rest
        else c.checkLockTime d = true ∧ PaidTo c refunded st := by
      constructor
      · rintro ⟨selector', st', heq, h⟩
        obtain ⟨rfl, rfl⟩ := List.cons.inj heq
        exact h
      · exact fun h => ⟨selector, st, rfl, h⟩
    rw [hsel]
    cases asBool selector with
    | true =>
      simp only [if_true, runPlain_secretBranch_iff, pays_iff]
      constructor
      · rintro ⟨top, out, ⟨secret, rest, hst, hsha, hrun⟩, htop⟩
        exact ⟨secret, rest, hst, hsha, top, out, hrun, htop⟩
      · rintro ⟨secret, rest, hst, hsha, top, out, hrun, htop⟩
        exact ⟨top, out, ⟨secret, rest, hst, hsha, hrun⟩, htop⟩
    | false =>
      simp only [if_neg Bool.false_ne_true, runPlain_timeoutBranch_iff hd, pays_iff]
      constructor
      · rintro ⟨top, out, ⟨hlock, hrun⟩, htop⟩
        exact ⟨hlock, top, out, hrun, htop⟩
      · rintro ⟨hlock, top, out, hrun, htop⟩
        exact ⟨top, out, ⟨hlock, hrun⟩, htop⟩

/-- The script only pushes, and last the lock script, which accepts the rest. It runs the branch for the secret if
`secret`. -/
def Runs (c : Checks) (lock script : Bytes) (secret : Bool) : Prop :=
  ∃ is selector st, parse script = some is ∧ pushes is = some (lock :: selector :: st) ∧
    c.accepts lock (selector :: st) = true ∧ asBool selector = secret

/-- A script that runs the branch for the secret pushes a preimage of the hash. -/
theorem preimage_of_runs {script : Bytes}
    (h : Runs c (hashTimeLock lockSecretHash redeemer expiration refunded) script true) :
    ∃ is selector secret st, parse script = some is ∧
      pushes is = some (hashTimeLock lockSecretHash redeemer expiration refunded :: selector :: secret :: st) ∧
      sha256 secret = bytesOf 32 lockSecretHash.toNat := by
  obtain ⟨is, selector, st, hparse, hpushes, haccepts, hselector⟩ := h
  obtain ⟨d, hd⟩ := accepts_hashTimeLock expiration
  obtain ⟨selector', st', heq, hbranch⟩ := (hd c lockSecretHash redeemer refunded _).mp haccepts
  obtain ⟨rfl, rfl⟩ := List.cons.inj heq
  rw [if_pos hselector] at hbranch
  obtain ⟨secret, rest, rfl, hsha, -⟩ := hbranch
  exact ⟨is, selector, secret, rest, hparse, hpushes, hsha⟩

end Branches

section Spending

/-- The script of an input that adds what a builder gives to a signature and a key, and the lock script. -/
def sigScript (sig key added lock : Bytes) : Bytes := addData sig ++ addData key ++ added ++ addData lock

variable {sig key lock : Bytes}

theorem parse_sigScript_secret (hsig : 2 ≤ sig.length ∧ sig.length ≤ 75) (hkey : 2 ≤ key.length ∧ key.length ≤ 75)
    (hlock : 75 < lock.length ∧ lock.length ≤ 255) (secret : Bytes32) :
    parse (sigScript sig key (addData (bytesOf 32 secret.toNat) ++ [OP_1]) lock) =
      some [⟨UInt8.ofNat sig.length, sig⟩, ⟨UInt8.ofNat key.length, key⟩, ⟨32, bytesOf 32 secret.toNat⟩, ⟨OP_1, []⟩,
        ⟨OP_PUSHDATA1, lock⟩] := by
  have hend := next_addData_pushdata1 hlock.1 hlock.2 []
  rw [List.append_nil] at hend
  simp only [sigScript, List.append_assoc, List.cons_append, List.nil_append]
  rw [parse_of_next (next_addData hsig.1 hsig.2 _), parse_of_next (next_addData hkey.1 hkey.2 _),
    parse_bytesOf (by decide) (by decide), parse_opcode (by decide), parse_of_next hend]
  rfl

theorem parse_sigScript_timeout (hsig : 2 ≤ sig.length ∧ sig.length ≤ 75) (hkey : 2 ≤ key.length ∧ key.length ≤ 75)
    (hlock : 75 < lock.length ∧ lock.length ≤ 255) : parse (sigScript sig key [OP_0] lock) =
      some [⟨UInt8.ofNat sig.length, sig⟩, ⟨UInt8.ofNat key.length, key⟩, ⟨OP_0, []⟩, ⟨OP_PUSHDATA1, lock⟩] := by
  have hend := next_addData_pushdata1 hlock.1 hlock.2 []
  rw [List.append_nil] at hend
  have hzero : ∀ rest, next (OP_0 :: rest) = some (⟨OP_0, []⟩, rest) := fun rest => next_data (d := []) (by simp) rest
  simp only [sigScript, List.append_assoc, List.cons_append, List.nil_append]
  rw [parse_of_next (next_addData hsig.1 hsig.2 _), parse_of_next (next_addData hkey.1 hkey.2 _),
    parse_of_next (hzero _), parse_of_next hend]
  rfl

end Spending

end DistributedNotary.Btc

import DistributedNotary.Btc.LockScripts
import Mathlib.Data.List.Infix

/-! What the notaries read off a confirmed transaction that spends an output they
watch. The code looks at the first such input, writes its script out as text and
looks for a number before the text of the lock script. Which branch of the lock
script the input has run depends on the stack alone, so that the two agree only
for some of the scripts that spend the output. -/
namespace DistributedNotary.Btc

open Library Contracts Service
open Library.Script hiding Bytes sha256

abbrev Text := List Char

inductive OutpointUse where
  | toLockinOrCancel
  | toLockoutOrCancel
  | toPrepareLockout
  deriving DecidableEq

structure BTCOutpointRelevantInfo4PrepareLockout where
  userAddressPublicKeyHashHex : String
  mcExpiration : UInt64
  txOutLockScriptHex : String

/-- What is registered about an output. Every registration writes bytes out for `lockScriptHex`. -/
structure BTCOutpointRelevantInfo where
  use : OutpointUse
  secretHash : Bytes32
  lockScriptHex : Text
  isHex : ∃ b, lockScriptHex = hex b
  data4PrepareLockout : Option BTCOutpointRelevantInfo4PrepareLockout := none

structure TxIn where
  previousOutPoint : OutPoint
  signatureScript : Bytes

structure Tx where
  hash : String
  txIn : List TxIn
  txOut : List TxOut

structure PrepareLockoutEvent where
  blockNumber : UInt64
  secretHash : Bytes32
  txHashHex : String
  lockOutpointIndex : ℤ
  changeOutPointIndex : ℤ
  changeAmount : Int64
  userAddressHex : String
  mcExpiration : UInt64
  txInOutpoint : List OutPoint
  txOutLockScriptHex : String

/-- The events of a spent output. -/
inductive SpendEvent where
  | lockin (blockNumber : UInt64) (secretHash : Bytes32) (txHashStr : String) (txOuts : List TxOut)
  | cancelLockin (blockNumber : UInt64) (secretHash : Bytes32)
  | prepareLockout (event : PrepareLockoutEvent)
  | lockout (blockNumber : UInt64) (secret : Bytes32)
  | cancelLockout (blockNumber : UInt64) (secretHash : Bytes32)

def getOutpointKey (outpoint : OutPoint) : String := outpoint.hash ++ "-" ++ toString outpoint.index

section Hashes

/-- The value of a hexadecimal digit. -/
def hexValue (x : Char) : Option ℕ :=
  if '0' ≤ x ∧ x ≤ '9' then some (x.toNat - 48)
  else if 'a' ≤ x ∧ x ≤ 'f' then some (x.toNat - 87)
  else if 'A' ≤ x ∧ x ≤ 'F' then some (x.toNat - 55)
  else none

/-- The bytes up to the first character that is no digit. -/
def hex2Bytes : Text → Bytes
  | x :: y :: s =>
    match hexValue x, hexValue y with
    | some u, some v => UInt8.ofNat (16 * u + v) :: hex2Bytes s
    | _, _ => []
  | _ => []

def fromHex (s : Text) : Bytes :=
  let s := if s.take 2 = "0x".toList ∨ s.take 2 = "0X".toList then s.drop 2 else s
  hex2Bytes (if s.length % 2 = 1 then '0' :: s else s)

/-- The last bytes of a long list, and zeros before a short one. -/
def bytesToHash (b : Bytes) : Bytes32 := BitVec.ofNat 256 (ofBytes b)

def hexToHash (s : Text) : Bytes32 := bytesToHash (fromHex s)

theorem hexValue_hexDigit {n : ℕ} (h : n < 16) : hexValue (hexDigit n) = some n := by
  have hall : ∀ m < 16, hexValue (hexDigit m) = some m := by decide
  exact hall n h

theorem hex2Bytes_hex (b : Bytes) : hex2Bytes (hex b) = b := by
  induction b with
  | nil => rfl
  | cons x b ih =>
    have hx := x.toNat_lt
    have hcons : hex (x :: b) = hexDigit (x.toNat / 16) :: hexDigit (x.toNat % 16) :: hex b := rfl
    have hval : 16 * (x.toNat / 16) + x.toNat % 16 = x.toNat := Nat.div_add_mod _ _
    rw [hcons, hex2Bytes, hexValue_hexDigit (by omega), hexValue_hexDigit (by omega)]
    simp only [ih, hval, UInt8.ofNat_toNat]

/-- Bytes that are written out are read back; no byte is taken for the prefix of a number. -/
theorem fromHex_hex (b : Bytes) : fromHex (hex b) = b := by
  have hprefix : ∀ x, hexValue x = none → (hex b).take 2 ≠ ['0', x] := by
    intro x hx h
    cases b with
    | nil => cases h
    | cons y b =>
      have hcons : (hex (y :: b)).take 2 = [hexDigit (y.toNat / 16), hexDigit (y.toNat % 16)] := rfl
      rw [hcons, List.cons.injEq, List.cons.injEq] at h
      have hdigit := hexValue_hexDigit (Nat.mod_lt y.toNat (by decide : 0 < 16))
      rw [h.2.1, hx] at hdigit
      cases hdigit
  have h0x : ¬ ((hex b).take 2 = "0x".toList ∨ (hex b).take 2 = "0X".toList) := by
    rintro (h | h)
    · exact hprefix 'x' (by decide) h
    · exact hprefix 'X' (by decide) h
  have heven : ¬ (hex b).length % 2 = 1 := by
    rw [length_hex]
    omega
  simp only [fromHex, if_neg h0x, if_neg heven, hex2Bytes_hex]

theorem bytesToHash_bytesOf (h : Bytes32) : bytesToHash (bytesOf 32 h.toNat) = h := by
  have hlt : h.toNat % 256 ^ 32 = h.toNat := Nat.mod_eq_of_lt h.isLt
  rw [bytesToHash, ofBytes_bytesOf, hlt, BitVec.ofNat_toNat, BitVec.setWidth_eq]

/-- What the script compares are the hashes of the contracts, byte by byte. -/
theorem sha256_eq_of_script {s h : Bytes32} (heq : Script.sha256 (bytesOf 32 s.toNat) = bytesOf 32 h.toNat) :
    Contracts.sha256 s = h := by
  have hof := congrArg bytesToHash heq
  rw [bytesToHash_bytesOf, Script.sha256, map_toNat_bytesOf, bytesToHash, ofBytes_bytesOf] at hof
  rw [Contracts.sha256, ← hof]
  apply BitVec.eq_of_toNat_eq
  rw [BitVec.toNat_ofNat, BitVec.toNat_ofNat]
  exact (Nat.mod_mod _ _).symm

end Hashes

section Matching

variable (names : OpcodeNames) (txIn : TxIn) (info : BTCOutpointRelevantInfo)

/-- The text of the script, unless an instruction of it is cut off. -/
def disasmString (script : Bytes) : Option Text := (parse script).map (disasm names)

/-- Whether the text of the script contains the string. -/
def scriptContains (verifyStr : Text) : Bool :=
  match disasmString names txIn.signatureScript with
  | none => false
  | some signatureScriptStr => decide (verifyStr <:+: signatureScriptStr)

def isLockin : Bool :=
  if info.use ≠ .toLockinOrCancel then false else scriptContains names txIn (" 1 ".toList ++ info.lockScriptHex)

def isCancelPrepareLockin : Bool :=
  if info.use ≠ .toLockinOrCancel then false else scriptContains names txIn (" 0 ".toList ++ info.lockScriptHex)

def isPrepareLockout : Bool :=
  if info.use ≠ .toPrepareLockout then false else scriptContains names txIn info.lockScriptHex

/-- The secret if the input is that of a lockout. It is the third word of the script; a script of fewer words is read
out of its bounds. -/
def isLockout : Option (Option Bytes32) :=
  if info.use ≠ .toLockoutOrCancel then some none
  else
    match disasmString names txIn.signatureScript with
    | none => some none
    | some signatureScriptStr =>
      if "1 ".toList ++ info.lockScriptHex <:+: signatureScriptStr then
        (signatureScriptStr.splitOn ' ')[2]?.map fun s => some (hexToHash s)
      else some none

def isCancelPrepareLockout : Bool :=
  if info.use ≠ .toLockoutOrCancel then false else scriptContains names txIn ("0 ".toList ++ info.lockScriptHex)

end Matching

/-- The event reads the data for it through a pointer. -/
def createPrepareLockoutEvent (blockNumber : UInt64) (tx : Tx) (info : BTCOutpointRelevantInfo) :
    Option PrepareLockoutEvent :=
  info.data4PrepareLockout.map fun data =>
    { blockNumber := blockNumber
      secretHash := info.secretHash
      txHashHex := tx.hash
      lockOutpointIndex := if tx.txOut.length = 1 ∨ tx.txOut.length = 2 then 1 else 0
      changeOutPointIndex := if tx.txOut.length = 1 then -1 else 0
      changeAmount := if tx.txOut.length = 2 then ((tx.txOut.map TxOut.value).headD 0) else 0
      userAddressHex := data.userAddressPublicKeyHashHex
      mcExpiration := data.mcExpiration
      txInOutpoint := tx.txIn.map TxIn.previousOutPoint
      txOutLockScriptHex := data.txOutLockScriptHex }

structure BTCService where
  outpoint2VerifyHexMap : RangeMap String BTCOutpointRelevantInfo

namespace BTCService

variable (bs : BTCService)

def registerOutpoint (outpoint : OutPoint) (relevantInfo : BTCOutpointRelevantInfo) : BTCService where
  outpoint2VerifyHexMap := bs.outpoint2VerifyHexMap.insert (getOutpointKey outpoint) relevantInfo

/-- What is registered about the output that an input spends. -/
def relevantInfo (txIn : TxIn) : Option BTCOutpointRelevantInfo :=
  bs.outpoint2VerifyHexMap.lookup (getOutpointKey txIn.previousOutPoint)

/-- The first input that spends a registered output. -/
def firstRelevant (tx : Tx) : Option (TxIn × BTCOutpointRelevantInfo) :=
  tx.txIn.findSome? fun txIn => (bs.relevantInfo txIn).map (Prod.mk txIn)

/-- The events of a confirmed transaction, none if the code panics. -/
def createEventsFromTx (names : OpcodeNames) (blockNumber : Int32) (tx : Tx) : Option (List SpendEvent) :=
  let blockNumber := blockNumber.toInt64.toUInt64
  match bs.firstRelevant tx with
  | none => some []
  | some (txIn, info) =>
    if isLockin names txIn info then some [.lockin blockNumber info.secretHash tx.hash tx.txOut]
    else if isCancelPrepareLockin names txIn info then some [.cancelLockin blockNumber info.secretHash]
    else if isPrepareLockout names txIn info then
      (createPrepareLockoutEvent blockNumber tx info).map fun e => [.prepareLockout e]
    else
      match isLockout names txIn info with
      | none => none
      | some (some secret) => some [.lockout blockNumber secret]
      | some none =>
        if isCancelPrepareLockout names txIn info then some [.cancelLockout blockNumber info.secretHash] else some []

end BTCService

section Texts

variable {names : OpcodeNames} {is : List Instr} {w h : Text}

/-- An instruction of a kind stands before one whose text begins with `h`. -/
def Precedes (names : OpcodeNames) (p : Instr → Prop) (h : Text) (is : List Instr) : Prop :=
  ∃ l i j r, is = l ++ i :: j :: r ∧ p i ∧ h <+: j.text names

/-- An instruction of a kind that is not the first one stands before one whose text begins with `h`. -/
def PrecedesLater (names : OpcodeNames) (p : Instr → Prop) (h : Text) (is : List Instr) : Prop :=
  ∃ l i j r, is = l ++ i :: j :: r ∧ l ≠ [] ∧ p i ∧ h <+: j.text names

theorem not_precedes_singleton {p : Instr → Prop} (i : Instr) : ¬ Precedes names p h [i] := by
  rintro ⟨l, a, b, r, heq, -⟩
  have hlen := congrArg List.length heq
  simp at hlen
  omega

theorem precedes_cons_cons_iff {p : Instr → Prop} {i j : Instr} :
    Precedes names p h (i :: j :: is) ↔ p i ∧ h <+: j.text names ∨ Precedes names p h (j :: is) := by
  constructor
  · rintro ⟨l, a, b, r, heq, ha, hb⟩
    cases l with
    | nil =>
      obtain ⟨rfl, htail⟩ := List.cons.inj heq
      obtain ⟨rfl, -⟩ := List.cons.inj htail
      exact Or.inl ⟨ha, hb⟩
    | cons c l => exact Or.inr ⟨l, a, b, r, (List.cons.inj heq).2, ha, hb⟩
  · rintro (⟨hi, hj⟩ | ⟨l, a, b, r, heq, ha, hb⟩)
    · exact ⟨[], i, j, is, rfl, hi, hj⟩
    · exact ⟨i :: l, a, b, r, by rw [heq, List.cons_append], ha, hb⟩

theorem precedesLater_cons_iff {p : Instr → Prop} {i : Instr} :
    PrecedesLater names p h (i :: is) ↔ Precedes names p h is := by
  constructor
  · rintro ⟨l, a, b, r, heq, hne, ha, hb⟩
    cases l with
    | nil => exact absurd rfl hne
    | cons c l => exact ⟨l, a, b, r, (List.cons.inj heq).2, ha, hb⟩
  · rintro ⟨l, a, b, r, rfl, ha, hb⟩
    exact ⟨i :: l, a, b, r, rfl, List.cons_ne_nil _ _, ha, hb⟩

theorem noBlank_texts (names : OpcodeNames) (is : List Instr) : ∀ c ∈ is.map (Instr.text names), ' ' ∉ c := by
  intro c hc
  obtain ⟨i, -, rfl⟩ := List.mem_map.mp hc
  exact i.blank_notMem_text names

theorem infix_disasm_pair_iff (hw : ' ' ∉ w) (hh : ' ' ∉ h) :
    w ++ ' ' :: h <:+: disasm names is ↔ Precedes names (fun i => w <:+ i.text names) h is := by
  rw [disasm, pair_infix_unwords_iff (noBlank_texts names is) hw hh]
  constructor
  · rintro ⟨l, a, b, r, heq, ha, hb⟩
    obtain ⟨l', r', rfl, rfl, hr⟩ := List.map_eq_append_iff.mp heq
    obtain ⟨i, r'', rfl, rfl, htail⟩ := List.map_eq_cons_iff.mp hr
    obtain ⟨j, r', rfl, rfl, rfl⟩ := List.map_eq_cons_iff.mp htail
    exact ⟨l', i, j, r', rfl, ha, hb⟩
  · rintro ⟨l, i, j, r, rfl, hi, hj⟩
    exact ⟨l.map (Instr.text names), i.text names, j.text names, r.map (Instr.text names), by simp, hi, hj⟩

theorem infix_disasm_word_iff (hw : ' ' ∉ w) (hh : ' ' ∉ h) :
    ' ' :: (w ++ ' ' :: h) <:+: disasm names is ↔ PrecedesLater names (fun i => i.text names = w) h is := by
  rw [disasm, word_infix_unwords_iff (noBlank_texts names is) hw hh]
  constructor
  · rintro ⟨l, b, r, heq, hne, hb⟩
    obtain ⟨l', r', rfl, rfl, hr⟩ := List.map_eq_append_iff.mp heq
    obtain ⟨i, r'', rfl, hi, htail⟩ := List.map_eq_cons_iff.mp hr
    obtain ⟨j, r', rfl, rfl, rfl⟩ := List.map_eq_cons_iff.mp htail
    exact ⟨l', i, j, r', rfl, fun h => hne (by rw [h]; rfl), hi, hb⟩
  · rintro ⟨l, i, j, r, rfl, hne, rfl, hj⟩
    exact ⟨l.map (Instr.text names), j.text names, r.map (Instr.text names), by simp, by simpa using hne, hj⟩

end Texts

section Reading

variable {names : OpcodeNames} {txIn : TxIn} {info : BTCOutpointRelevantInfo} {is : List Instr}

theorem noBlank_lockScriptHex (info : BTCOutpointRelevantInfo) : ' ' ∉ info.lockScriptHex := by
  obtain ⟨b, hb⟩ := info.isHex
  rw [hb]
  exact blank_notMem_hex b

theorem scriptContains_iff {verifyStr : Text} : scriptContains names txIn verifyStr = true ↔
    ∃ is, parse txIn.signatureScript = some is ∧ verifyStr <:+: disasm names is := by
  rw [scriptContains, disasmString]
  rcases parse txIn.signatureScript with _ | is
  · simp
  · simp

theorem isLockin_iff (huse : info.use = .toLockinOrCancel) : isLockin names txIn info = true ↔
    ∃ is, parse txIn.signatureScript = some is ∧
      PrecedesLater names (fun i => i.opcode = OP_1) info.lockScriptHex is := by
  have hone : (fun i : Instr => i.opcode = OP_1) = fun i => i.text names = ['1'] :=
    funext fun i => propext (i.text_eq_one_iff names).symm
  have hblank : ' ' ∉ ['1'] := by decide
  rw [isLockin, if_neg (by simp [huse]), scriptContains_iff, hone]
  exact exists_congr fun is => and_congr_right' (infix_disasm_word_iff hblank (noBlank_lockScriptHex info))

theorem isCancelPrepareLockin_iff (huse : info.use = .toLockinOrCancel) : isCancelPrepareLockin names txIn info = true ↔
    ∃ is, parse txIn.signatureScript = some is ∧
      PrecedesLater names (fun i => i.opcode = OP_0) info.lockScriptHex is := by
  have hzero : (fun i : Instr => i.opcode = OP_0) = fun i => i.text names = ['0'] :=
    funext fun i => propext (i.text_eq_zero_iff names).symm
  have hblank : ' ' ∉ ['0'] := by decide
  rw [isCancelPrepareLockin, if_neg (by simp [huse]), scriptContains_iff, hzero]
  exact exists_congr fun is => and_congr_right' (infix_disasm_word_iff hblank (noBlank_lockScriptHex info))

theorem isCancelPrepareLockout_iff (huse : info.use = .toLockoutOrCancel) :
    isCancelPrepareLockout names txIn info = true ↔ ∃ is, parse txIn.signatureScript = some is ∧
      Precedes names (fun i => ['0'] <:+ i.text names) info.lockScriptHex is := by
  have hblank : ' ' ∉ ['0'] := by decide
  rw [isCancelPrepareLockout, if_neg (by simp [huse]), scriptContains_iff]
  exact exists_congr fun is => and_congr_right' (infix_disasm_pair_iff hblank (noBlank_lockScriptHex info))

/-- The text after which a script is read as a lockout. -/
theorem infix_lockout_iff (info : BTCOutpointRelevantInfo) (is : List Instr) :
    "1 ".toList ++ info.lockScriptHex <:+: disasm names is ↔
      Precedes names (fun i => ['1'] <:+ i.text names) info.lockScriptHex is :=
  infix_disasm_pair_iff (w := ['1']) (by decide) (noBlank_lockScriptHex info)

theorem isLockout_of_precedes (huse : info.use = .toLockoutOrCancel) (hparse : parse txIn.signatureScript = some is)
    (h : Precedes names (fun i => ['1'] <:+ i.text names) info.lockScriptHex is) :
    isLockout names txIn info = is[2]?.map fun i => some (hexToHash (i.text names)) := by
  have hne : is.map (Instr.text names) ≠ [] := by
    obtain ⟨l, i, j, r, rfl, -⟩ := h
    simp
  have hsplit : (disasm names is).splitOn ' ' = is.map (Instr.text names) :=
    splitOn_unwords (noBlank_texts names is) hne
  rw [isLockout, if_neg (by simp [huse]), disasmString, hparse]
  simp only [Option.map_some, if_pos ((infix_lockout_iff info is).mpr h), hsplit, List.getElem?_map, Option.map_map]
  rfl

theorem isLockout_of_not_precedes
    (h : ∀ is, parse txIn.signatureScript = some is → ¬ Precedes names (fun i => ['1'] <:+ i.text names)
      info.lockScriptHex is) : isLockout names txIn info = some none := by
  rw [isLockout]
  split
  · rfl
  · rw [disasmString]
    rcases hparse : parse txIn.signatureScript with _ | is
    · rfl
    · simp only [Option.map_some, if_neg fun hinfix => h is hparse ((infix_lockout_iff info is).mp hinfix)]

end Reading

/-- The output is locked by the script that is registered for it, with the hash that is registered. -/
inductive Locked (info : BTCOutpointRelevantInfo) : Bytes → Prop
  | lockin (b : PrepareLockInScriptBuilder) (huse : info.use = .toLockinOrCancel)
      (hhash : b.lockSecretHash = info.secretHash) (hhex : info.lockScriptHex = hex b.getPKScript) :
      Locked info b.getPKScript
  | lockout (b : PrepareLockOutScriptBuilder) (huse : info.use = .toLockoutOrCancel)
      (hhash : b.lockSecretHash = info.secretHash) (hhex : info.lockScriptHex = hex b.getPKScript) :
      Locked info b.getPKScript

/-- The event of a branch of the lock script. -/
def EventOf (use : OutpointUse) (secret : Bool) (blockNumber : UInt64) (secretHash : Bytes32) (tx : Tx)
    (e : SpendEvent) : Prop :=
  match use, secret with
  | .toLockinOrCancel, true => e = .lockin blockNumber secretHash tx.hash tx.txOut
  | .toLockinOrCancel, false => e = .cancelLockin blockNumber secretHash
  | .toLockoutOrCancel, true => ∃ s, Contracts.sha256 s = secretHash ∧ e = .lockout blockNumber s
  | .toLockoutOrCancel, false => e = .cancelLockout blockNumber secretHash
  | .toPrepareLockout, _ => False

/-- The script shows a branch in the place where the code looks. In the script of a lockin, the instruction that pushes
one, or else the one that pushes nothing, stands before the lock script. In that of a lockout, an instruction whose text
ends in one, or else in zero, stands before the lock script, and the third instruction is a preimage. -/
def Shows (names : OpcodeNames) (info : BTCOutpointRelevantInfo) (secret : Bool) (secretHash : Bytes32)
    (is : List Instr) : Prop :=
  match info.use, secret with
  | .toLockinOrCancel, true =>
    info.secretHash = secretHash ∧ PrecedesLater names (fun i => i.opcode = OP_1) info.lockScriptHex is
  | .toLockinOrCancel, false =>
    info.secretHash = secretHash ∧ PrecedesLater names (fun i => i.opcode = OP_0) info.lockScriptHex is ∧
      ¬ PrecedesLater names (fun i => i.opcode = OP_1) info.lockScriptHex is
  | .toLockoutOrCancel, true =>
    Precedes names (fun i => ['1'] <:+ i.text names) info.lockScriptHex is ∧
      ∃ i, is[2]? = some i ∧ Contracts.sha256 (hexToHash (i.text names)) = secretHash
  | .toLockoutOrCancel, false =>
    info.secretHash = secretHash ∧ Precedes names (fun i => ['0'] <:+ i.text names) info.lockScriptHex is ∧
      ¬ Precedes names (fun i => ['1'] <:+ i.text names) info.lockScriptHex is
  | .toPrepareLockout, _ => False

section Branches

variable {names : OpcodeNames} {info : BTCOutpointRelevantInfo} {is : List Instr} {use : OutpointUse} {secret : Bool}
  {blockNumber : UInt64} {secretHash h s : Bytes32} {tx : Tx}

theorem eventOf_lockin_iff : EventOf use secret blockNumber secretHash tx (.lockin blockNumber h tx.hash tx.txOut) ↔
    use = .toLockinOrCancel ∧ secret = true ∧ h = secretHash := by
  cases use <;> cases secret <;> simp [EventOf]

theorem eventOf_cancelLockin_iff : EventOf use secret blockNumber secretHash tx (.cancelLockin blockNumber h) ↔
    use = .toLockinOrCancel ∧ secret = false ∧ h = secretHash := by
  cases use <;> cases secret <;> simp [EventOf]

theorem eventOf_lockout_iff : EventOf use secret blockNumber secretHash tx (.lockout blockNumber s) ↔
    use = .toLockoutOrCancel ∧ secret = true ∧ Contracts.sha256 s = secretHash := by
  cases use <;> cases secret <;> simp [EventOf]

theorem eventOf_cancelLockout_iff : EventOf use secret blockNumber secretHash tx (.cancelLockout blockNumber h) ↔
    use = .toLockoutOrCancel ∧ secret = false ∧ h = secretHash := by
  cases use <;> cases secret <;> simp [EventOf]

theorem shows_of_lockin (huse : info.use = .toLockinOrCancel) : Shows names info secret secretHash is ↔
    info.secretHash = secretHash ∧ if secret then PrecedesLater names (fun i => i.opcode = OP_1) info.lockScriptHex is
      else PrecedesLater names (fun i => i.opcode = OP_0) info.lockScriptHex is ∧
        ¬ PrecedesLater names (fun i => i.opcode = OP_1) info.lockScriptHex is := by
  cases secret <;> simp [Shows, huse]

theorem shows_of_lockout (huse : info.use = .toLockoutOrCancel) : Shows names info secret secretHash is ↔
    if secret then Precedes names (fun i => ['1'] <:+ i.text names) info.lockScriptHex is ∧
        ∃ i, is[2]? = some i ∧ Contracts.sha256 (hexToHash (i.text names)) = secretHash
      else info.secretHash = secretHash ∧ Precedes names (fun i => ['0'] <:+ i.text names) info.lockScriptHex is ∧
        ¬ Precedes names (fun i => ['1'] <:+ i.text names) info.lockScriptHex is := by
  cases secret <;> simp [Shows, huse]

end Branches

section Builders

variable {names : OpcodeNames} {info : BTCOutpointRelevantInfo} {key lock : Bytes}

theorem exists_hashTimeLock (h : Locked info lock) :
    ∃ redeemer expiration refunded, lock = hashTimeLock info.secretHash redeemer expiration refunded := by
  cases h with
  | lockin b huse hhash hhex => exact ⟨_, _, _, by rw [← hhash, PrepareLockInScriptBuilder.getPKScript]⟩
  | lockout b huse hhash hhex => exact ⟨_, _, _, by rw [← hhash, PrepareLockOutScriptBuilder.getPKScript]⟩

theorem not_prefix_of_length {b : Bytes} (hhex : info.lockScriptHex = hex lock) (hlen : b.length < lock.length) :
    ¬ info.lockScriptHex <+: hex b := by
  intro h
  have hle := h.length_le
  rw [hhex, length_hex, length_hex] at hle
  omega

theorem text_push {d : Bytes} (h : 2 ≤ d.length ∧ d.length ≤ 75) :
    Instr.text names ⟨UInt8.ofNat d.length, d⟩ = hex d := by
  have hnat : (UInt8.ofNat d.length).toNat = d.length := by
    rw [UInt8.toNat_ofNat']
    omega
  have h0 : ¬ UInt8.ofNat d.length = OP_0 := by
    intro heq
    have hzero : d.length = 0 := by rw [← hnat, heq]; rfl
    omega
  rw [Instr.text, if_neg h0, if_pos (UInt8.le_trans (ofNat_le_of_le h.2) (by decide))]

theorem text_lock (lock : Bytes) : Instr.text names ⟨OP_PUSHDATA1, lock⟩ = hex lock := rfl

/-- The script that reveals a secret as its builder writes it shows the branch for the secret. -/
theorem shows_of_secret (hlocked : Locked info lock) {secret : Bytes32}
    (hsecret : Contracts.sha256 secret = info.secretHash)
    (i j : Instr) : Shows names info true info.secretHash
      [i, j, ⟨32, bytesOf 32 secret.toNat⟩, ⟨OP_1, []⟩, ⟨OP_PUSHDATA1, lock⟩] := by
  have hone : Instr.text names ⟨OP_1, []⟩ = ['1'] := (Instr.text_eq_one_iff names _).mpr rfl
  have hlast : ∀ h, h = hex lock → h <+: Instr.text names ⟨OP_PUSHDATA1, lock⟩ := by
    rintro h rfl
    exact List.prefix_refl _
  have hthird : hexToHash (Instr.text names ⟨32, bytesOf 32 secret.toNat⟩) = secret := by
    have htext : Instr.text names ⟨32, bytesOf 32 secret.toNat⟩ = hex (bytesOf 32 secret.toNat) := by
      have h0 : ¬ (32 : UInt8) = OP_0 := by decide
      have h4 : (32 : UInt8) ≤ OP_PUSHDATA4 := by decide
      rw [Instr.text, if_neg h0, if_pos h4]
    rw [htext, hexToHash, fromHex_hex, bytesToHash_bytesOf]
  cases hlocked with
  | lockin b huse hhash hhex =>
    rw [shows_of_lockin huse, if_pos rfl]
    exact ⟨rfl, [i, j, ⟨32, bytesOf 32 secret.toNat⟩], _, _, [], rfl, List.cons_ne_nil _ _, rfl, hlast _ hhex⟩
  | lockout b huse hhash hhex =>
    rw [shows_of_lockout huse, if_pos rfl]
    refine ⟨⟨[i, j, ⟨32, bytesOf 32 secret.toNat⟩], _, _, [], rfl, ?_, hlast _ hhex⟩, _, rfl, ?_⟩
    · show ['1'] <:+ Instr.text names ⟨OP_1, []⟩
      rw [hone]
    · rw [hthird, hsecret]

/-- The script that gets the output back as its builder writes it shows the branch after the expiration. -/
theorem shows_of_timeout (hlocked : Locked info lock) (hkey : 2 ≤ key.length ∧ key.length ≤ 75)
    (hlen : 75 < lock.length) (i : Instr) : Shows names info false info.secretHash
      [i, ⟨UInt8.ofNat key.length, key⟩, ⟨OP_0, []⟩, ⟨OP_PUSHDATA1, lock⟩] := by
  have hzero : Instr.text names ⟨OP_0, []⟩ = ['0'] := (Instr.text_eq_zero_iff names _).mpr rfl
  have hkeyText : info.lockScriptHex = hex lock →
      ¬ info.lockScriptHex <+: Instr.text names ⟨UInt8.ofNat key.length, key⟩ := by
    intro hhex
    rw [text_push hkey]
    exact not_prefix_of_length hhex (by omega)
  have hzeroText : info.lockScriptHex = hex lock → ¬ info.lockScriptHex <+: ['0'] := by
    intro hhex h
    have hle := h.length_le
    rw [hhex, length_hex, List.length_singleton] at hle
    omega
  have hlast : info.lockScriptHex = hex lock → info.lockScriptHex <+: Instr.text names ⟨OP_PUSHDATA1, lock⟩ := by
    intro hhex
    rw [hhex, text_lock]
  have hends : ¬ ['1'] <:+ ['0'] := by decide
  cases hlocked with
  | lockin b huse hhash hhex =>
    rw [shows_of_lockin huse, if_neg Bool.false_ne_true]
    refine ⟨rfl, ?_, ?_⟩
    · exact ⟨[_, _], _, _, [], rfl, List.cons_ne_nil _ _, rfl, hlast hhex⟩
    · have hne : ¬ OP_0 = OP_1 := by decide
      simp only [precedesLater_cons_iff, precedes_cons_cons_iff, not_precedes_singleton, hzero, hzeroText hhex, hne,
        and_false, false_and, or_false, not_false_eq_true]
  | lockout b huse hhash hhex =>
    rw [shows_of_lockout huse, if_neg Bool.false_ne_true]
    refine ⟨rfl, ?_, ?_⟩
    · refine ⟨[_, _], _, _, [], rfl, ?_, hlast hhex⟩
      show ['0'] <:+ Instr.text names ⟨OP_0, []⟩
      rw [hzero]
    · simp only [precedes_cons_cons_iff, not_precedes_singleton, hzero, hkeyText hhex, hzeroText hhex, hends, and_false,
        false_and, or_false, not_false_eq_true]

end Builders

namespace BTCService

variable {bs : BTCService} {names : OpcodeNames} {blockNumber : Int32} {tx : Tx} {txIn : TxIn}
  {info : BTCOutpointRelevantInfo}

section Events

theorem createEventsFromTx_of_lockin (h : bs.firstRelevant tx = some (txIn, info))
    (huse : info.use = .toLockinOrCancel) : bs.createEventsFromTx names blockNumber tx =
      if isLockin names txIn info then
        some [.lockin blockNumber.toInt64.toUInt64 info.secretHash tx.hash tx.txOut]
      else if isCancelPrepareLockin names txIn info then
        some [.cancelLockin blockNumber.toInt64.toUInt64 info.secretHash]
      else some [] := by
  have hprepare : isPrepareLockout names txIn info = false := by simp [isPrepareLockout, huse]
  have hlockout : isLockout names txIn info = some none := by simp [isLockout, huse]
  have hcancel : isCancelPrepareLockout names txIn info = false := by simp [isCancelPrepareLockout, huse]
  simp only [createEventsFromTx, h, hprepare, hlockout, hcancel, if_neg Bool.false_ne_true]

theorem createEventsFromTx_of_lockout (h : bs.firstRelevant tx = some (txIn, info))
    (huse : info.use = .toLockoutOrCancel) : bs.createEventsFromTx names blockNumber tx =
      (isLockout names txIn info).bind fun secret => secret.elim
        (if isCancelPrepareLockout names txIn info then
          some [.cancelLockout blockNumber.toInt64.toUInt64 info.secretHash]
        else some [])
        fun secret => some [.lockout blockNumber.toInt64.toUInt64 secret] := by
  have hlockin : isLockin names txIn info = false := by simp [isLockin, huse]
  have hcancel : isCancelPrepareLockin names txIn info = false := by simp [isCancelPrepareLockin, huse]
  have hprepare : isPrepareLockout names txIn info = false := by simp [isPrepareLockout, huse]
  simp only [createEventsFromTx, h, hlockin, hcancel, hprepare, if_neg Bool.false_ne_true]
  rcases isLockout names txIn info with _ | _ | secret <;> rfl

/-- The other registered outputs have no event but that of the prepared lockout. -/
theorem event_of_prepareLockout {e : SpendEvent} (h : bs.firstRelevant tx = some (txIn, info))
    (huse : info.use = .toPrepareLockout) (he : bs.createEventsFromTx names blockNumber tx = some [e]) :
    ∃ p, e = .prepareLockout p := by
  have hlockin : isLockin names txIn info = false := by simp [isLockin, huse]
  have hcancel : isCancelPrepareLockin names txIn info = false := by simp [isCancelPrepareLockin, huse]
  have hlockout : isLockout names txIn info = some none := by simp [isLockout, huse]
  have hcancel' : isCancelPrepareLockout names txIn info = false := by simp [isCancelPrepareLockout, huse]
  simp only [createEventsFromTx, h, hlockin, hcancel, hlockout, hcancel', if_neg Bool.false_ne_true] at he
  split at he
  · obtain ⟨p, -, hp⟩ := Option.map_eq_some_iff.mp he
    exact ⟨p, (List.cons.inj hp).1.symm⟩
  · simp at he

end Events

section Classification

variable (bs names blockNumber tx) in
/-- The transaction has one event, and that is the one of the branch. -/
def Emits (use : OutpointUse) (secret : Bool) (secretHash : Bytes32) : Prop :=
  ∃ e, bs.createEventsFromTx names blockNumber tx = some [e] ∧
    EventOf use secret blockNumber.toInt64.toUInt64 secretHash tx e

variable (bs names tx) in
/-- The first input that spends a registered output spends one of the same use, and its script shows the branch. -/
def Legible (use : OutpointUse) (secret : Bool) (secretHash : Bytes32) : Prop :=
  ∃ first info is, bs.firstRelevant tx = some (first, info) ∧ info.use = use ∧
    parse first.signatureScript = some is ∧ Shows names info secret secretHash is

variable {use : OutpointUse} {secret : Bool} {secretHash : Bytes32}

theorem emits_of_eq {e : SpendEvent} (h : bs.createEventsFromTx names blockNumber tx = some [e]) :
    bs.Emits names blockNumber tx use secret secretHash ↔
      EventOf use secret blockNumber.toInt64.toUInt64 secretHash tx e := by
  constructor
  · rintro ⟨e', he', hevent⟩
    rw [h, Option.some.injEq, List.cons.injEq] at he'
    exact he'.1 ▸ hevent
  · exact fun hevent => ⟨e, h, hevent⟩

theorem not_emits_of_nil (h : bs.createEventsFromTx names blockNumber tx = some []) :
    ¬ bs.Emits names blockNumber tx use secret secretHash := by
  rintro ⟨e, he, -⟩
  rw [h] at he
  cases he

theorem not_emits_of_none (h : bs.createEventsFromTx names blockNumber tx = none) :
    ¬ bs.Emits names blockNumber tx use secret secretHash := by
  rintro ⟨e, he, -⟩
  rw [h] at he
  cases he

/-- The events of the first input when it is registered for a lockin. -/
theorem emits_lockin_iff (h : bs.firstRelevant tx = some (txIn, info)) (huse : info.use = .toLockinOrCancel) :
    bs.Emits names blockNumber tx use secret secretHash ↔ info.use = use ∧
      ∃ is, parse txIn.signatureScript = some is ∧ Shows names info secret secretHash is := by
  have hcreate := @createEventsFromTx_of_lockin bs names blockNumber tx txIn info h huse
  simp only [shows_of_lockin huse]
  by_cases hone : isLockin names txIn info = true
  · rw [if_pos hone] at hcreate
    obtain ⟨is, hparse, hshows⟩ := (isLockin_iff huse).mp hone
    rw [emits_of_eq hcreate, eventOf_lockin_iff, huse, hparse]
    cases secret <;> simp [hshows, @eq_comm _ use]
  · rw [if_neg hone] at hcreate
    rw [isLockin_iff huse] at hone
    by_cases hzero : isCancelPrepareLockin names txIn info = true
    · rw [if_pos hzero] at hcreate
      obtain ⟨is, hparse, hshows⟩ := (isCancelPrepareLockin_iff huse).mp hzero
      have hnot : ¬ PrecedesLater names (fun i => i.opcode = OP_1) info.lockScriptHex is := fun hlater =>
        hone ⟨is, hparse, hlater⟩
      rw [emits_of_eq hcreate, eventOf_cancelLockin_iff, huse, hparse]
      cases secret <;> simp [hshows, hnot, @eq_comm _ use]
    · rw [if_neg hzero] at hcreate
      rw [isCancelPrepareLockin_iff huse] at hzero
      refine iff_of_false (not_emits_of_nil hcreate) ?_
      rintro ⟨-, is, hparse, -, hshows⟩
      cases secret with
      | true => exact hone ⟨is, hparse, hshows⟩
      | false => exact hzero ⟨is, hparse, hshows.1⟩

/-- The events of the first input when it is registered for a lockout. -/
theorem emits_lockout_iff (h : bs.firstRelevant tx = some (txIn, info)) (huse : info.use = .toLockoutOrCancel) :
    bs.Emits names blockNumber tx use secret secretHash ↔ info.use = use ∧
      ∃ is, parse txIn.signatureScript = some is ∧ Shows names info secret secretHash is := by
  have hcreate := @createEventsFromTx_of_lockout bs names blockNumber tx txIn info h huse
  simp only [shows_of_lockout huse]
  by_cases hone : ∃ is, parse txIn.signatureScript = some is ∧
      Precedes names (fun i => ['1'] <:+ i.text names) info.lockScriptHex is
  · obtain ⟨is, hparse, hshows⟩ := hone
    rw [isLockout_of_precedes huse hparse hshows] at hcreate
    rcases hthird : is[2]? with _ | i
    · rw [hthird] at hcreate
      refine iff_of_false (not_emits_of_none hcreate) ?_
      rintro ⟨-, is', hparse', hbranch⟩
      cases hparse.symm.trans hparse'
      cases secret with
      | true =>
        obtain ⟨-, i, hi, -⟩ := hbranch
        cases hthird.symm.trans hi
      | false => exact hbranch.2.2 hshows
    · rw [hthird] at hcreate
      rw [emits_of_eq hcreate, eventOf_lockout_iff, huse, hparse]
      cases secret <;> simp [hshows, hthird, @eq_comm _ use]
  · have hnone : isLockout names txIn info = some none :=
      isLockout_of_not_precedes fun is hparse hshows => hone ⟨is, hparse, hshows⟩
    rw [hnone] at hcreate
    by_cases hzero : isCancelPrepareLockout names txIn info = true
    · have hcreate' : bs.createEventsFromTx names blockNumber tx =
          some [.cancelLockout blockNumber.toInt64.toUInt64 info.secretHash] := by simpa [hzero] using hcreate
      obtain ⟨is, hparse, hshows⟩ := (isCancelPrepareLockout_iff huse).mp hzero
      have hnot : ¬ Precedes names (fun i => ['1'] <:+ i.text names) info.lockScriptHex is := fun hprecedes =>
        hone ⟨is, hparse, hprecedes⟩
      rw [emits_of_eq hcreate', eventOf_cancelLockout_iff, huse, hparse]
      cases secret <;> simp [hshows, hnot, @eq_comm _ use]
    · have hcreate' : bs.createEventsFromTx names blockNumber tx = some [] := by simpa [hzero] using hcreate
      rw [isCancelPrepareLockout_iff huse] at hzero
      refine iff_of_false (not_emits_of_nil hcreate') ?_
      rintro ⟨-, is, hparse, hbranch⟩
      cases secret with
      | true => exact hone ⟨is, hparse, hbranch.1⟩
      | false => exact hzero ⟨is, hparse, hbranch.2.1⟩

/-- The event is that of the branch exactly if the branch is shown. -/
theorem emits_iff_legible : bs.Emits names blockNumber tx use secret secretHash ↔
    bs.Legible names tx use secret secretHash := by
  rcases hfirst : bs.firstRelevant tx with _ | ⟨txIn, info⟩
  · have hcreate : bs.createEventsFromTx names blockNumber tx = some [] := by simp only [createEventsFromTx, hfirst]
    refine iff_of_false (not_emits_of_nil hcreate) ?_
    rintro ⟨first, info, is, h, -⟩
    cases hfirst.symm.trans h
  · have hlegible : bs.Legible names tx use secret secretHash ↔ info.use = use ∧
        ∃ is, parse txIn.signatureScript = some is ∧ Shows names info secret secretHash is := by
      constructor
      · rintro ⟨first, info', is, h, huse, hparse, hshows⟩
        cases hfirst.symm.trans h
        exact ⟨huse, is, hparse, hshows⟩
      · rintro ⟨huse, is, hparse, hshows⟩
        exact ⟨txIn, info, is, hfirst, huse, hparse, hshows⟩
    rw [hlegible]
    rcases huse : info.use with _ | _ | _
    · rw [← huse]
      exact emits_lockin_iff hfirst huse
    · rw [← huse]
      exact emits_lockout_iff hfirst huse
    · refine iff_of_false ?_ ?_
      · rintro ⟨e, he, hevent⟩
        obtain ⟨p, rfl⟩ := event_of_prepareLockout hfirst huse he
        cases use <;> cases secret <;> simp [EventOf] at hevent
      · rintro ⟨-, is, -, hshows⟩
        cases secret <;> simp [Shows, huse] at hshows

end Classification

section Spends

variable {lock sig key : Bytes} {c : Checks}

/-- A preimage that a branch was run with is one of the registered hash. -/
theorem sha256_of_runs (hlocked : Locked info lock) {secret : Bytes32} {i j : Instr} {d d' : Bytes} {script : Bytes}
    (hi : i.pushed = some d) (hj : j.pushed = some d')
    (hparse : parse script = some [i, j, ⟨32, bytesOf 32 secret.toNat⟩, ⟨OP_1, []⟩, ⟨OP_PUSHDATA1, lock⟩])
    (hruns : Runs c lock script true) : Contracts.sha256 secret = info.secretHash := by
  obtain ⟨redeemer, expiration, refunded, rfl⟩ := exists_hashTimeLock hlocked
  obtain ⟨is, selector, secret', st, hparse', hpushes, hsha⟩ := preimage_of_runs hruns
  cases hparse.symm.trans hparse'
  have hsecret : Instr.pushed ⟨32, bytesOf 32 secret.toNat⟩ = some (bytesOf 32 secret.toNat) := by
    have h4 : (32 : UInt8) ≤ OP_PUSHDATA4 := by decide
    rw [Instr.pushed, if_pos h4]
  have hone : Instr.pushed ⟨OP_1, []⟩ = some [1] := by decide
  have hlast : ∀ b, Instr.pushed ⟨OP_PUSHDATA1, b⟩ = some b := fun b => by
    have h4 : OP_PUSHDATA1 ≤ OP_PUSHDATA4 := by decide
    rw [Instr.pushed, if_pos h4]
  simp only [pushes, List.mapM_cons, List.mapM_nil, hi, hj, hsecret, hone, hlast, Option.pure_def, Option.bind_eq_bind,
    Option.bind_some, Option.map_some, Option.some.injEq, List.reverse_cons, List.reverse_nil, List.nil_append,
    List.cons_append, List.cons.injEq] at hpushes
  obtain ⟨-, -, rfl, -⟩ := hpushes
  exact sha256_eq_of_script hsha

/-- An input that reveals the secret with the script of the builder gives the event of the secret. -/
theorem emits_of_secret (hfirst : bs.firstRelevant tx = some (txIn, info)) (hlocked : Locked info lock)
    (hsig : 2 ≤ sig.length ∧ sig.length ≤ 75) (hkey : 2 ≤ key.length ∧ key.length ≤ 75) {secret : Bytes32}
    (hscript : txIn.signatureScript = sigScript sig key (addData (bytesOf 32 secret.toNat) ++ [OP_1]) lock)
    (hruns : Runs c lock txIn.signatureScript true) :
    bs.Emits names blockNumber tx info.use true info.secretHash := by
  obtain ⟨redeemer, expiration, refunded, hlock⟩ := exists_hashTimeLock hlocked
  have hlen := length_hashTimeLock info.secretHash redeemer refunded expiration
  rw [← hlock] at hlen
  have hparse := parse_sigScript_secret hsig hkey hlen secret
  rw [← hscript] at hparse
  have hpushed : ∀ {d : Bytes}, d.length ≤ 75 → Instr.pushed ⟨UInt8.ofNat d.length, d⟩ = some d := fun h => by
    rw [Instr.pushed, if_pos (UInt8.le_trans (ofNat_le_of_le h) (by decide))]
  have hsha := sha256_of_runs hlocked (hpushed hsig.2) (hpushed hkey.2) hparse hruns
  exact emits_iff_legible.mpr ⟨txIn, info, _, hfirst, rfl, hparse, shows_of_secret hlocked hsha _ _⟩

/-- An input that gets the output back with the script of the builder gives the event of the cancellation. -/
theorem emits_of_timeout (hfirst : bs.firstRelevant tx = some (txIn, info)) (hlocked : Locked info lock)
    (hsig : 2 ≤ sig.length ∧ sig.length ≤ 75) (hkey : 2 ≤ key.length ∧ key.length ≤ 75)
    (hscript : txIn.signatureScript = sigScript sig key [OP_0] lock) :
    bs.Emits names blockNumber tx info.use false info.secretHash := by
  obtain ⟨redeemer, expiration, refunded, hlock⟩ := exists_hashTimeLock hlocked
  have hlen := length_hashTimeLock info.secretHash redeemer refunded expiration
  rw [← hlock] at hlen
  have hparse := parse_sigScript_timeout hsig hkey hlen
  rw [← hscript] at hparse
  exact emits_iff_legible.mpr ⟨txIn, info, _, hfirst, rfl, hparse, shows_of_timeout hlocked hkey hlen.1 _⟩

variable (bs names blockNumber tx)

/-- Every input that spends a registered lock, and runs a branch of it, gives the event of that branch. -/
def Classifies (checks : TxIn → Checks) : Prop :=
  ∀ txIn ∈ tx.txIn, ∀ info lock secret, bs.relevantInfo txIn = some info → Locked info lock →
    Runs (checks txIn) lock txIn.signatureScript secret → bs.Emits names blockNumber tx info.use secret info.secretHash

/-- The branches that are run are those that the first input that spends a registered output shows. -/
def Readable (checks : TxIn → Checks) : Prop :=
  ∀ txIn ∈ tx.txIn, ∀ info lock secret, bs.relevantInfo txIn = some info → Locked info lock →
    Runs (checks txIn) lock txIn.signatureScript secret → bs.Legible names tx info.use secret info.secretHash

/-- Which event a transaction gives is right exactly if the first input that spends a registered output shows the
branch that was run. -/
theorem classifies_iff (checks : TxIn → Checks) :
    bs.Classifies names blockNumber tx checks ↔ bs.Readable names tx checks := by
  simp only [Classifies, Readable, emits_iff_legible]

end Spends

end BTCService

section TwoSelector

/-- Names for scripts that push only, where none is written out. -/
def pushNames : OpcodeNames where
  name := fun _ => "OP_RESERVED".toList
  starts := fun _ => rfl
  noBlank := fun _ => by decide

/-- The checks of an input with the right key and a valid signature. -/
def validChecks : Checks where
  hash160 := fun _ => bytesOf 20 2
  checkSig := fun _ _ => true
  checkLockTime := fun _ => true

def twoBuilder : PrepareLockOutScriptBuilder where
  userAddr := 2
  notaryAddr := 3
  lockSecretHash := Contracts.sha256 7
  expiration := 100

def twoInfo : BTCOutpointRelevantInfo where
  use := .toLockoutOrCancel
  secretHash := Contracts.sha256 7
  lockScriptHex := hex twoBuilder.getPKScript
  isHex := ⟨_, rfl⟩

def twoService : BTCService := BTCService.registerOutpoint ⟨∅⟩ ⟨"a0", 1⟩ twoInfo

/-- The user takes a lockout with the secret, and selects the branch for it with two. -/
def twoInput : TxIn where
  previousOutPoint := ⟨"a0", 1⟩
  signatureScript := sigScript [0x30, 0x01] (bytesOf 33 5) (addData (bytesOf 32 7) ++ [OP_1 + 1]) twoBuilder.getPKScript

def twoTx : Tx where
  hash := "b0"
  txIn := [twoInput]
  txOut := []

theorem runs_twoInput : Runs validChecks twoBuilder.getPKScript twoInput.signatureScript true := by
  refine ⟨[⟨2, [0x30, 0x01]⟩, ⟨33, bytesOf 33 5⟩, ⟨32, bytesOf 32 7⟩, ⟨OP_1 + 1, []⟩,
    ⟨OP_PUSHDATA1, twoBuilder.getPKScript⟩],
    [2], [bytesOf 32 7, bytesOf 33 5, [0x30, 0x01]], ?_, ?_, ?_, ?_⟩
  · decide +kernel
  · decide +kernel
  · decide +kernel
  · decide

/-- The secret is on the chain, and the notaries have no event. -/
theorem not_classifies_twoTx : ¬ twoService.Classifies pushNames 1 twoTx fun _ => validChecks := by
  intro h
  have hlocked : Locked twoInfo twoBuilder.getPKScript := Locked.lockout twoBuilder rfl rfl rfl
  obtain ⟨e, he, -⟩ := h twoInput List.mem_cons_self twoInfo _ true rfl hlocked runs_twoInput
  have hevents : (twoService.createEventsFromTx pushNames 1 twoTx).map List.length = some 0 := by decide +kernel
  rw [he] at hevents
  cases hevents

end TwoSelector

end DistributedNotary.Btc

import DistributedNotary.Service.Message
import Mathlib.Data.Countable.Basic
import Mathlib.Data.Finmap
import Mathlib.Logic.Equiv.List
import Mathlib.Tactic.DeriveCountable

/-! The record of a signature and its row in the database. Every content of the
record that may be absent is encoded for itself, absent contents as empty
columns, and decoded from its column by a function of its own. Pointers, slices
and maps that may be nil are options; the encoding of a single value is a
parameter, assumed faithful. -/
namespace DistributedNotary.Models

open Service

abbrev BigInt := Option ℤ

structure SPrivKey where
  d : BigInt
  deriving Countable

def privKeyZero : SPrivKey where
  d := some 0

structure SPubKey where
  x : BigInt
  y : BigInt
  deriving Countable

structure DLogProof where
  pk : Option SPubKey
  pkTRandCommitment : Option SPubKey
  challengeResponse : SPrivKey
  deriving Countable

structure HomoELGamalProof where
  t : Option SPubKey
  a3 : Option SPubKey
  z1 : SPrivKey
  z2 : SPrivKey
  deriving Countable

structure SignedKey where
  wI : SPrivKey
  gwi : Option SPubKey
  kI : SPrivKey
  gammaI : SPrivKey
  gGammaI : Option SPubKey
  deriving Countable

structure Phase5Com1 where
  com : BigInt
  deriving Countable

structure Phase5Com2 where
  com : BigInt
  deriving Countable

structure Phase5ADecom1 where
  vi : Option SPubKey
  ai : Option SPubKey
  bi : Option SPubKey
  blindFactor : BigInt
  deriving Countable

structure Phase5DDecom2 where
  uI : Option SPubKey
  ti : Option SPubKey
  blindFactor : BigInt
  deriving Countable

structure Phase5A where
  phase5Com1 : Option Phase5Com1
  phase5ADecom1 : Option Phase5ADecom1
  proof : Option HomoELGamalProof
  deriving Countable

structure Phase5C where
  phase5Com2 : Option Phase5Com2
  phase5DDecom2 : Option Phase5DDecom2
  deriving Countable

instance countable_uInt8 : Countable UInt8 :=
  Function.Injective.countable (f := UInt8.toNat) fun _ _ => UInt8.toNat_inj.mp

structure MessageA where
  c : Bytes
  deriving Countable

structure MessageB where
  c : Bytes
  bProof : Option DLogProof
  betaTagProof : Option DLogProof
  beta : SPrivKey
  deriving Countable

structure MessageBPhase2 where
  messageBGamma : Option MessageB
  messageBWi : Option MessageB
  deriving Countable

structure DeltaPhase3 where
  delta : SPrivKey
  deriving Countable

structure SignBroadcastPhase1 where
  com : BigInt
  blindFactor : BigInt
  deriving Countable

structure LocalSignature where
  lI : SPrivKey
  rhoI : SPrivKey
  r : Option SPubKey
  sI : SPrivKey
  m : BigInt
  y : Option SPubKey
  deriving Countable

abbrev IntMap (α : Type) := Finmap fun _ : ℤ => α

instance {α : Type} [Countable α] : Countable (IntMap α) :=
  have : Countable (Multiset (Sigma fun _ : ℤ => α)) := inferInstance
  Function.Injective.countable (f := Finmap.entries) fun _ _ => Finmap.ext

/-- 32 bytes. -/
structure Hash where
  bytes : Bytes
  length_eq : bytes.length = 32

/-- A hash from the last bytes, with zeros before them. -/
def Hash.setBytes (b : Bytes) : Hash where
  bytes := List.replicate (32 - b.length) 0 ++ b.drop (b.length - 32)
  length_eq := by simp; omega

theorem Hash.setBytes_bytes (h : Hash) : setBytes h.bytes = h := by
  obtain ⟨bytes, hlen⟩ := h
  simp [setBytes, hlen]

structure SignMessage where
  key : Hash
  usedPrivateKey : Hash
  message : Option Bytes
  messageName : Bytes
  signTime : ℤ
  s : Option (List ℤ)
  signedKey : Option SignedKey
  phase1BroadCast : Option (IntMap (Option SignBroadcastPhase1))
  messageA : Option MessageA
  phase2MessageB : Option (IntMap (Option MessageBPhase2))
  phase3Delta : Option (IntMap (Option DeltaPhase3))
  sigma : SPrivKey
  r : Option SPubKey
  localSignature : Option LocalSignature
  phase5A : Option (IntMap (Option Phase5A))
  phase5C : Option (IntMap (Option Phase5C))
  phase5D : Option (IntMap SPrivKey)
  alphaGamma : Option (IntMap SPrivKey)
  alphaWI : Option (IntMap SPrivKey)
  delta : Option (IntMap SPrivKey)
  status : ℤ

/-- A row. A column that is nil is none. -/
structure SignMessgeModel where
  key : Bytes
  usedPrivateKey : Bytes
  message : Option Bytes
  messageName : Bytes
  signTime : ℤ
  s : Option Bytes
  signedKey : Option Bytes
  phase1BroadCast : Option Bytes
  messageA : Option Bytes
  phase2MessageB : Option Bytes
  phase3Delta : Option Bytes
  sigma : Option Bytes
  r : Option Bytes
  localSignature : Option Bytes
  phase5A : Option Bytes
  phase5C : Option Bytes
  phase5D : Option Bytes
  alphaGamma : Option Bytes
  alphaWI : Option Bytes
  delta : Option Bytes
  status : ℤ

/-- The encoding of values of one type: what is encoded is decoded, and an encoding has at least a
length, a type and a value. -/
structure Codec (α : Type) where
  encode : α → Bytes
  decode : Bytes → Except String α
  decode_encode : ∀ a, decode (encode a) = .ok a
  three_le : ∀ a, 3 ≤ (encode a).length

/-- The encodings that are used. That of a message contains its text and what describes it. -/
structure Gob where
  s : Codec (List ℤ)
  signedKey : Codec SignedKey
  signBroadcastPhase1 : Codec (IntMap (Option SignBroadcastPhase1))
  messageA : Codec MessageA
  messageBPhase2 : Codec (IntMap (Option MessageBPhase2))
  deltaPhase3 : Codec (IntMap (Option DeltaPhase3))
  sPrivKey : Codec SPrivKey
  sPubKey : Codec SPubKey
  localSignature : Codec LocalSignature
  phase5A : Codec (IntMap (Option Phase5A))
  phase5C : Codec (IntMap (Option Phase5C))
  sPrivKeyMap : Codec (IntMap SPrivKey)
  text_lt : ∀ a, a.c.length < (messageA.encode a).length

/-- `len(data)` -/
def len (data : Option Bytes) : ℕ := (data.getD []).length

section

variable {α : Type} (codec : Codec α)

def interface2Byte (i : Option α) : Option Bytes := i.map codec.encode

/-- A value that cannot be decoded is a panic. -/
def byte2Interface (data : Option Bytes) : Except String α := codec.decode (data.getD [])

/-- Fewer than three bytes are no content. -/
def byte2Pointer (data : Option Bytes) : Except String (Option α) :=
  if len data < 3 then .ok none else (byte2Interface codec data).map some

end

variable (gob : Gob)

def byte2SignBroadcastPhase1Map := byte2Pointer gob.signBroadcastPhase1

def byte2MessageBPhase2 := byte2Pointer gob.messageBPhase2

def byte2DeltaPhase3 := byte2Pointer gob.deltaPhase3

def byte2Phase5A := byte2Pointer gob.phase5A

def byte2Phase5C := byte2Pointer gob.phase5C

def byte2SPrivKeyMap := byte2Pointer gob.sPrivKeyMap

def byte2S := byte2Pointer gob.s

def byte2SignedKey := byte2Pointer gob.signedKey

def byte2LocalSignature := byte2Pointer gob.localSignature

def byte2SPubKey := byte2Pointer gob.sPubKey

def byte2SPrivKey (data : Option Bytes) : Except String SPrivKey :=
  if len data < 3 then .ok privKeyZero else byte2Interface gob.sPrivKey data

def fromSignMessageModel (p : SignMessgeModel) : Except String SignMessage := do
  let phase1BroadCast ← byte2SignBroadcastPhase1Map gob p.phase1BroadCast
  let phase2MessageB ← byte2MessageBPhase2 gob p.phase2MessageB
  let phase3Delta ← byte2DeltaPhase3 gob p.phase3Delta
  let phase5A ← byte2Phase5A gob p.phase5A
  let phase5C ← byte2Phase5C gob p.phase5C
  let phase5D ← byte2SPrivKeyMap gob p.phase5D
  let alphaGamma ← byte2SPrivKeyMap gob p.alphaGamma
  let alphaWI ← byte2SPrivKeyMap gob p.alphaWI
  let delta ← byte2SPrivKeyMap gob p.delta
  let sigma ← byte2SPrivKey gob p.sigma
  let r ← byte2SPubKey gob p.r
  let signedKey ← byte2SignedKey gob p.signedKey
  let s ← byte2S gob p.s
  let localSignature ← byte2LocalSignature gob p.localSignature
  return {
    key := .setBytes p.key
    usedPrivateKey := .setBytes p.usedPrivateKey
    -- an empty message comes back from the database as one zero byte
    message := if len p.message > 1 then p.message else none
    messageName := p.messageName
    signTime := p.signTime
    s, signedKey, phase1BroadCast
    messageA := if len p.messageA > 1 then p.messageA.map MessageA.mk else none
    phase2MessageB, phase3Delta, sigma, r, localSignature, phase5A, phase5C, phase5D, alphaGamma, alphaWI, delta
    status := p.status }

def toSignMessageModle (p : SignMessage) : SignMessgeModel where
  key := p.key.bytes
  usedPrivateKey := p.usedPrivateKey.bytes
  message := p.message
  messageName := p.messageName
  signTime := p.signTime
  s := interface2Byte gob.s p.s
  signedKey := interface2Byte gob.signedKey p.signedKey
  phase1BroadCast := interface2Byte gob.signBroadcastPhase1 p.phase1BroadCast
  messageA := interface2Byte gob.messageA p.messageA
  phase2MessageB := interface2Byte gob.messageBPhase2 p.phase2MessageB
  phase3Delta := interface2Byte gob.deltaPhase3 p.phase3Delta
  sigma := interface2Byte gob.sPrivKey (some p.sigma)
  r := interface2Byte gob.sPubKey p.r
  localSignature := interface2Byte gob.localSignature p.localSignature
  phase5A := interface2Byte gob.phase5A p.phase5A
  phase5C := interface2Byte gob.phase5C p.phase5C
  phase5D := interface2Byte gob.sPrivKeyMap p.phase5D
  alphaGamma := interface2Byte gob.sPrivKeyMap p.alphaGamma
  alphaWI := interface2Byte gob.sPrivKeyMap p.alphaWI
  delta := interface2Byte gob.sPrivKeyMap p.delta
  status := p.status

section

variable {α : Type} (codec : Codec α)

theorem len_interface2Byte_some (a : α) : 3 ≤ len (interface2Byte codec (some a)) := codec.three_le a

theorem byte2Interface_interface2Byte (a : α) : byte2Interface codec (interface2Byte codec (some a)) = .ok a :=
  codec.decode_encode a

/-- A content that is absent or present is decoded as it was. -/
theorem byte2Pointer_interface2Byte (i : Option α) : byte2Pointer codec (interface2Byte codec i) = .ok i := by
  cases i with
  | none => rfl
  | some a =>
    unfold byte2Pointer
    rw [if_neg (Nat.not_lt.mpr (len_interface2Byte_some codec a)), byte2Interface_interface2Byte]
    rfl

end

theorem byte2SPrivKey_interface2Byte (k : SPrivKey) :
    byte2SPrivKey gob (interface2Byte gob.sPrivKey (some k)) = .ok k := by
  unfold byte2SPrivKey
  rw [if_neg (Nat.not_lt.mpr (len_interface2Byte_some gob.sPrivKey k)), byte2Interface_interface2Byte]

theorem messageA_column (a : Option MessageA) :
    (if len (interface2Byte gob.messageA a) > 1 then (interface2Byte gob.messageA a).map MessageA.mk else none) =
      a.map fun a => ⟨gob.messageA.encode a⟩ := by
  cases a with
  | none => rfl
  | some a =>
    have := len_interface2Byte_some gob.messageA a
    rw [if_pos (by omega)]
    rfl

/-- What comes back: a message of at most one byte is lost, and the text of `MessageA` is its own encoding. -/
theorem fromSignMessageModel_toSignMessageModle (p : SignMessage) :
    fromSignMessageModel gob (toSignMessageModle gob p) = .ok { p with
      message := if len p.message > 1 then p.message else none
      messageA := p.messageA.map fun a => ⟨gob.messageA.encode a⟩ } := by
  rw [← messageA_column]
  simp only [fromSignMessageModel, toSignMessageModle, byte2SignBroadcastPhase1Map, byte2MessageBPhase2,
    byte2DeltaPhase3, byte2Phase5A, byte2Phase5C, byte2SPrivKeyMap, byte2S, byte2SignedKey, byte2LocalSignature,
    byte2SPubKey, byte2Pointer_interface2Byte, byte2SPrivKey_interface2Byte, Hash.setBytes_bytes]
  rfl

/-- A record comes back as it was just when it has no `MessageA` and its message, if there is one,
has more than one byte. -/
theorem roundTrip_iff (p : SignMessage) : fromSignMessageModel gob (toSignMessageModle gob p) = .ok p ↔
    p.messageA = none ∧ (∀ message, p.message = some message → 2 ≤ message.length) := by
  rw [fromSignMessageModel_toSignMessageModle]
  constructor
  · intro h
    have hp := Except.ok.inj h
    have hmessage := congrArg SignMessage.message hp
    have hA := congrArg SignMessage.messageA hp
    constructor
    · cases ha : p.messageA with
      | none => rfl
      | some a =>
        rw [ha] at hA
        have htext := congrArg (fun a : MessageA => a.c.length) (Option.some.inj hA)
        exact absurd htext (Nat.ne_of_gt (gob.text_lt a))
    · intro message hm
      simp only [hm, len, Option.getD_some] at hmessage
      split_ifs at hmessage with hlen
      exact hlen
  · rintro ⟨hA, hmessage⟩
    have hkept : (if len p.message > 1 then p.message else none) = p.message := by
      cases hm : p.message with
      | none => rfl
      | some message => exact if_pos (hmessage message hm)
    rw [hkept, hA]
    obtain ⟨⟩ := p
    obtain rfl := hA
    rfl

/-! ### An encoding -/

/-- The values of a countable type can be encoded, each as a string as long as its number. -/
theorem nonempty_codec (α : Type) [Countable α] : Nonempty (Codec α) := by
  obtain ⟨number, hnumber⟩ := Countable.exists_injective_nat α
  refine ⟨{
    encode := fun a => [4, 4, 0] ++ List.replicate (number a) 1
    decode := fun b => (Function.partialInv number (b.length - 3)).elim (.error "decode err") .ok
    decode_encode := fun a => ?_
    three_le := fun a => by simp }⟩
  have hlen : ([4, 4, 0] ++ List.replicate (number a) (1 : UInt8)).length - 3 = number a := by simp
  simp only [hlen, Function.partialInv_left hnumber a, Option.elim_some]

/-- The text of a message behind three bytes. -/
def Codec.ofText : Codec MessageA where
  encode a := [4, 4, 0] ++ a.c
  decode b := .ok ⟨b.drop 3⟩
  decode_encode _ := rfl
  three_le a := by simp

theorem nonempty_gob : Nonempty Gob :=
  have codec {α : Type} [Countable α] : Codec α := (nonempty_codec α).some
  ⟨{ s := codec
     signedKey := codec
     signBroadcastPhase1 := codec
     messageA := .ofText
     messageBPhase2 := codec
     deltaPhase3 := codec
     sPrivKey := codec
     sPubKey := codec
     localSignature := codec
     phase5A := codec
     phase5C := codec
     sPrivKeyMap := codec
     text_lt := fun a => by simp [Codec.ofText]; omega }⟩

/-- A record after the second phase. -/
def phase2Record : SignMessage where
  key := .setBytes [1]
  usedPrivateKey := .setBytes [2]
  message := some [10, 11, 12, 13]
  messageName := [109]
  signTime := 0
  s := some [1, 2, 3]
  signedKey := none
  phase1BroadCast := none
  messageA := some ⟨[7, 8, 9]⟩
  phase2MessageB := none
  phase3Delta := some (Finmap.singleton 1 (some ⟨⟨some 5⟩⟩))
  sigma := ⟨some 5⟩
  r := none
  localSignature := none
  phase5A := none
  phase5C := none
  phase5D := none
  alphaGamma := none
  alphaWI := none
  delta := none
  status := 2

/-- Whatever the encoding is, the record after the second phase does not come back. -/
theorem roundTrip_fails : Nonempty Gob ∧
    ¬ ∃ gob : Gob, fromSignMessageModel gob (toSignMessageModle gob phase2Record) = .ok phase2Record := by
  refine ⟨nonempty_gob, ?_⟩
  rintro ⟨gob, h⟩
  rw [fromSignMessageModel_toSignMessageModle] at h
  have hA := Option.some.inj (congrArg SignMessage.messageA (Except.ok.inj h))
  exact absurd (congrArg (fun a : MessageA => a.c.length) hA) (Nat.ne_of_gt (gob.text_lt _))

end DistributedNotary.Models

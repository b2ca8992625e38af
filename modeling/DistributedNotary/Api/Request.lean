import DistributedNotary.Contracts.Solidity
import DistributedNotary.Library.Checks
import DistributedNotary.Service.Message

/-! The requests that notaries send each other and the signatures on them. A
request type is made of the base types it embeds: one for a signature, one for an
answer and one for a session. The encoding of requests and the cryptography
are parameters. -/
namespace DistributedNotary.Api

open Library Contracts Service

inductive Panic where
  | nilPointer
  | conversion
  | neverBlock
  | neverHappen
  deriving DecidableEq

/-- The request types that are told apart by their names. -/
inductive Kind where
  | notifySCTokenDeployed
  | response
  | keyGenerationPhase1Message
  | keyGenerationPhase2Message
  | keyGenerationPhase3Message
  | keyGenerationPhase4Message
  | dsmAsk
  | dsmNotifySelection
  | dsmPhase1Broadcast
  | dsmPhase2MessageA
  | dsmPhase3DeltaI
  | dsmPhase5A5BProof
  | dsmPhase5CProof
  | dsmPhase6ReceiveSI
  | pbftMessage
  deriving DecidableEq

def apiNameResponse : String := "Response"

namespace Kind

def apiName : Kind → String
  | notifySCTokenDeployed => "NotifySCTokenDeployed"
  | response => apiNameResponse
  | keyGenerationPhase1Message => "PKN-Phase1PubKeyProof"
  | keyGenerationPhase2Message => "PKN-Phase2PaillierKeyProof"
  | keyGenerationPhase3Message => "PKN-Phase3SecretShare"
  | keyGenerationPhase4Message => "PKN-Phase4PubKeyProof"
  | dsmAsk => "DSM-Ask"
  | dsmNotifySelection => "DSM-NotifySelection"
  | dsmPhase1Broadcast => "DSM-Phase1Broadcast"
  | dsmPhase2MessageA => "DSM-Phase2MessageA"
  | dsmPhase3DeltaI => "DSM-Phase3DeltaI"
  | dsmPhase5A5BProof => "DSM-Phase5A5BProof"
  | dsmPhase5CProof => "DSM-Phase5CProof"
  | dsmPhase6ReceiveSI => "DSM-Phase6ReceiveSI"
  | pbftMessage => "PBFT-Message"

def all : List Kind :=
  [notifySCTokenDeployed, response, keyGenerationPhase1Message, keyGenerationPhase2Message,
    keyGenerationPhase3Message, keyGenerationPhase4Message, dsmAsk, dsmNotifySelection, dsmPhase1Broadcast,
    dsmPhase2MessageA, dsmPhase3DeltaI, dsmPhase5A5BProof, dsmPhase5CProof, dsmPhase6ReceiveSI, pbftMessage]

/-- The request type that is chosen for a name. -/
def ofName (name : String) : Option Kind := all.find? fun k => k.apiName = name

/-- The type embeds `BaseReqWithSignature`. -/
def withSignature : Kind → Bool
  | response => false
  | _ => true

/-- The type embeds `BaseReqWithSessionID`. -/
def withSessionID : Kind → Bool
  | response | pbftMessage => false
  | _ => true

/-- The type embeds `BaseReqWithResponse`. -/
def withResponse : Kind → Bool
  | response | dsmAsk | dsmNotifySelection | dsmPhase2MessageA => true
  | _ => false

theorem ofName_apiName (k : Kind) : ofName k.apiName = some k := by
  cases k <;> decide +kernel

theorem ofName_eq_some_iff {name : String} {k : Kind} : ofName name = some k ↔ k.apiName = name := by
  constructor
  · intro h
    simpa using List.find?_some h
  · rintro rfl
    exact ofName_apiName k

theorem apiName_injective : Function.Injective apiName := by
  intro k k' h
  have hk := ofName_apiName k
  rw [h, ofName_apiName k', Option.some.injEq] at hk
  exact hk.symm

theorem apiName_eq_response_iff (k : Kind) : k.apiName = apiNameResponse ↔ k = response :=
  ⟨fun h => @apiName_injective k response h, fun h => h ▸ rfl⟩

theorem withSignature_of_withSessionID {k : Kind} (h : k.withSessionID = true) : k.withSignature = true := by
  cases k <;> first | rfl | exact absurd h (by decide)

/-- Every request that waits for an answer of the service has a session. -/
theorem withSessionID_of_withResponse {k : Kind} (hk : k ≠ response) (h : k.withResponse = true) :
    k.withSessionID = true := by
  cases k <;> first | rfl | exact absurd rfl hk | exact absurd h (by decide)

end Kind

/-- A request with the fields of all base types. Those that its type does not embed are not read. -/
structure Req (Body : Type) where
  kind : Kind
  name : String
  senderNotaryID : Int64
  signer : Option Bytes
  signature : Option Bytes
  requestID : String
  body : Body

/-- The encoding of requests and the cryptography. `unmarshalBase` reads the name alone, and has no result for the
content `null`, which sets the pointer that is decoded into to nil. No request fails to encode. -/
structure Wire (Body : Type) where
  unmarshalBase : Bytes → Except String (Option String)
  unmarshal : Kind → Bytes → Except String (Req Body)
  kind_unmarshal : ∀ {k c r}, unmarshal k c = .ok r → r.kind = k
  name_unmarshal : ∀ {k c n r}, unmarshalBase c = .ok (some n) → unmarshal k c = .ok r → r.name = n
  marshal : Req Body → Bytes
  sha3 : Bytes → Bytes
  cryptoEcrecover : Bytes → Bytes → Option PublicKey
  decompressPubkey : Bytes → Option PublicKey
  pubkeyToAddress : PublicKey → Address
  hexToAddress : String → Address
  addressString : Address → String

section Signature

variable {Body : Type} (w : Wire Body)

/-- The key that has signed the hash. A signature that cannot be recovered is tried again with recovery id one. -/
def ecrecover (hash signature : Bytes) : Option PublicKey :=
  if signature.length ≠ 65 then none
  else
    let v := signature.getD 64 0
    let sig := signature.set 64 (if 27 ≤ v then v - 27 else v)
    match w.cryptoEcrecover hash sig with
    | some pubKey => some pubKey
    | none => w.cryptoEcrecover hash (sig.set 64 1)

/-- A signature that fails is not recovered with recovery id one either. -/
theorem ecrecover_set_eq_none {hash signature : Bytes} (h : ecrecover w hash signature = none) :
    ecrecover w hash (signature.set 64 1) = none := by
  unfold ecrecover at h ⊢
  rw [List.length_set]
  by_cases hlen : signature.length = 65
  · have h1 : (signature.set 64 1).getD 64 0 = 1 := by simp [List.getD_eq_getElem?_getD, hlen]
    have h27 : ¬ (27 : UInt8) ≤ 1 := by decide
    simp only [hlen, ne_eq, not_true_eq_false, if_false, List.set_set] at h ⊢
    simp only [h1, if_neg h27]
    split at h
    · cases h
    · simp only [h]
  · simp [hlen]

namespace Req

variable (r : Req Body)

def setSignature (sig : Option Bytes) : Req Body := { r with signature := sig }

/-- The hash that is signed: that of the request without its signature. -/
def dataHash : Bytes := w.sha3 (w.marshal (r.setSignature none))

/-- The bytes of the signature, none when there is no signature. -/
def sig : Bytes := r.signature.getD []

/-- A signer that is no point of the curve decompresses to nil, which is read. -/
def getSignerETHAddress : Except Panic Address :=
  match r.signer with
  | none => pure 0
  | some signer =>
    match w.decompressPubkey signer with
    | some pubKey => pure (w.pubkeyToAddress pubKey)
    | none => throw .nilPointer

/-- Whether the signature is that of the signer, and the request with the signature as it is left. -/
def verifySign : Except Panic (Bool × Req Body) :=
  match ecrecover w (r.dataHash w) r.sig with
  | none => pure (false, r.setSignature none)
  | some publicKey => do
    let signer ← r.getSignerETHAddress w
    if w.pubkeyToAddress publicKey = signer then pure (true, r)
    else
      let sig := r.sig.set 64 1
      match ecrecover w (r.dataHash w) sig with
      | none => pure (false, r.setSignature (some sig))
      | some publicKey => pure (w.pubkeyToAddress publicKey = signer, r.setSignature (some sig))

/-- The signature, or the signature with recovery id one, is one of the holder of the address. -/
def SignedBy (address : Address) : Prop :=
  (ecrecover w (r.dataHash w) r.sig).map w.pubkeyToAddress = some address ∨
    (ecrecover w (r.dataHash w) (r.sig.set 64 1)).map w.pubkeyToAddress = some address

/-- The request names a signer and has a signature of it. -/
def Signed : Prop := ∃ signer, r.getSignerETHAddress w = .ok signer ∧ r.SignedBy w signer

@[simp] theorem dataHash_setSignature (sig : Option Bytes) : (r.setSignature sig).dataHash w = r.dataHash w := rfl

@[simp] theorem getSignerETHAddress_setSignature (sig : Option Bytes) :
    (r.setSignature sig).getSignerETHAddress w = r.getSignerETHAddress w := rfl

@[simp] theorem sig_setSignature (sig : Bytes) : (r.setSignature (some sig)).sig = sig := rfl

variable {w r}

/-- The result of the verification for a signer that is a point of the curve. -/
theorem verifySign_of_ok {signer : Address} (h : r.getSignerETHAddress w = .ok signer) :
    ∃ valid sig, r.verifySign w = .ok (valid, r.setSignature sig) ∧
      (valid = true ↔ r.SignedBy w signer) ∧ (valid = true → (r.setSignature sig).SignedBy w signer) := by
  unfold verifySign SignedBy
  rcases hfirst : ecrecover w (r.dataHash w) r.sig with _ | publicKey
  · have hsecond := ecrecover_set_eq_none w hfirst
    refine ⟨false, none, rfl, ?_, fun h => Bool.noConfusion h⟩
    simp [hsecond]
  · simp only [h, bind, Except.bind, Option.map_some, Option.some.injEq]
    by_cases heq : w.pubkeyToAddress publicKey = signer
    · refine ⟨true, r.signature, by rw [if_pos heq]; rfl, ?_, fun _ => ?_⟩
      · simp [heq]
      · have hsame : r.setSignature r.signature = r := rfl
        simp [hsame, hfirst, heq]
    · rw [if_neg heq]
      rcases hsecond : ecrecover w (r.dataHash w) (r.sig.set 64 1) with _ | publicKey'
      · refine ⟨false, some (r.sig.set 64 1), rfl, ?_, fun h => Bool.noConfusion h⟩
        simp [heq]
      · refine ⟨decide (w.pubkeyToAddress publicKey' = signer), some (r.sig.set 64 1), rfl, ?_, fun hv => ?_⟩
        · simp [heq]
        · simpa [hsecond] using of_decide_eq_true hv

/-- Only a request that its claimed signer has signed is found valid. -/
theorem signed_of_verifySign {r' : Req Body} (h : r.verifySign w = .ok (true, r')) :
    r.Signed w ∧ r'.Signed w ∧ ∃ sig, r' = r.setSignature sig := by
  rcases hsigner : r.getSignerETHAddress w with p | signer
  · unfold verifySign at h
    rcases hfirst : ecrecover w (r.dataHash w) r.sig with _ | publicKey <;>
      simp [hfirst, hsigner, bind, Except.bind, pure, Except.pure] at h
  · obtain ⟨valid, sig, hv, hiff, hsigned⟩ := verifySign_of_ok hsigner
    rw [h, Except.ok.injEq, Prod.mk.injEq] at hv
    obtain ⟨rfl, rfl⟩ := hv
    exact ⟨⟨signer, hsigner, hiff.mp rfl⟩, ⟨signer, hsigner, hsigned rfl⟩, sig, rfl⟩

/-- A request that its claimed signer has signed is found valid. -/
theorem verifySign_of_signed (h : r.Signed w) : ∃ sig, r.verifySign w = .ok (true, r.setSignature sig) := by
  obtain ⟨signer, hsigner, hs⟩ := h
  obtain ⟨valid, sig, hv, hiff, _⟩ := verifySign_of_ok hsigner
  obtain rfl := hiff.mpr hs
  exact ⟨sig, hv⟩

end Req

end Signature

end DistributedNotary.Api

import DistributedNotary.Mecdsa.Proofs

/-! The byte strings that are hashed for a commitment and for a list of points.
Integers are strung together as minimal big-endian bytes of their absolute values,
with nothing between them that tells where one ends, so that almost every transcript
shares its bytes with another one. Two transcripts with the same bytes are the same
when their integers have the same signs and lengths. -/
namespace DistributedNotary.Mecdsa

open Library Share Proofs

/-- `Bytes` of a big integer. -/
def bigBytes (i : ℤ) : List ℕ := Sha256.bytes i.natAbs

/-- What `createCommitmentWithUserDefinedRandomNess` hashes. -/
def commitmentInput (message blindingFactor : ℤ) : List ℕ := [bigBytes message, bigBytes blindingFactor].flatten

/-- A point as it is received: any two integers. -/
@[ext] structure RawPoint where
  X : ℤ
  Y : ℤ
  deriving DecidableEq

/-- What `CreateHashFromGE` hashes. -/
def hashFromGEInput (ge : List RawPoint) : List ℕ :=
  (ge.flatMap fun g => [[4], bigBytes g.X, bigBytes g.Y]).flatten

section Hashes

variable {C : Curve}

theorem createCommitment_eq (message blindingFactor : ℕ) :
    createCommitmentWithUserDefinedRandomNess message blindingFactor =
      Sha256.digest (commitmentInput message blindingFactor) := rfl

theorem createHashFromGE_eq (ge : List C.Point) :
    createHashFromGE ge =
      bigInt2PrivateKey C.N (Sha256.digest (hashFromGEInput (ge.map fun P => ⟨C.X P, C.Y P⟩))) := by
  rw [createHashFromGE, sha256, hashFromGEInput, List.flatMap_map]
  rfl

end Hashes

/-- The sign of an integer and the number of its bytes. -/
def shape (i : ℤ) : ℤ × ℕ := (i.sign, (bigBytes i).length)

def RawPoint.shape (g : RawPoint) : (ℤ × ℕ) × (ℤ × ℕ) := (Mecdsa.shape g.X, Mecdsa.shape g.Y)

theorem eq_of_bigBytes {i j : ℤ} (h : bigBytes i = bigBytes j) (hs : shape i = shape j) : i = j := by
  have habs : i.natAbs = j.natAbs := Sha256.bytes_injective h
  have hsign : i.sign = j.sign := congrArg Prod.fst hs
  rw [← Int.sign_mul_natAbs i, ← Int.sign_mul_natAbs j, hsign, habs]

/-- The first of two strings is as long as that of an integer of the same shape. -/
theorem append_inj_of_shape {i j : ℤ} {l l' : List ℕ} (h : bigBytes i ++ l = bigBytes j ++ l')
    (hs : shape i = shape j) :
    i = j ∧ l = l' := by
  obtain ⟨hbytes, htail⟩ := List.append_inj h (congrArg Prod.snd hs)
  exact ⟨eq_of_bigBytes hbytes hs, htail⟩

theorem commitmentInput_inj {m b m' b' : ℤ} (h : commitmentInput m b = commitmentInput m' b')
    (hm : shape m = shape m') (hb : shape b = shape b') : m = m' ∧ b = b' := by
  simp only [commitmentInput, List.flatten_cons, List.flatten_nil, List.append_nil] at h
  obtain ⟨heq, htail⟩ := append_inj_of_shape h hm
  exact ⟨heq, eq_of_bigBytes htail hb⟩

theorem hashFromGEInput_cons (g : RawPoint) (ge : List RawPoint) :
    hashFromGEInput (g :: ge) = 4 :: (bigBytes g.X ++ (bigBytes g.Y ++ hashFromGEInput ge)) := by
  simp [hashFromGEInput]

theorem hashFromGEInput_inj {l l' : List RawPoint} (h : hashFromGEInput l = hashFromGEInput l')
    (hs : l.map RawPoint.shape = l'.map RawPoint.shape) : l = l' := by
  induction l generalizing l' with
  | nil => exact (List.map_eq_nil_iff.mp hs.symm).symm
  | cons g l ih =>
    cases l' with
    | nil => cases hs
    | cons g' l' =>
      rw [hashFromGEInput_cons, hashFromGEInput_cons, List.cons.injEq] at h
      rw [List.map_cons, List.map_cons, List.cons.injEq] at hs
      obtain ⟨hX, htail⟩ := append_inj_of_shape h.2 (congrArg Prod.fst hs.1)
      obtain ⟨hY, hrest⟩ := append_inj_of_shape htail (congrArg Prod.snd hs.1)
      rw [ih hrest hs.2, RawPoint.ext hX hY]

/-- The string that is hashed determines what it stands for. -/
def Binding (m b : ℤ) : Prop := ∀ m' b', commitmentInput m b = commitmentInput m' b' → m = m' ∧ b = b'

def BindingGE (l : List RawPoint) : Prop := ∀ l', hashFromGEInput l = hashFromGEInput l' → l = l'

/-- The number whose bytes are those of two integers, one after the other. -/
def joined (i j : ℤ) : ℤ := (j.natAbs + 256 ^ (bigBytes j).length * i.natAbs : ℕ)

theorem bigBytes_joined (i j : ℤ) : bigBytes (joined i j) = bigBytes i ++ bigBytes j :=
  (Sha256.bytes_append i.natAbs j.natAbs).symm

@[simp] theorem bigBytes_zero : bigBytes 0 = [] := by simp [bigBytes, Sha256.bytes]

theorem bigBytes_eq_nil {i : ℤ} (h : bigBytes i = []) : i = 0 :=
  Int.natAbs_eq_zero.mp (Sha256.bytes_injective (h.trans bigBytes_zero.symm))

theorem commitmentInput_eq (m b : ℤ) : commitmentInput m b = bigBytes m ++ bigBytes b := by simp [commitmentInput]

/-- The byte between two integers may as well belong to either. -/
theorem binding_iff_zero (m b : ℤ) : Binding m b ↔ m = 0 ∧ b = 0 := by
  constructor
  · intro h
    have hm : m = 0 := (h 0 (joined m b) (by
      rw [commitmentInput_eq, commitmentInput_eq, bigBytes_joined, bigBytes_zero, List.nil_append])).1
    subst hm
    exact ⟨rfl, (h b 0 (by rw [commitmentInput_eq, commitmentInput_eq, bigBytes_zero, List.append_nil,
      List.nil_append])).2⟩
  · rintro ⟨rfl, rfl⟩ m' b' h
    rw [commitmentInput_eq, commitmentInput_eq, bigBytes_zero, List.append_nil, eq_comm, List.append_eq_nil_iff] at h
    exact ⟨(bigBytes_eq_nil h.1).symm, (bigBytes_eq_nil h.2).symm⟩

theorem hashFromGEInput_eq_nil {l : List RawPoint} (h : hashFromGEInput l = []) : l = [] := by
  cases l with
  | nil => rfl
  | cons g l => cases h

theorem bindingGE_nil : BindingGE [] := fun _ h => (hashFromGEInput_eq_nil h.symm).symm

/-- A point at the origin is a single byte, which stands for no other list. -/
theorem bindingGE_origin : BindingGE [⟨0, 0⟩] := by
  intro l' h
  cases l' with
  | nil => cases h
  | cons g l' =>
    rw [hashFromGEInput_cons, hashFromGEInput_cons, bigBytes_zero, List.cons.injEq] at h
    obtain ⟨hX, htail⟩ := List.append_eq_nil_iff.mp h.2.symm
    obtain ⟨hY, hrest⟩ := List.append_eq_nil_iff.mp htail
    have hg : (⟨0, 0⟩ : RawPoint) = g := RawPoint.ext (bigBytes_eq_nil hX).symm (bigBytes_eq_nil hY).symm
    rw [hashFromGEInput_eq_nil hrest, hg]

theorem bindingGE_cons {g : RawPoint} {l : List RawPoint} (h : BindingGE (g :: l)) : g = ⟨0, 0⟩ ∧ l = [] := by
  obtain ⟨X, Y⟩ := g
  have hX : X = 0 := by
    have heq := h (⟨0, joined X Y⟩ :: l) (by
      rw [hashFromGEInput_cons, hashFromGEInput_cons, bigBytes_joined, bigBytes_zero, List.nil_append,
        List.append_assoc])
    exact congrArg RawPoint.X (List.cons.inj heq).1
  subst hX
  have hY : Y = 0 := by
    have heq := h (⟨Y, 0⟩ :: l) (by
      rw [hashFromGEInput_cons, hashFromGEInput_cons, bigBytes_zero, List.nil_append, List.nil_append])
    exact congrArg RawPoint.Y (List.cons.inj heq).1
  subst hY
  refine ⟨rfl, ?_⟩
  cases l with
  | nil => rfl
  | cons g l =>
    -- the byte in front of the second point becomes the first of its abscissa
    have heq := h (⟨joined 4 g.X, g.Y⟩ :: l) (by
      have hfour : bigBytes 4 = [4] := by decide
      rw [hashFromGEInput_cons, hashFromGEInput_cons, hashFromGEInput_cons, bigBytes_joined, bigBytes_zero,
        List.nil_append, List.nil_append, hfour, List.append_assoc, List.singleton_append])
    exact absurd (congrArg List.length heq) (by simp)

/-- No hashed string determines the two integers, or the points, except where there is nothing to move: two zeros,
no point at all, and a single point at the origin. -/
theorem binding_iff (m b : ℤ) (l : List RawPoint) :
    (Binding m b ↔ m = 0 ∧ b = 0) ∧ (BindingGE l ↔ l = [] ∨ l = [⟨0, 0⟩]) := by
  refine ⟨binding_iff_zero m b, ?_, ?_⟩
  · intro h
    cases l with
    | nil => exact .inl rfl
    | cons g l =>
      obtain ⟨rfl, rfl⟩ := bindingGE_cons h
      exact .inr rfl
  · rintro (rfl | rfl)
    · exact bindingGE_nil
    · exact bindingGE_origin

/-- `0x01 0203` and `0x0102 03` are one string, and so are the points `(1, 0x0203)` and `(0x0102, 3)`. -/
theorem not_binding_1_515 : ¬ Binding 1 515 ∧ ¬ BindingGE [⟨1, 515⟩] := by
  constructor
  · intro h
    exact absurd (h 258 3 (by decide +kernel)) (by decide)
  · intro h
    exact absurd (h [⟨258, 3⟩] (by decide +kernel)) (by decide)

end DistributedNotary.Mecdsa

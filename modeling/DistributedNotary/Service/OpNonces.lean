import DistributedNotary.Service.Gaps

/-! The table of the nonces that operations were given, with the account that a call
names. Its key is the text of operation, chain and view one after the other, so calls
meet exactly where these texts are equal, and only the calls of one text matter to it. -/
namespace DistributedNotary.Service

open Library

/-- A record of the table. -/
structure OpNonce where
  nonce : ℤ
  account : String
  op : String

abbrev OpNonceTable := RangeMap String OpNonce

/-- A call of `NewNonceForOp`, with the errors of the database in its read and its write. -/
structure NonceCall where
  view : ℤ
  nonce : ℤ
  op : String
  chain : String
  account : String
  readErr : Option String := none
  saveErr : Option String := none

namespace NonceCall

def key (c : NonceCall) : String := c.op ++ c.chain ++ toString c.view

/-- The calls are about one chain, account and view. -/
def Meets (c c' : NonceCall) : Prop := c'.chain = c.chain ∧ c'.account = c.account ∧ c'.view = c.view

instance (c c' : NonceCall) : Decidable (c.Meets c') :=
  inferInstanceAs (Decidable (c'.chain = c.chain ∧ c'.account = c.account ∧ c'.view = c.view))

end NonceCall

namespace OpNonceTable

def getOpNonce (db : OpNonceTable) (c : NonceCall) : Except String OpNonce :=
  match c.readErr with
  | some err => .error err
  | none =>
    match db.lookup c.key with
    | none => .error "record not found"
    | some on => .ok on

/-- Whatever the error of the read is, the record is written anew. -/
def newNonceForOp (db : OpNonceTable) (c : NonceCall) : OpNonceTable × Except String Unit :=
  match getOpNonce db c with
  | .error _ =>
    match c.saveErr with
    | some err => (db, .error err)
    | none => (db.insert c.key { nonce := c.nonce, account := c.account, op := c.op }, .ok ())
  | .ok on => (db, if on.nonce ≠ c.nonce then .error "duplicate nonce" else .ok ())

/-- The table after the calls, from `db` on. -/
def afterCalls (db : OpNonceTable) (l : List NonceCall) : OpNonceTable :=
  l.foldl (fun db c => (newNonceForOp db c).1) db

/-- What a call gets after the calls of the list. -/
def resultAfter (l : List NonceCall) (c : NonceCall) : Except String Unit := (newNonceForOp (afterCalls ∅ l) c).2

def Accepted (l : List NonceCall) (c : NonceCall) : Prop := resultAfter l c = .ok ()

instance (l : List NonceCall) (c : NonceCall) : Decidable (Accepted l c) :=
  inferInstanceAs (Decidable (resultAfter l c = .ok ()))

section Calls

variable {db db' : OpNonceTable} {c c' : NonceCall} {l l₁ l₂ : List NonceCall} {k : String} {on : OpNonce}

theorem newNonceForOp_of_none (hread : c.readErr = none) (h : db.lookup c.key = none) (hsave : c.saveErr = none) :
    newNonceForOp db c = (db.insert c.key { nonce := c.nonce, account := c.account, op := c.op }, .ok ()) := by
  simp only [newNonceForOp, getOpNonce, hread, h, hsave]

theorem newNonceForOp_of_some (hread : c.readErr = none) (h : db.lookup c.key = some on) :
    newNonceForOp db c = (db, if on.nonce ≠ c.nonce then .error "duplicate nonce" else .ok ()) := by
  simp only [newNonceForOp, getOpNonce, hread, h]

/-- A call depends on the record of its own key only, and changes no other. -/
theorem newNonceForOp_congr (h : db.lookup c.key = db'.lookup c.key) :
    (newNonceForOp db c).2 = (newNonceForOp db' c).2 ∧
      ∀ k, db.lookup k = db'.lookup k → (newNonceForOp db c).1.lookup k = (newNonceForOp db' c).1.lookup k := by
  have hget : getOpNonce db c = getOpNonce db' c := by simp only [getOpNonce, h]
  simp only [newNonceForOp, hget]
  cases getOpNonce db' c with
  | ok on => exact ⟨rfl, fun k hk => hk⟩
  | error err =>
    cases c.saveErr with
    | some err => exact ⟨rfl, fun k hk => hk⟩
    | none =>
      refine ⟨rfl, fun k hk => ?_⟩
      by_cases hkey : k = c.key
      · rw [hkey, AList.lookup_insert, AList.lookup_insert]
      · rw [AList.lookup_insert_ne hkey, AList.lookup_insert_ne hkey, hk]

theorem lookup_newNonceForOp_of_ne (h : k ≠ c.key) : (newNonceForOp db c).1.lookup k = db.lookup k := by
  simp only [newNonceForOp]
  split
  · split
    · rfl
    · exact AList.lookup_insert_ne h
  · rfl

/-- The record of an accepted call holds its nonce. -/
theorem lookup_of_ok (h : (newNonceForOp db c).2 = .ok ()) :
    ∃ on, (newNonceForOp db c).1.lookup c.key = some on ∧ on.nonce = c.nonce := by
  simp only [newNonceForOp] at h ⊢
  cases hget : getOpNonce db c with
  | error err =>
    rw [hget] at h
    cases hsave : c.saveErr with
    | some err =>
      rw [hsave] at h
      cases h
    | none => exact ⟨_, AList.lookup_insert _, rfl⟩
  | ok on =>
    rw [hget] at h
    have hlookup : db.lookup c.key = some on := by
      unfold getOpNonce at hget
      split at hget
      · cases hget
      · split at hget
        · cases hget
        · next hon => rw [hon, Except.ok.inj hget]
    refine ⟨on, hlookup, ?_⟩
    by_contra hne
    simp only [ne_eq, hne, not_false_eq_true, if_true, reduceCtorEq] at h

/-- A record stays as it is while the reads of its key find it. -/
theorem lookup_afterCalls_of_some (h : db.lookup k = some on) (hread : ∀ c ∈ l, c.key = k → c.readErr = none) :
    (afterCalls db l).lookup k = some on := by
  induction l generalizing db with
  | nil => exact h
  | cons c l ih =>
    obtain ⟨hc, hl⟩ := List.forall_mem_cons.mp hread
    refine ih ?_ hl
    by_cases hkey : c.key = k
    · subst hkey
      show (newNonceForOp db c).1.lookup c.key = some on
      rw [newNonceForOp_of_some (hc rfl) h]
      exact h
    · rw [lookup_newNonceForOp_of_ne (Ne.symm hkey), h]

/-- What a key stands for depends on the calls with that key only. -/
theorem lookup_afterCalls_filter (h : db.lookup k = db'.lookup k) :
    (afterCalls db l).lookup k = (afterCalls db' (l.filter (·.key = k))).lookup k := by
  induction l generalizing db db' with
  | nil => exact h
  | cons c l ih =>
    by_cases hkey : c.key = k
    · rw [List.filter_cons_of_pos (by simpa using hkey)]
      exact ih ((newNonceForOp_congr (hkey ▸ h)).2 k h)
    · rw [List.filter_cons_of_neg (by simpa using hkey)]
      exact ih ((lookup_newNonceForOp_of_ne (Ne.symm hkey)).trans h)

theorem afterCalls_append : afterCalls db (l₁ ++ c :: l₂) = afterCalls (newNonceForOp (afterCalls db l₁) c).1 l₂ := by
  rw [afterCalls, List.foldl_append, List.foldl_cons]
  rfl

end Calls

/-- One nonce for an operation, one operation for a nonce, and no call in the way of another one. -/
structure NoncesApart : Prop where
  unique : ∀ l₁ c l₂ c', Accepted l₁ c → Accepted (l₁ ++ c :: l₂) c' → c.Meets c' → c'.op = c.op → c'.nonce = c.nonce
  distinct : ∀ l₁ c l₂ c', Accepted l₁ c → Accepted (l₁ ++ c :: l₂) c' → c.Meets c' → c'.op ≠ c.op → c'.nonce ≠ c.nonce
  independent : ∀ l c, Accepted (l.filter fun c' => c.Meets c' ∧ c'.op = c.op) c → Accepted l c

/-- What the table does, in every sequence of calls: while the reads succeed an operation has one nonce on a chain, an
account and a view; a call with another text is never in the way; and a new text is taken with any nonce, whichever
nonces the other operations have. -/
structure NoncesByText : Prop where
  unique : ∀ l₁ c l₂ c', (∀ x ∈ c' :: l₂, x.key = c.key → x.readErr = none) → Accepted l₁ c →
    Accepted (l₁ ++ c :: l₂) c' → c.Meets c' → c'.op = c.op → c'.nonce = c.nonce
  independent : ∀ l c, resultAfter l c = resultAfter (l.filter (·.key = c.key)) c
  free : ∀ l c, (∀ x ∈ l, x.key ≠ c.key) → c.saveErr = none → Accepted l c

theorem noncesByText : NoncesByText where
  unique l₁ c l₂ c' hread hc hc' hmeets hop := by
    have hkey : c'.key = c.key := by rw [NonceCall.key, NonceCall.key, hop, hmeets.1, hmeets.2.2]
    obtain ⟨on, hon, hnonce⟩ := lookup_of_ok hc
    obtain ⟨hread', hread⟩ := List.forall_mem_cons.mp hread
    have hlater : (afterCalls ∅ (l₁ ++ c :: l₂)).lookup c'.key = some on := by
      rw [hkey, afterCalls_append]
      exact lookup_afterCalls_of_some hon hread
    rw [Accepted, resultAfter, newNonceForOp_of_some (hread' hkey) hlater] at hc'
    by_contra hne
    have hother : on.nonce ≠ c'.nonce := fun h => hne (h.symm.trans hnonce)
    simp only [if_pos hother, reduceCtorEq] at hc'
  independent l c := (newNonceForOp_congr (lookup_afterCalls_filter rfl)).1
  free l c hnew hsave := by
    have hnone : (afterCalls ∅ l).lookup c.key = none := by
      have hfilter : l.filter (·.key = c.key) = [] := List.filter_eq_nil_iff.mpr fun x hx => by simpa using hnew x hx
      have hlookup : (afterCalls ∅ l).lookup c.key = (afterCalls ∅ (l.filter (·.key = c.key))).lookup c.key :=
        lookup_afterCalls_filter rfl
      rw [hlookup, hfilter]
      rfl
    rw [Accepted, resultAfter]
    simp only [newNonceForOp, getOpNonce, hnone, hsave]
    cases c.readErr <;> rfl

/-- The first call for an operation, and the calls that follow in the examples. -/
def call5 : NonceCall where
  view := 10
  nonce := 3
  op := "ethereum-0x0a-5"
  chain := "ethereum"
  account := "A"

/-- Two operations share a nonce; a call for another account, and one for another chain and view, is refused for the
sake of the first; and where a read has failed an operation gets a second nonce. -/
theorem not_noncesApart : ¬ NoncesApart ∧
    Accepted [] call5 ∧ Accepted [call5] { call5 with op := "ethereum-0x0b-5" } ∧
    Accepted [] { call5 with account := "B", nonce := 4 } ∧
    ¬ Accepted [call5] { call5 with account := "B", nonce := 4 } ∧
    Accepted [] { call5 with chain := "ethereum1", view := 0, nonce := 4 } ∧
    ¬ Accepted [call5] { call5 with chain := "ethereum1", view := 0, nonce := 4 } ∧
    Accepted [call5] { call5 with nonce := 4, readErr := some "database is locked" } := by
  have hfirst : Accepted [] call5 := by decide +kernel
  have hother : Accepted [call5] { call5 with op := "ethereum-0x0b-5" } := by decide +kernel
  refine ⟨fun h => h.distinct [] call5 [] _ hfirst hother ⟨rfl, rfl, rfl⟩ (by decide) rfl, hfirst, hother,
    ?_, ?_, ?_, ?_, ?_⟩
  all_goals decide +kernel

end OpNonceTable

/-- The nonces of a service are those of the table, whatever account its calls name. -/
def Tracks (a : AuxiliaryDB) (db : OpNonceTable) : Prop := ∀ k, a.opNonces.lookup k = (db.lookup k).map OpNonce.nonce

/-- The call that `PrepareSeq` and `CommitSeq` of a service make. -/
def PBFTService.call (ps : PBFTService) (privatekeyID : String) (view nonce : ℤ) (op : String) : NonceCall where
  view := view
  nonce := nonce
  op := op
  chain := ps.chain
  account := privatekeyID

theorem Tracks.newNonceForOp {a : AuxiliaryDB} {db : OpNonceTable} (h : Tracks a db) (ps : PBFTService)
    (privatekeyID : String) (view nonce : ℤ) (op : String) :
    Tracks (ps.newNonceForOp a view nonce op).1 (db.newNonceForOp (ps.call privatekeyID view nonce op)).1 ∧
      ((ps.newNonceForOp a view nonce op).2 = .ok () ↔
        (db.newNonceForOp (ps.call privatekeyID view nonce op)).2 = .ok ()) := by
  set c := ps.call privatekeyID view nonce op
  have hkey : ps.opKey op view = c.key := rfl
  have hlookup := h c.key
  cases hdb : db.lookup c.key with
  | none =>
    rw [hdb, Option.map_none] at hlookup
    rw [newNonceForOp_of_none (hkey ▸ hlookup), OpNonceTable.newNonceForOp_of_none rfl hdb rfl]
    refine ⟨fun k => ?_, iff_of_true rfl rfl⟩
    by_cases hk : k = c.key
    · rw [hk, AList.lookup_insert]
      exact AList.lookup_insert _
    · rw [AList.lookup_insert_ne hk, ← h k]
      exact AList.lookup_insert_ne hk
  | some on =>
    rw [hdb, Option.map_some] at hlookup
    rw [newNonceForOp_of_some (hkey ▸ hlookup), OpNonceTable.newNonceForOp_of_some rfl hdb]
    refine ⟨h, ?_⟩
    by_cases hn : on.nonce = nonce
    · exact iff_of_true (if_neg (not_not_intro hn)) (if_neg (not_not_intro hn))
    · rw [if_pos hn, if_pos (show on.nonce ≠ c.nonce from hn)]
      exact iff_of_false (nomatch ·) (nomatch ·)

end DistributedNotary.Service

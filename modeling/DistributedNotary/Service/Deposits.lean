import DistributedNotary.Library.Transition
import DistributedNotary.Service.LockinEvents
import DistributedNotary.Service.Timelock

/-! One deposit under all requests to sign for it. The record of a deposit keeps
what it was registered with, and a lock of the notaries that was seen on the
side chain stays seen; this holds for the row of the table and for the record in
memory through every event and every request. -/
namespace DistributedNotary.Service

open Library Contracts

/-- `l` is a later state of the record `r`. -/
structure Follows (r l : LockinInfo) : Prop where
  secretHash : l.secretHash = r.secretHash
  mcUserAddressHex : l.mcUserAddressHex = r.mcUserAddressHex
  scTokenAddress : l.scTokenAddress = r.scTokenAddress
  amount : l.amount = r.amount
  crossFee : l.crossFee = r.crossFee
  scSeen : r.scLockStatus ≠ .none → l.scLockStatus ≠ .none

namespace Follows

theorem refl (r : LockinInfo) : Follows r r := ⟨rfl, rfl, rfl, rfl, rfl, id⟩

theorem trans {r l m : LockinInfo} (h : Follows r l) (h' : Follows l m) : Follows r m where
  secretHash := h'.secretHash.trans h.secretHash
  mcUserAddressHex := h'.mcUserAddressHex.trans h.mcUserAddressHex
  scTokenAddress := h'.scTokenAddress.trans h.scTokenAddress
  amount := h'.amount.trans h.amount
  crossFee := h'.crossFee.trans h.crossFee
  scSeen := h'.scSeen ∘ h.scSeen

end Follows

section Handlers

/-- Every record in memory follows its row. -/
def Backed (lh : LockinHandler) : Prop :=
  ∀ h l, lh.dealingMap.lookup h = some l → ∃ r, lh.db.lookup h = some r ∧ Follows r l

/-- What an operation of one handler may do: rows follow, records enter memory only with their row,
and the rows of records that are not in memory stay as they are. -/
structure Evolves (lh lh' : LockinHandler) : Prop where
  rows : ∀ h r, lh.db.lookup h = some r → ∃ r', lh'.db.lookup h = some r' ∧ Follows r r'
  entries : ∀ h, (lh'.dealingMap.lookup h).isSome → (lh.dealingMap.lookup h).isSome ∨ lh.db.lookup h = none
  idle : ∀ h r, lh.dealingMap.lookup h = none → lh.db.lookup h = some r → lh'.db.lookup h = some r
  backed : Backed lh'

namespace Evolves

variable {lh lh' lh'' : LockinHandler}

theorem refl (hb : Backed lh) : Evolves lh lh where
  rows _ r hr := ⟨r, hr, .refl r⟩
  entries _ := .inl
  idle _ _ _ hr := hr
  backed := hb

theorem trans (h : Evolves lh lh') (h' : Evolves lh' lh'') : Evolves lh lh'' where
  rows k r hr := by
    obtain ⟨r', hr', hf⟩ := h.rows k r hr
    obtain ⟨r'', hr'', hf'⟩ := h'.rows k r' hr'
    exact ⟨r'', hr'', hf.trans hf'⟩
  entries k hk := by
    rcases h'.entries k hk with hk' | hk'
    · exact h.entries k hk'
    · right
      cases hr : lh.db.lookup k with
      | none => rfl
      | some r =>
        obtain ⟨r', hr', -⟩ := h.rows k r hr
        rw [hr'] at hk'
        cases hk'
  idle k r hk hr := by
    refine h'.idle k r ?_ (h.idle k r hk hr)
    cases hk' : lh'.dealingMap.lookup k with
    | none => rfl
    | some l =>
      rcases h.entries k (by simp [hk']) with he | he
      · simp [hk] at he
      · rw [hr] at he
        cases he
  backed := h'.backed

end Evolves

variable {lh : LockinHandler}

/-- The mutex does not matter to the records. -/
theorem evolves_lock {lh' : LockinHandler} {b : Bool} (h : Evolves lh lh') :
    Evolves lh { lh' with dealingMapLock := b } := ⟨h.rows, h.entries, h.idle, h.backed⟩

theorem evolves_assign (hb : Backed lh) {info : LockinInfo}
    (hf : ∀ l, lh.dealingMap.lookup info.secretHash = some l → Follows l info) : Evolves lh (lh.assign info) where
  rows h r hr := ⟨r, by simpa using hr, .refl r⟩
  entries h hs := by
    rw [Handler.assign_dealing] at hs
    split at hs
    · rename_i hc
      exact .inl hc.2
    · exact .inl hs
  idle h r _ hr := by simpa using hr
  backed h l hl := by
    rw [Handler.assign_db]
    rw [Handler.assign_dealing] at hl
    split at hl
    · rename_i hc
      obtain ⟨hk, hs⟩ := hc
      cases hl
      obtain ⟨l', hl'⟩ := Option.isSome_iff_exists.mp hs
      obtain ⟨r, hr, hfr⟩ := hb h l' hl'
      refine ⟨r, hr, hfr.trans (hf l' ?_)⟩
      rwa [hk] at hl'
    · exact hb h l hl

/-- The record in memory goes to the table. -/
theorem evolves_store (hb : Backed lh) {info : LockinInfo} (hl : lh.dealingMap.lookup info.secretHash = some info) :
    Evolves lh { lh with db := lh.db.put info } where
  rows h r hr := by
    simp only [RecordMap.lookup_put]
    split
    · rename_i hk
      obtain ⟨r', hr', hf⟩ := hb _ _ hl
      have hk : h = info.secretHash := hk
      rw [hk, hr'] at hr
      cases hr
      exact ⟨info, rfl, hf⟩
    · exact ⟨r, hr, .refl r⟩
  entries h hs := .inl hs
  idle h r hn hr := by
    simp only [RecordMap.lookup_put]
    split
    · rename_i hk
      have hk : h = info.secretHash := hk
      rw [hk, hl] at hn
      cases hn
    · exact hr
  backed h l hl' := by
    simp only [RecordMap.lookup_put]
    split
    · rename_i hk
      have hk : h = info.secretHash := hk
      rw [hk] at hl'
      obtain rfl := Option.some.inj (hl'.symm.trans hl)
      exact ⟨_, rfl, .refl _⟩
    · exact hb h l hl'

/-- Records leave memory. -/
theorem evolves_forget (hb : Backed lh) {m : RecordMap lockinKind}
    (hm : ∀ h l, m.lookup h = some l → lh.dealingMap.lookup h = some l) : Evolves lh { lh with dealingMap := m } where
  rows h r hr := ⟨r, hr, .refl r⟩
  entries h hs := by
    obtain ⟨l, hl⟩ := Option.isSome_iff_exists.mp hs
    exact .inl (by simp [hm h l hl])
  idle h r _ hr := hr
  backed h l hl := hb h l (hm h l hl)

theorem evolves_update (hb : Backed lh) {info : LockinInfo}
    (hl : ∀ l, lh.dealingMap.lookup info.secretHash = some l → l = info) : Evolves lh (lh.update info).1 := by
  unfold Handler.update Handler.dbUpdate
  split
  · exact .refl hb
  cases hd : lh.dealingMap.lookup info.secretHash with
  | none =>
    rw [show lh.dealingMap.lookup (lockinKind.secretHash info) = none from hd]
    exact evolves_lock (.refl hb)
  | some l =>
    obtain rfl := hl l hd
    rw [show lh.dealingMap.lookup (lockinKind.secretHash l) = some l from hd]
    cases hg : lh.dbGet (lockinKind.secretHash l) with
    | error e => exact evolves_lock (.refl hb)
    | ok r =>
      have hstore := evolves_store hb hd
      refine hstore.trans (evolves_forget hstore.backed ?_)
      intro h l' hl'
      split at hl'
      · rw [RecordMap.lookup_erase] at hl'
        split at hl'
        · cases hl'
        · exact hl'
      · rw [RecordMap.lookup_put] at hl'
        split at hl'
        · rename_i hk
          cases hl'
          rw [hk]
          exact hd
        · exact hl'

/-- A record that is found is the one in memory, if there is one. -/
theorem eq_of_getLockin {h : Bytes32} {l l' : LockinInfo} (hg : lh.getLockin h = .ok l)
    (hl : lh.dealingMap.lookup h = some l') : l' = l := by
  unfold LockinHandler.getLockin Handler.get at hg
  split at hg
  · cases hg
  · rw [hl] at hg
    exact Except.ok.inj hg

/-- A record that is found follows its row. -/
theorem row_of_getLockin (hb : Backed lh) {h : Bytes32} {l : LockinInfo} (hg : lh.getLockin h = .ok l) :
    ∃ r, lh.db.lookup l.secretHash = some r ∧ Follows r l := by
  have hk : l.secretHash = h := Handler.secretHash_of_get hg
  rw [hk]
  cases hd : lh.dealingMap.lookup h with
  | some l' =>
    obtain rfl := eq_of_getLockin hg hd
    exact hb h l' hd
  | none =>
    unfold LockinHandler.getLockin Handler.get Handler.dbGet at hg
    rw [hd] at hg
    split at hg
    · cases hg
    dsimp only at hg
    split at hg
    · cases hg
    split at hg
    · rename_i r hr
      cases hg
      exact ⟨_, hr, .refl _⟩
    · cases hg

theorem evolves_updateLockin (hb : Backed lh) {h : Bytes32} {l l' : LockinInfo} (hg : lh.getLockin h = .ok l)
    (hf : Follows l l') : Evolves lh (lh.updateLockin l').1 := by
  have hk : l'.secretHash = h := hf.secretHash.trans (Handler.secretHash_of_get hg)
  have hassign : Evolves lh (lh.assign l') := by
    apply evolves_assign hb
    intro l'' hl''
    rw [hk] at hl''
    rw [eq_of_getLockin hg hl'']
    exact hf
  refine hassign.trans (evolves_update hassign.backed ?_)
  intro l'' hl''
  rw [Handler.assign_dealing] at hl''
  split at hl''
  · exact (Option.some.inj hl'').symm
  · rename_i hc
    exact absurd ⟨rfl, by simp [hl'']⟩ hc

/-- A new row, with its record in memory or not yet. -/
theorem evolves_enter (hb : Backed lh) {info : LockinInfo} (hr : lh.db.lookup info.secretHash = none) :
    Evolves lh { lh with db := lh.db.put info } ∧
      Evolves lh { lh with db := lh.db.put info, dealingMap := lh.dealingMap.put info } := by
  have hrows : ∀ h r, lh.db.lookup h = some r → (lh.db.put info).lookup h = some r := by
    intro h r hr'
    rw [RecordMap.lookup_put]
    split
    · rename_i hk
      have hk : h = info.secretHash := hk
      rw [hk, hr] at hr'
      cases hr'
    · exact hr'
  have hbacked : ∀ h l, lh.dealingMap.lookup h = some l → ∃ r, (lh.db.put info).lookup h = some r ∧ Follows r l := by
    intro h l hl
    obtain ⟨r, hr', hf⟩ := hb h l hl
    exact ⟨r, hrows h r hr', hf⟩
  refine ⟨⟨fun h r hr' => ⟨r, hrows h r hr', .refl r⟩, fun _ => .inl, fun h r _ => hrows h r, hbacked⟩,
    ⟨fun h r hr' => ⟨r, hrows h r hr', .refl r⟩, ?_, fun h r _ => hrows h r, ?_⟩⟩
  · intro h hs
    simp only [RecordMap.lookup_put] at hs
    split at hs
    · rename_i hk
      right
      rw [hk]
      exact hr
    · exact .inl hs
  · intro h l hl
    simp only [RecordMap.lookup_put] at hl
    split at hl
    · rename_i hk
      cases hl
      rw [hk]
      exact ⟨_, RecordMap.lookup_put_self, .refl _⟩
    · exact hbacked h l hl

theorem evolves_registerLockin (hb : Backed lh) {info : LockinInfo} : Evolves lh (lh.registerLockin info).1 := by
  unfold LockinHandler.registerLockin Handler.register Handler.dbNew
  split
  · exact .refl hb
  by_cases hfail : lh.dbFails (lockinKind.secretHash info) = true
  · simp only [hfail, if_true, wrap]
    exact .refl hb
  cases hr : lh.db.lookup (lockinKind.secretHash info) with
  | some r =>
    simp only [hfail, wrap, Bool.false_eq_true, if_false]
    exact .refl hb
  | none =>
    obtain ⟨hrow, hboth⟩ := evolves_enter hb hr
    simp only [hfail, wrap, Bool.false_eq_true, if_false]
    split
    · exact hrow
    · exact hboth

theorem evolves_expireAll {expire : LockinInfo → Option LockinInfo}
    (hf : ∀ l l', expire l = some l' → Follows l l') (order : List Bytes32) (lh : LockinHandler) (hb : Backed lh) :
    Evolves lh (LockinHandler.expireAll expire lh order).1 := by
  induction order generalizing lh with
  | nil => exact .refl hb
  | cons h rest ih =>
    unfold LockinHandler.expireAll Handler.dbUpdate
    cases he : (lh.dealingMap.lookup h).bind expire with
    | none => exact ih lh hb
    | some lockin =>
      obtain ⟨l, hl, hexp⟩ := Option.bind_eq_some_iff.mp he
      have hfl := hf l lockin hexp
      have hk : lockin.secretHash = h := hfl.secretHash.trans (RecordMap.secretHash_of_lookup hl)
      have hassign : Evolves lh (lh.assign lockin) := by
        apply evolves_assign hb
        intro l' hl'
        rw [hk, hl] at hl'
        cases hl'
        exact hfl
      have hmem : (lh.assign lockin).dealingMap.lookup lockin.secretHash = some lockin := by
        rw [Handler.assign_dealing, if_pos ⟨rfl, by simp [hk, hl]⟩]
      have hstore := evolves_store hassign.backed hmem
      dsimp only
      cases (lh.assign lockin).dbGet (lockinKind.secretHash lockin) with
      | error e => exact hassign
      | ok r => exact (hassign.trans hstore).trans (ih _ hstore.backed)

end Handlers

section Services

variable {cs : CrossChainService}

theorem evolves_amendLockin (hb : Backed cs.lockinHandler) {text : String} {h : Bytes32}
    {change : LockinInfo → Except Failure LockinInfo} (hf : ∀ l l', change l = .ok l' → Follows l l') :
    Evolves cs.lockinHandler (cs.amendLockin text h change).1.lockinHandler := by
  unfold CrossChainService.amendLockin
  split
  · exact .refl hb
  · rename_i l hget
    split
    · exact .refl hb
    · rename_i l' hchange
      exact evolves_updateLockin hb (wrap_eq_ok.mp hget) (hf l l' hchange)

theorem evolves_amendLockin_ok (hb : Backed cs.lockinHandler) {text : String} {h : Bytes32}
    {change : LockinInfo → LockinInfo} (hf : ∀ l, Follows l (change l)) :
    Evolves cs.lockinHandler (cs.amendLockin text h fun l => .ok (change l)).1.lockinHandler := by
  apply evolves_amendLockin hb
  rintro l l' ⟨⟩
  exact hf l

theorem evolves_amendLockin_checked (hb : Backed cs.lockinHandler) {text : String} {h : Bytes32} {p : LockinInfo → Prop}
    [DecidablePred p] {e : Failure} {change : LockinInfo → LockinInfo} (hf : ∀ l, Follows l (change l)) :
    Evolves cs.lockinHandler
      (cs.amendLockin text h fun l => do ensure (p l) e; return change l).1.lockinHandler := by
  apply evolves_amendLockin hb
  intro l l' h
  simp only [bind_eq_ok, pure_eq_ok] at h
  obtain ⟨-, -, rfl⟩ := h
  exact hf l

/-- Every event of a lockin lets the records evolve. -/
theorem evolves_onEvent (hb : Backed cs.lockinHandler) (e : LockinEvent) :
    Evolves cs.lockinHandler (cs.onEvent e).1.lockinHandler := by
  cases e with
  | mcPrepareLockin p e =>
    change Evolves _ (cs.onMCPrepareLockin4Ethereum p e).1.lockinHandler
    unfold CrossChainService.onMCPrepareLockin4Ethereum
    split
    · exact .refl hb
    · split
      · exact .refl hb
      · exact evolves_registerLockin hb
  | scPrepareLockin p e =>
    change Evolves _ (cs.onSCPrepareLockin p e).1.lockinHandler
    rw [CrossChainService.onSCPrepareLockin_eq]
    split
    · exact .refl hb
    · exact evolves_amendLockin_ok hb fun l => ⟨rfl, rfl, rfl, rfl, rfl, fun _ => by simp⟩
  | scLockinSecret s => exact evolves_amendLockin_checked hb fun l => ⟨rfl, rfl, rfl, rfl, rfl, fun _ => by simp⟩
  | mcLockin4Ethereum a h t n => exact evolves_amendLockin_checked hb fun l => ⟨rfl, rfl, rfl, rfl, rfl, id⟩
  | mcLockin4Bitcoin h t n => exact evolves_amendLockin_ok hb fun l => ⟨rfl, rfl, rfl, rfl, rfl, id⟩
  | mcCancelLockin4Ethereum a h t n => exact evolves_amendLockin_checked hb fun l => ⟨rfl, rfl, rfl, rfl, rfl, id⟩
  | mcCancelLockin4Bitcoin h t n => exact evolves_amendLockin_ok hb fun l => ⟨rfl, rfl, rfl, rfl, rfl, id⟩
  | scCancelLockin a h t => exact evolves_amendLockin_checked hb fun l => ⟨rfl, rfl, rfl, rfl, rfl, fun _ => by simp⟩
  | mcNewBlock n o =>
    change Evolves _ (cs.lockinHandler.onMCNewBlockEvent n o).1
    unfold LockinHandler.onMCNewBlockEvent
    split
    · exact .refl hb
    · apply evolves_expireAll _ o _ hb
      intro l l' h
      split at h
      · cases h
        exact ⟨rfl, rfl, rfl, rfl, rfl, id⟩
      · cases h
  | scNewBlock n o =>
    change Evolves _ (cs.lockinHandler.onSCNewBlockEvent n o).1
    unfold LockinHandler.onSCNewBlockEvent
    split
    · exact .refl hb
    · apply evolves_expireAll _ o _ hb
      intro l l' h
      split at h
      · cases h
        exact ⟨rfl, rfl, rfl, rfl, rfl, fun _ => by simp⟩
      · cases h

end Services

namespace NotaryService

variable {ns : NotaryService} {token : Address} {α : Type}
  {f : CrossChainService → CrossChainService × Except Failure α}

/-- The records in memory follow their rows, and no record is in the memory of two services. -/
structure Sound (ns : NotaryService) : Prop where
  backed : ∀ t cs, ns.service t = some cs → Backed cs.lockinHandler
  unique : ∀ t t' cs cs' h, ns.service t = some cs → ns.service t' = some cs' →
    (cs.lockinHandler.dealingMap.lookup h).isSome → (cs'.lockinHandler.dealingMap.lookup h).isSome → t = t'

/-- A sound notary, whose rows follow those of `ns`. -/
structure Advances (ns ns' : NotaryService) : Prop where
  sound : ns'.Sound
  rows : ∀ h r, ns.lockinDB.lookup h = some r → ∃ r', ns'.lockinDB.lookup h = some r' ∧ Follows r r'

theorem Advances.refl (hs : ns.Sound) : Advances ns ns := ⟨hs, fun _ r hr => ⟨r, hr, .refl r⟩⟩

theorem Advances.trans {ns' ns'' : NotaryService} (h : Advances ns ns') (h' : Advances ns' ns'') :
    Advances ns ns'' := by
  refine ⟨h'.sound, fun k r hr => ?_⟩
  obtain ⟨r', hr', hf⟩ := h.rows k r hr
  obtain ⟨r'', hr'', hf'⟩ := h'.rows k r' hr'
  exact ⟨r'', hr'', hf.trans hf'⟩

/-- What one service does to its records, the notary does to all of them. -/
theorem advances_run (hs : ns.Sound)
    (hev : ∀ cs, ns.service token = some cs → Evolves cs.lockinHandler (f cs).1.lockinHandler) :
    Advances ns (ns.run token f).1 := by
  unfold run
  cases hcs : ns.service token with
  | none => exact .refl hs
  | some cs =>
    have he := hev cs hcs
    have hdb : cs.lockinHandler.db = ns.lockinDB := lockinDB_of_service hcs
    -- a record in the memory of another service is not in this one's
    have hother : ∀ t c h l, t ≠ token → ns.service t = some c → c.lockinHandler.dealingMap.lookup h = some l →
        cs.lockinHandler.dealingMap.lookup h = none ∧ ∃ r, cs.lockinHandler.db.lookup h = some r ∧ Follows r l := by
      intro t c h l ht hc hl
      constructor
      · cases hm : cs.lockinHandler.dealingMap.lookup h with
        | none => rfl
        | some _ => exact absurd (hs.unique t token c cs h hc hcs (by simp [hl]) (by simp [hm])) ht
      · obtain ⟨r, hr, hf⟩ := hs.backed t c hc h l hl
        rw [lockinDB_of_service hc, ← hdb] at hr
        exact ⟨r, hr, hf⟩
    have hclash : ∀ t c h, t ≠ token → ns.service t = some c → (c.lockinHandler.dealingMap.lookup h).isSome →
        ¬ ((f cs).1.lockinHandler.dealingMap.lookup h).isSome := by
      intro t c h ht hc hl hnew
      obtain ⟨l, hl⟩ := Option.isSome_iff_exists.mp hl
      obtain ⟨hnone, r, hr, -⟩ := hother t c h l ht hc hl
      rcases he.entries h hnew with h1 | h1
      · simp [hnone] at h1
      · rw [hr] at h1
        cases h1
    refine ⟨⟨?_, ?_⟩, ?_⟩
    · intro t c hc
      by_cases ht : t = token
      · subst ht
        obtain rfl := Option.some.inj (service_put_self.symm.trans hc)
        exact he.backed
      · rw [service_put_ne ht] at hc
        obtain ⟨c', hc', rfl⟩ := Option.map_eq_some_iff.mp hc
        intro h l hl
        obtain ⟨hnone, r, hr, hf⟩ := hother t c' h l ht hc' hl
        exact ⟨r, he.idle h r hnone hr, hf⟩
    · intro t t' c c' h hc hc' hl hl'
      by_cases ht : t = token
      · subst ht
        obtain rfl := Option.some.inj (service_put_self.symm.trans hc)
        by_contra hne
        rw [service_put_ne (Ne.symm hne)] at hc'
        obtain ⟨d, hd, rfl⟩ := Option.map_eq_some_iff.mp hc'
        exact hclash t' d h (Ne.symm hne) hd hl' hl
      · rw [service_put_ne ht] at hc
        obtain ⟨d, hd, rfl⟩ := Option.map_eq_some_iff.mp hc
        by_cases ht' : t' = token
        · subst ht'
          obtain rfl := Option.some.inj (service_put_self.symm.trans hc')
          exact absurd hl' (hclash t d h ht hd hl)
        · rw [service_put_ne ht'] at hc'
          obtain ⟨d', hd', rfl⟩ := Option.map_eq_some_iff.mp hc'
          exact hs.unique t t' d d' h hd hd' hl hl'
    · intro h r hr
      rw [← hdb] at hr
      exact he.rows h r hr

end NotaryService

section Requests

variable {cs : CrossChainService} {x : Externals} {node : Node} {req : SCPrepareLockinRequest}

/-- What the search for the record of a request does: a record of Ethereum is looked up, one of
Bitcoin is registered. -/
theorem getLockInInfo_spec (hb : Backed cs.lockinHandler) :
    Evolves cs.lockinHandler (cs.getLockInInfoBySCPrepareLockInRequest x node req).1.lockinHandler ∧
    ∀ l, (cs.getLockInInfoBySCPrepareLockInRequest x node req).2 = .ok l →
      ((cs.getLockInInfoBySCPrepareLockInRequest x node req).1 = cs ∧
        cs.lockinHandler.getLockin req.secretHash = .ok l ∧ ∃ a, l.mcUserAddressHex = .account a) ∨
      (cs.getLockInInfoBySCPrepareLockInRequest x node req).1.lockinHandler = (cs.lockinHandler.registerLockin l).1 ∧
        (cs.lockinHandler.registerLockin l).2 = .ok () := by
  unfold CrossChainService.getLockInInfoBySCPrepareLockInRequest
  cases cs.mcName with
  | spectrum => exact ⟨.refl hb, fun _ h => by cases h⟩
  | ethereum =>
    dsimp only
    split
    · exact ⟨.refl hb, fun _ h => by cases h⟩
    · rename_i l' hget
      split_ifs with h1 h2 h3
      all_goals refine ⟨.refl hb, fun l h => ?_⟩
      any_goals cases h
      exact .inl ⟨rfl, hget, _, not_not.mp h1⟩
  | bitcoin =>
    dsimp only
    split
    · exact ⟨.refl hb, fun _ h => by cases h⟩
    split
    · exact ⟨.refl hb, fun _ h => by cases h⟩
    split
    · exact ⟨.refl hb, fun _ h => by cases h⟩
    split
    · exact ⟨.refl hb, fun _ h => by cases h⟩
    · refine ⟨evolves_registerLockin hb, fun l h => ?_⟩
      obtain ⟨u, hreg, rfl⟩ := map_eq_ok.mp h
      exact .inr ⟨rfl, wrap_eq_ok.mp hreg⟩

namespace NotaryService

variable {ns ns' : NotaryService} {token : Address} {pk : PrivateKeyInfo} {senderID : ℤ} {l : LockinInfo}
  {m : SpectrumPrepareLockinTxData}

theorem advances_foundLockin (x : Externals) (node : Node) (req : SCPrepareLockinRequest) (hs : ns.Sound) :
    Advances ns (ns.foundLockin x node req).1 :=
  advances_run hs fun cs hcs => (getLockInInfo_spec (hs.backed _ cs hcs)).1

/-- A record that was found follows its row, before and after, and is the one in memory; a record of
Bitcoin is new. -/
structure Found (ns ns' : NotaryService) (token : Address) (l : LockinInfo) : Prop where
  row : ∃ r, ns'.lockinDB.lookup l.secretHash = some r ∧ Follows r l
  entry : ∀ cs l', ns'.service token = some cs →
    cs.lockinHandler.dealingMap.lookup l.secretHash = some l' → l' = l
  before : ∀ r, ns.lockinDB.lookup l.secretHash = some r → Follows r l
  fresh : ∀ b, l.mcUserAddressHex = .bitcoin b → ns.lockinDB.lookup l.secretHash = none

theorem found_of_foundLockin (hs : ns.Sound) (h : ns.foundLockin x node req = (ns', .ok l)) :
    Found ns ns' req.scTokenAddress l := by
  unfold foundLockin run at h
  cases hcs : ns.service req.scTokenAddress with
  | none => simp [hcs] at h
  | some cs =>
    rw [hcs] at h
    obtain ⟨rfl, hr⟩ := Prod.mk.inj h
    have hb := hs.backed _ cs hcs
    have hdb : cs.lockinHandler.db = ns.lockinDB := lockinDB_of_service hcs
    rcases (getLockInInfo_spec hb).2 l hr with ⟨heq, hget, a, ha⟩ | ⟨hlh, hreg⟩
    · have hk : l.secretHash = req.secretHash := Handler.secretHash_of_get hget
      obtain ⟨r, hr, hf⟩ := row_of_getLockin hb hget
      refine ⟨?_, ?_, ?_, ?_⟩
      · rw [heq]
        exact ⟨r, hr, hf⟩
      · intro c l' hc hl'
        rw [heq, service_put_self] at hc
        obtain rfl := Option.some.inj hc
        rw [hk] at hl'
        exact eq_of_getLockin hget hl'
      · intro r' hr'
        rw [← hdb, hr] at hr'
        obtain rfl := Option.some.inj hr'
        exact hf
      · intro b hbtc
        rw [ha] at hbtc
        cases hbtc
    · obtain ⟨hnone, hrow, hentry⟩ := Handler.register_ok hreg
      rw [hdb] at hnone
      refine ⟨⟨l, ?_, .refl l⟩, ?_, ?_, fun _ _ => hnone⟩
      · change (cs.getLockInInfoBySCPrepareLockInRequest x node req).1.lockinHandler.db.lookup l.secretHash = some l
        rw [hlh]
        exact hrow
      · intro c l' hc hl'
        rw [service_put_self] at hc
        obtain rfl := Option.some.inj hc
        rw [hlh] at hl'
        exact Option.some.inj (hl'.symm.trans hentry)
      · intro r hr
        exact absurd (hr.symm.trans hnone) (by simp)

theorem follows_verifySignData {gas : GasOracle} {contract caller : Address} :
    Follows l (m.verifySignData x gas contract caller l).1 := by
  unfold SpectrumPrepareLockinTxData.verifySignData
  split_ifs
  all_goals exact ⟨rfl, rfl, rfl, rfl, rfl, id⟩

theorem advances_updateLockinInfoNotaryIDInChargeID (hs : ns.Sound) {h : Bytes32} :
    Advances ns (ns.updateLockinInfoNotaryIDInChargeID token h senderID).1 := by
  apply advances_run hs
  intro cs hcs
  split
  · exact .refl (hs.backed _ cs hcs)
  · rename_i l hget
    exact evolves_updateLockin (hs.backed _ cs hcs) hget ⟨rfl, rfl, rfl, rfl, rfl, id⟩

/-- After the record was found, a check only lets rows follow. -/
theorem advances_checkSpectrumPrepareLockin (pk : PrivateKeyInfo) (senderID : ℤ) (hs : ns.Sound) :
    Advances (ns.foundLockin x node m.userRequest).1 (ns.checkSpectrumPrepareLockin x node pk m senderID).1 := by
  have hfound := advances_foundLockin x node m.userRequest hs
  unfold checkSpectrumPrepareLockin
  cases hf : ns.foundLockin x node m.userRequest with
  | mk ns' r =>
    rw [hf] at hfound
    cases r with
    | error e =>
      unfold foundLockin at hf
      simp only [hf]
      exact .refl hfound.sound
    | ok l =>
      have hentry := (found_of_foundLockin hs hf).entry
      unfold foundLockin at hf
      simp only [hf]
      have hassign : Advances ns' (ns'.assignLockin m.userRequest.scTokenAddress
          (m.verifySignData x node.gas l.scTokenAddress pk.address l).1) := by
        apply advances_run hfound.sound
        intro cs hcs
        apply evolves_assign (hfound.sound.backed _ cs hcs)
        intro l' hl'
        rw [follows_verifySignData.secretHash] at hl'
        obtain rfl := hentry cs l' hcs hl'
        exact follows_verifySignData
      cases (m.verifySignData x node.gas l.scTokenAddress pk.address l).2 with
      | error e => exact hassign
      | ok tx => exact hassign.trans (advances_updateLockinInfoNotaryIDInChargeID hassign.sound)

/-- What is agreed has the contract and the amount of the record, whose lock on the side chain was
not seen before; a deposit on Bitcoin was not known before. -/
theorem agreed_of_check (hs : ns.Sound) {tx : PrepareTx}
    (h : (ns.checkSpectrumPrepareLockin x node pk m senderID).2 = .ok tx) :
    (∃ r, (ns.checkSpectrumPrepareLockin x node pk m senderID).1.lockinDB.lookup tx.secretHash = some r ∧
      tx.method = .prepareLockin ∧ tx.contract = r.scTokenAddress ∧ tx.amount = r.amount - r.crossFee ∧
      ∀ b, r.mcUserAddressHex = .bitcoin b → ns.lockinDB.lookup tx.secretHash = none) ∧
    ∀ r, ns.lockinDB.lookup tx.secretHash = some r → r.scLockStatus = .none := by
  obtain ⟨l, hl, hp, -⟩ := checkSpectrumPrepareLockin_ok_iff.mp h
  have hfound := found_of_foundLockin hs (Prod.ext rfl hl)
  obtain ⟨r, hr, hf⟩ := hfound.row
  obtain ⟨r', hr', hf'⟩ := (advances_checkSpectrumPrepareLockin pk senderID hs).rows _ r hr
  obtain ⟨a, g, -, rfl⟩ := hp.tx_eq
  refine ⟨⟨r', hr', rfl, ?_, ?_, ?_⟩, ?_⟩
  · exact hf.scTokenAddress.trans hf'.scTokenAddress.symm
  · simp only [hf'.amount, hf'.crossFee, hf.amount, hf.crossFee]
  · intro b hb
    exact hfound.fresh b (by rw [hf.mcUserAddressHex, ← hf'.mcUserAddressHex, hb])
  · intro r0 hr0
    by_contra hne
    exact (hfound.before r0 hr0).scSeen hne hp.scNone

end NotaryService

end Requests

/-- A notary with what it agreed to sign and the hashes whose lock on the side chain it processed. -/
structure CoSigner where
  ns : NotaryService
  agreed : List PrepareTx := []
  prepared : List Bytes32 := []

namespace CoSigner

/-- A request of another notary, the two ends of a request of a user, and an event. -/
inductive Action where
  | ask (node : Node) (privateKeyInfo : PrivateKeyInfo) (m : SpectrumPrepareLockinTxData) (senderID : ℤ)
  | userRequest (node : Node) (req : SCPrepareLockinRequest)
  | charge (scToken : Address) (secretHash : Bytes32)
  | event (scToken : Address) (e : LockinEvent)

def next (x : Externals) (s : CoSigner) : Action → CoSigner
  | .ask node privateKeyInfo m senderID =>
    let r := s.ns.checkSpectrumPrepareLockin x node privateKeyInfo m senderID
    { s with
      ns := r.1
      agreed := match r.2 with
        | .ok tx => tx :: s.agreed
        | .error _ => s.agreed }
  | .userRequest node req => { s with ns := (s.ns.foundLockin x node req).1 }
  | .charge scToken secretHash => { s with ns := (s.ns.run scToken fun cs => cs.chargeLockin secretHash).1 }
  | .event scToken e =>
    let r := s.ns.run scToken fun cs => cs.onEvent e
    { s with
      ns := r.1
      prepared := match e, r.2 with
        | .scPrepareLockin .., .ok ls => ls.map LockinInfo.secretHash ++ s.prepared
        | _, _ => s.prepared }

/-- The handlers of all tokens were made by `newLockinHandler` over the table. -/
def Starts (s : CoSigner) : Prop :=
  (∀ t cs, s.ns.service t = some cs →
    ∃ dbFails, cs.lockinHandler = newLockinHandler s.ns.lockinDB dbFails t) ∧ s.agreed = [] ∧ s.prepared = []

def Steps (x : Externals) (s s' : CoSigner) : Prop := ∃ a, s' = s.next x a

/-- What holds in every run. -/
structure Inv (s : CoSigner) : Prop where
  sound : s.ns.Sound
  seen : ∀ h ∈ s.prepared, ∃ r, s.ns.lockinDB.lookup h = some r ∧ r.scLockStatus ≠ .none
  terms : ∀ tx ∈ s.agreed, ∃ r, s.ns.lockinDB.lookup tx.secretHash = some r ∧ tx.method = .prepareLockin ∧
    tx.contract = r.scTokenAddress ∧ tx.amount = r.amount - r.crossFee
  once : ∀ h r b, s.ns.lockinDB.lookup h = some r → r.mcUserAddressHex = .bitcoin b →
    (s.agreed.filter fun tx => tx.secretHash = h).length ≤ 1

variable {x : Externals} {s : CoSigner}

theorem inv_of_starts (h : s.Starts) : s.Inv := by
  obtain ⟨hnew, ha, hp⟩ := h
  have hentry : ∀ t cs h l, s.ns.service t = some cs → cs.lockinHandler.dealingMap.lookup h = some l →
      s.ns.lockinDB.lookup h = some l ∧ l.scTokenAddress = t := by
    intro t cs h l hcs hl
    obtain ⟨dbFails, heq⟩ := hnew t cs hcs
    rw [heq] at hl
    obtain ⟨hl, ht⟩ := RecordMap.lookup_filter_eq_some.mp hl
    exact ⟨hl, of_decide_eq_true ht⟩
  refine ⟨⟨?_, ?_⟩, ?_, ?_, ?_⟩
  · intro t cs hcs h l hl
    rw [NotaryService.lockinDB_of_service hcs]
    exact ⟨l, (hentry t cs h l hcs hl).1, .refl l⟩
  · intro t t' cs cs' h hcs hcs' hl hl'
    obtain ⟨l, hl⟩ := Option.isSome_iff_exists.mp hl
    obtain ⟨l', hl'⟩ := Option.isSome_iff_exists.mp hl'
    obtain ⟨hr, ht⟩ := hentry t cs h l hcs hl
    obtain ⟨hr', ht'⟩ := hentry t' cs' h l' hcs' hl'
    obtain rfl := Option.some.inj (hr.symm.trans hr')
    exact ht.symm.trans ht'
  · simp [hp]
  · simp [ha]
  · simp [ha]

/-- What was known of rows is known of the rows that follow them. -/
theorem Inv.advances (hi : s.Inv) {ns : NotaryService} (ha : NotaryService.Advances s.ns ns) :
    Inv { s with ns := ns } := by
  refine ⟨ha.sound, ?_, ?_, ?_⟩
  · intro h hh
    obtain ⟨r, hr, hs⟩ := hi.seen h hh
    obtain ⟨r', hr', hf⟩ := ha.rows h r hr
    exact ⟨r', hr', hf.scSeen hs⟩
  · intro tx htx
    obtain ⟨r, hr, h1, h2, h3⟩ := hi.terms tx htx
    obtain ⟨r', hr', hf⟩ := ha.rows _ r hr
    exact ⟨r', hr', h1, by rw [h2, hf.scTokenAddress], by rw [h3, hf.amount, hf.crossFee]⟩
  · intro h r' b hr' hb
    cases hr : s.ns.lockinDB.lookup h with
    | some r =>
      obtain ⟨r'', hr'', hf⟩ := ha.rows h r hr
      obtain rfl := Option.some.inj (hr''.symm.trans hr')
      exact hi.once h r b hr (by rw [← hf.mcUserAddressHex, hb])
    | none =>
      have hnil : (s.agreed.filter fun tx => tx.secretHash = h) = [] := by
        rw [List.filter_eq_nil_iff]
        intro tx htx he
        obtain ⟨r, hr', -⟩ := hi.terms tx htx
        rw [of_decide_eq_true he, hr] at hr'
        cases hr'
      simp [hnil]

/-- A request keeps the invariant, whatever it is. -/
theorem Inv.ask (hi : s.Inv) {node : Node} {pk : PrivateKeyInfo} {m : SpectrumPrepareLockinTxData} {senderID : ℤ} :
    (s.next x (.ask node pk m senderID)).Inv := by
  have hadv := (NotaryService.advances_foundLockin x node m.userRequest hi.sound).trans
    (NotaryService.advances_checkSpectrumPrepareLockin pk senderID hi.sound)
  have hi' := hi.advances hadv
  unfold next
  dsimp only
  cases hr : (s.ns.checkSpectrumPrepareLockin x node pk m senderID).2 with
  | error e => exact hi'
  | ok tx =>
    obtain ⟨⟨r, hrow, h1, h2, h3, hnew⟩, -⟩ := NotaryService.agreed_of_check hi.sound hr
    refine ⟨hi'.sound, hi'.seen, ?_, ?_⟩
    · intro tx' htx'
      rcases List.mem_cons.mp htx' with rfl | htx'
      · exact ⟨r, hrow, h1, h2, h3⟩
      · exact hi'.terms tx' htx'
    · intro h r' b hr' hb
      dsimp only
      rw [List.filter_cons]
      split
      · rename_i he
        have he := of_decide_eq_true he
        subst he
        obtain rfl := Option.some.inj (hrow.symm.trans hr')
        have hnone := hnew b hb
        have hnil : (s.agreed.filter fun tx' => tx'.secretHash = tx.secretHash) = [] := by
          rw [List.filter_eq_nil_iff]
          intro tx' htx' he
          obtain ⟨r0, hr0, -⟩ := hi.terms tx' htx'
          rw [of_decide_eq_true he, hnone] at hr0
          cases hr0
        simp [hnil]
      · exact hi'.once h r' b hr' hb

/-- The lock of the notaries on the side chain is in the row once its event was processed. -/
theorem row_of_onSCPrepareLockin {cs : CrossChainService} {p : Except String AtmosphereToken} {e : PrepareEvent}
    {l : LockinInfo} (h : (cs.onSCPrepareLockin p e).2 = .ok l) :
    (cs.onSCPrepareLockin p e).1.lockinHandler.db.lookup l.secretHash = some l ∧ l.scLockStatus = .lock := by
  rw [CrossChainService.onSCPrepareLockin_eq] at h ⊢
  unfold CrossChainService.amendLockin at h ⊢
  split at h
  · cases h
  · split at h
    · cases h
    · obtain ⟨u, hupd, rfl⟩ := map_eq_ok.mp h
      exact ⟨Handler.update_db (wrap_eq_ok.mp hupd), rfl⟩

/-- So does an event. -/
theorem Inv.event (hi : s.Inv) {t : Address} {e : LockinEvent} : (s.next x (.event t e)).Inv := by
  have hadv : NotaryService.Advances s.ns (s.ns.run t fun cs => cs.onEvent e).1 :=
    NotaryService.advances_run hi.sound fun cs hcs => evolves_onEvent (hi.sound.backed t cs hcs) e
  have hi' := hi.advances hadv
  cases e with
  | scPrepareLockin p e =>
    unfold CoSigner.next
    dsimp only
    split
    · rename_i ls _ hr
      refine ⟨hi'.sound, ?_, hi'.terms, hi'.once⟩
      intro h hh
      rcases List.mem_append.mp hh with hh | hh
      · obtain ⟨l, hl, rfl⟩ := List.mem_map.mp hh
        unfold NotaryService.run at hr ⊢
        cases hcs : s.ns.service t with
        | none => simp [hcs] at hr
        | some cs =>
          rw [hcs] at hr
          obtain ⟨l', hl', rfl⟩ := map_eq_ok.mp hr
          obtain rfl := List.mem_singleton.mp hl
          obtain ⟨hrow, hlock⟩ := row_of_onSCPrepareLockin hl'
          exact ⟨l, hrow, by simp [hlock]⟩
      · exact hi'.seen h hh
    · exact hi'
  | _ => exact hi'

theorem Inv.next (hi : s.Inv) (a : Action) : (s.next x a).Inv := by
  cases a with
  | ask node pk m senderID => exact hi.ask
  | userRequest node req => exact hi.advances (NotaryService.advances_foundLockin x node req hi.sound)
  | charge t h =>
    apply hi.advances (NotaryService.advances_run hi.sound _)
    intro cs hcs
    exact evolves_amendLockin_ok (hi.sound.backed _ cs hcs) fun l => ⟨rfl, rfl, rfl, rfl, rfl, id⟩
  | event t e => exact hi.event

/-- In every run, whatever the requests and the order of the events: a deposit is not agreed once
the lock of the notaries was processed; all that was agreed for one hash calls the same contract
with the amount of the record; and for a deposit on Bitcoin it is at most one transaction. -/
theorem agreed_of_reachable (hr : Reachable Starts (Steps x) s) :
    (∀ node pk m senderID tx, (s.ns.checkSpectrumPrepareLockin x node pk m senderID).2 = .ok tx →
      tx.secretHash ∉ s.prepared) ∧
    (∀ tx ∈ s.agreed, ∀ tx' ∈ s.agreed, tx'.secretHash = tx.secretHash →
      tx'.contract = tx.contract ∧ tx'.method = tx.method ∧ tx'.amount = tx.amount) ∧
    (∀ tx ∈ s.agreed, ∃ r, s.ns.lockinDB.lookup tx.secretHash = some r ∧ tx.amount = r.amount - r.crossFee) ∧
    ∀ h r b, s.ns.lockinDB.lookup h = some r → r.mcUserAddressHex = .bitcoin b →
      (s.agreed.filter fun tx => tx.secretHash = h).length ≤ 1 := by
  have hi : s.Inv := hr.invariant (fun s => inv_of_starts) fun s s' _ hi ⟨a, ha⟩ => ha ▸ hi.next a
  refine ⟨?_, ?_, ?_, hi.once⟩
  · intro node pk m senderID tx htx hp
    obtain ⟨r, hr, hs⟩ := hi.seen _ hp
    exact hs ((NotaryService.agreed_of_check hi.sound htx).2 r hr)
  · intro tx htx tx' htx' he
    obtain ⟨r, hr, h1, h2, h3⟩ := hi.terms tx htx
    obtain ⟨r', hr', h1', h2', h3'⟩ := hi.terms tx' htx'
    rw [he] at hr'
    obtain rfl := Option.some.inj (hr.symm.trans hr')
    exact ⟨h2'.trans h2.symm, h1'.trans h1.symm, h3'.trans h3.symm⟩
  · intro tx htx
    obtain ⟨r, hr, -, -, h3⟩ := hi.terms tx htx
    exact ⟨r, hr, h3⟩

/-- A notary with one deposit of account `1`. -/
def start5 : CoSigner where
  ns := {
    lockinDB := ({} : RecordMap lockinKind).put lockinInfo5
    services := (∅ : RangeMap Address CrossChainService).insert 3
      { service6 .ethereum 3 with
        lockinHandler := newLockinHandler (({} : RecordMap lockinKind).put lockinInfo5) (fun _ => false) 3 } }

/-- Two requests for the deposit, with other nonces, recipients and expirations. -/
def ask5 (nonce : UInt64) (signer bytesToSign : Bytes) (scExpiration : UInt64) : Action :=
  .ask node6 privateKeyInfo6
    { bytesToSign := bytesToSign, nonce := nonce, userRequest := { lockinRequest5 with signer := some signer }
      scExpiration := scExpiration } 1

def twice5 : CoSigner :=
  (start5.next .short (ask5 0 [0, 0] [0, 2, 246] 2550)).next .short (ask5 1 [0, 0, 0] [1, 3, 40] 2600)

theorem start5_starts : start5.Starts := by
  refine ⟨?_, rfl, rfl⟩
  intro t cs hcs
  by_cases ht : t = 3
  · subst ht
    obtain rfl := Option.some.inj hcs
    exact ⟨fun _ => false, rfl⟩
  · unfold NotaryService.service start5 at hcs
    rw [AList.lookup_insert_ne ht] at hcs
    cases hcs

theorem twice5_reachable : Reachable Starts (Steps .short) twice5 :=
  .step (.step (.init start5_starts) ⟨_, rfl⟩) ⟨_, rfl⟩

/-- Both are agreed. -/
theorem agreed_twice : Reachable Starts (Steps .short) twice5 ∧
    twice5.agreed.map (fun tx => (tx.secretHash, tx.nonce, tx.account, tx.expiration)) =
      [(5, 1, 3, 2600), (5, 0, 2, 2550)] := ⟨twice5_reachable, by decide +kernel⟩

theorem agreed_of_reachable_twice5 :
    (∀ tx ∈ twice5.agreed, ∀ tx' ∈ twice5.agreed, tx'.secretHash = tx.secretHash →
      tx'.contract = tx.contract ∧ tx'.method = tx.method ∧ tx'.amount = tx.amount) ∧
    twice5.agreed.map PrepareTx.amount = [9999, 9999] :=
  ⟨(agreed_of_reachable twice5_reachable).2.1, by decide +kernel⟩

end CoSigner

end DistributedNotary.Service

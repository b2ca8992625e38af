import DistributedNotary.Btc.Spends
import DistributedNotary.Library.Transition

/-! The blocks that the Bitcoin node reports, and the transactions that wait in a table
for their confirmation. A connected block files its relevant transactions under its
height and hands on what is deep enough by then. The callback that is registered for a
disconnected block prints a line; the function that would delete the entry is not
registered. -/
namespace DistributedNotary.Btc

open Library

/-- What the service sends: a new block, or the events of a transaction that is confirmed. -/
inductive Sent where
  | newBlock (blockNumber : ℕ)
  | confirmed (blockNumber : ℕ) (tx : Tx)

structure Confirmations where
  lastBlockNumber : ℕ := 0
  confirmMap : RangeMap ℕ (List Tx) := ∅
  eventChan : List Sent := []

namespace Confirmations

variable (bs : Confirmations) (confirmBlockNumber : ℕ) (rg : Range ℕ)

/-- The entries that are deep enough at a height. -/
def deepEnough (height : ℕ) (confirmMap : RangeMap ℕ (List Tx)) : List (ℕ × List Tx) :=
  (RangeMap.range confirmMap rg).filter fun e => e.1 + confirmBlockNumber ≤ height

def onFilteredBlockConnected (height : ℕ) (txs : List Tx) : Confirmations :=
  let confirmMap := if txs.length > 0 then bs.confirmMap.insert height txs else bs.confirmMap
  let confirmed := deepEnough confirmBlockNumber rg height confirmMap
  { lastBlockNumber := height
    confirmMap := (confirmed.map Prod.fst).foldl (fun m n => m.erase n) confirmMap
    eventChan := bs.eventChan ++ .newBlock height :: confirmed.flatMap fun e => e.2.map (.confirmed e.1) }

/-- What is written for a disconnected block, and not registered. -/
def onFilteredBlockDisconnected (height : ℕ) : Confirmations :=
  { bs with confirmMap := bs.confirmMap.erase height }

/-- `OnBlockDisconnected` of `NewBTCService`. -/
def onBlockDisconnected (_height : ℕ) : Confirmations := bs

/-- The hashes of the transactions that were sent, in order. -/
def sentHashes : List String := bs.eventChan.filterMap fun
  | .newBlock _ => none
  | .confirmed _ tx => some tx.hash

end Confirmations

structure Block where
  height : ℕ
  txs : List Tx

/-- The service beside the chain: the height of its last block, the blocks that were connected since the start, last
first, and all chains so far with their heights. -/
structure ChainView where
  service : Confirmations := {}
  tip : ℕ
  chain : List Block := []
  past : List (ℕ × List Block) := []

namespace ChainView

variable (w : ChainView) (confirmBlockNumber : ℕ) (rg : Range ℕ)

def connect (txs : List Tx) : ChainView where
  service := w.service.onFilteredBlockConnected confirmBlockNumber rg (w.tip + 1) txs
  tip := w.tip + 1
  chain := { height := w.tip + 1, txs := txs } :: w.chain
  past := (w.tip + 1, { height := w.tip + 1, txs := txs } :: w.chain) :: w.past

def disconnect : ChainView where
  service := w.service.onBlockDisconnected w.tip
  tip := w.tip - 1
  chain := w.chain.tail
  past := w.past

/-- The transactions of a block are not on the chain yet, and different. -/
structure Extends (txs : List Tx) : Prop where
  nodup : (txs.map Tx.hash).Nodup
  fresh : ∀ t ∈ txs, ∀ b ∈ w.chain, ∀ u ∈ b.txs, t.hash ≠ u.hash

/-- Blocks come and go at the end of the chain; `ok` restricts the blocks that come. -/
inductive Step (ok : ChainView → List Tx → Prop) : ChainView → ChainView → Prop
  | connect (w : ChainView) (rg : Range ℕ) (txs : List Tx) (hext : w.Extends txs) (hok : ok w txs) :
      Step ok w (w.connect confirmBlockNumber rg txs)
  | disconnect (w : ChainView) (hpos : 0 < w.tip) : Step ok w w.disconnect

/-- The transaction was in a block that reached the depth. -/
def Confirmed (n : ℕ) (t : Tx) : Prop :=
  ∃ p ∈ w.past, ∃ b ∈ p.2, b.height = n ∧ t ∈ b.txs ∧ n + confirmBlockNumber ≤ p.1

/-- Only confirmed transactions are sent, and each one that is confirmed on the chain has been sent once. -/
structure Safe : Prop where
  sent : ∀ n t, .confirmed n t ∈ w.service.eventChan → w.Confirmed confirmBlockNumber n t
  once : ∀ b ∈ w.chain, b.height + confirmBlockNumber ≤ w.tip → ∀ t ∈ b.txs, w.service.sentHashes.count t.hash = 1

/-- A block without relevant transactions does not come where some still wait, and none of its transactions has been
sent. -/
structure Careful (txs : List Tx) : Prop where
  covered : txs = [] → w.service.confirmMap.lookup (w.tip + 1) = none
  unsent : ∀ t ∈ txs, t.hash ∉ w.service.sentHashes

end ChainView

namespace Confirmations

variable {bs : Confirmations} {confirmBlockNumber height : ℕ} {rg : Range ℕ} {txs : List Tx}

/-- The first half of the callback: the new block is announced and its transactions are filed. -/
def file (bs : Confirmations) (height : ℕ) (txs : List Tx) : Confirmations where
  lastBlockNumber := height
  confirmMap := if txs.length > 0 then bs.confirmMap.insert height txs else bs.confirmMap
  eventChan := bs.eventChan ++ [.newBlock height]

/-- The second half: what is deep enough is handed on and deleted. -/
def drain (bs : Confirmations) (confirmBlockNumber : ℕ) (rg : Range ℕ) (height : ℕ) : Confirmations :=
  let confirmed := deepEnough confirmBlockNumber rg height bs.confirmMap
  { bs with
    confirmMap := (confirmed.map Prod.fst).foldl (fun m n => m.erase n) bs.confirmMap
    eventChan := bs.eventChan ++ confirmed.flatMap fun e => e.2.map (.confirmed e.1) }

theorem onFilteredBlockConnected_eq : bs.onFilteredBlockConnected confirmBlockNumber rg height txs =
    (bs.file height txs).drain confirmBlockNumber rg height := by
  simp [onFilteredBlockConnected, file, drain]

theorem mem_deepEnough {m : RangeMap ℕ (List Tx)} {e : ℕ × List Tx} :
    e ∈ deepEnough confirmBlockNumber rg height m ↔ m.lookup e.1 = some e.2 ∧ e.1 + confirmBlockNumber ≤ height := by
  rw [deepEnough, List.mem_filter, RangeMap.mem_range, decide_eq_true_iff]

theorem lookup_drain {n : ℕ} : (bs.drain confirmBlockNumber rg height).confirmMap.lookup n =
    if n + confirmBlockNumber ≤ height then none else bs.confirmMap.lookup n := by
  have hmem : n ∈ (deepEnough confirmBlockNumber rg height bs.confirmMap).map Prod.fst ↔
      (∃ txs, bs.confirmMap.lookup n = some txs) ∧ n + confirmBlockNumber ≤ height := by
    rw [List.mem_map]
    constructor
    · rintro ⟨e, he, rfl⟩
      obtain ⟨hl, hle⟩ := mem_deepEnough.mp he
      exact ⟨⟨e.2, hl⟩, hle⟩
    · rintro ⟨⟨txs, hl⟩, hle⟩
      exact ⟨(n, txs), mem_deepEnough.mpr ⟨hl, hle⟩, rfl⟩
  unfold drain
  rw [RangeMap.lookup_foldl_erase]
  by_cases hle : n + confirmBlockNumber ≤ height
  · rw [if_pos hle]
    split_ifs with h
    · rfl
    · cases hl : bs.confirmMap.lookup n with
      | none => rfl
      | some txs => exact absurd (hmem.mpr ⟨⟨txs, hl⟩, hle⟩) h
  · rw [if_neg hle, if_neg fun h => hle (hmem.mp h).2]

theorem lookup_file {n : ℕ} : (bs.file height txs).confirmMap.lookup n =
    if txs ≠ [] ∧ n = height then some txs else bs.confirmMap.lookup n := by
  cases txs with
  | nil => simp [file]
  | cons t txs =>
    simp only [file, List.length_cons, Nat.zero_lt_succ, if_true, gt_iff_lt, RangeMap.lookup_insert_eq]
    simp

@[simp] theorem sentHashes_file : (bs.file height txs).sentHashes = bs.sentHashes := by
  simp [file, sentHashes]

theorem sentHashes_drain : (bs.drain confirmBlockNumber rg height).sentHashes = bs.sentHashes ++
    (deepEnough confirmBlockNumber rg height bs.confirmMap).flatMap fun e => e.2.map Tx.hash := by
  unfold drain sentHashes
  rw [List.filterMap_append, List.filterMap_flatMap]
  simp [List.filterMap_map]

end Confirmations

namespace ChainView

variable {w w' : ChainView} {confirmBlockNumber : ℕ} {txs : List Tx}

/-- How the table and what was sent fit to the blocks of the chain. -/
structure Fits (w : ChainView) : Prop where
  heights : ∀ i b, w.chain[i]? = some b → b.height + i = w.tip
  entries : ∀ n txs, w.service.confirmMap.lookup n = some txs → n ≤ w.tip → ∃ b ∈ w.chain, b.height = n ∧ b.txs = txs
  status : ∀ b ∈ w.chain, ∀ t ∈ b.txs, w.service.sentHashes.count t.hash =
    if (w.service.confirmMap.lookup b.height).isSome then 0 else 1
  nodup : ∀ b ∈ w.chain, (b.txs.map Tx.hash).Nodup
  apart : ∀ b ∈ w.chain, ∀ b' ∈ w.chain, ∀ t ∈ b.txs, ∀ u ∈ b'.txs, t.hash = u.hash → b.height = b'.height

theorem Fits.height_le (h : w.Fits) {b : Block} (hb : b ∈ w.chain) : b.height ≤ w.tip := by
  obtain ⟨i, hi⟩ := List.mem_iff_getElem?.mp hb
  have := h.heights i b hi
  omega

theorem Fits.eq_of_height (h : w.Fits) {b b' : Block} (hb : b ∈ w.chain) (hb' : b' ∈ w.chain)
    (heq : b.height = b'.height) : b = b' := by
  obtain ⟨i, hi⟩ := List.mem_iff_getElem?.mp hb
  obtain ⟨j, hj⟩ := List.mem_iff_getElem?.mp hb'
  have h1 := h.heights i b hi
  have h2 := h.heights j b' hj
  obtain rfl : i = j := by omega
  exact Option.some.inj (hi.symm.trans hj)

/-- The view after a block is filed and before anything is handed on. -/
def filed (w : ChainView) (txs : List Tx) : ChainView where
  service := w.service.file (w.tip + 1) txs
  tip := w.tip + 1
  chain := { height := w.tip + 1, txs := txs } :: w.chain
  past := (w.tip + 1, { height := w.tip + 1, txs := txs } :: w.chain) :: w.past

theorem Fits.filed (h : w.Fits) (hext : w.Extends txs) (hok : w.Careful txs) : (w.filed txs).Fits where
  heights := by
    intro i b hb
    cases i with
    | zero =>
      obtain rfl := Option.some.inj hb
      rfl
    | succ i =>
      have := h.heights i b hb
      change b.height + (i + 1) = w.tip + 1
      omega
  entries := by
    intro n txs' hl hle
    have hl : (w.service.file (w.tip + 1) txs).confirmMap.lookup n = some txs' := hl
    have hle : n ≤ w.tip + 1 := hle
    rw [Confirmations.lookup_file] at hl
    split_ifs at hl with hnew
    · exact ⟨_, List.mem_cons_self, hnew.2.symm, Option.some.inj hl⟩
    · by_cases hn : n = w.tip + 1
      · -- an empty block does not come where transactions wait
        have hnil : txs = [] := by
          by_contra hne
          exact hnew ⟨hne, hn⟩
        rw [hn, hok.covered hnil] at hl
        cases hl
      · obtain ⟨b, hb, hfound⟩ := h.entries n txs' hl (by omega)
        exact ⟨b, List.mem_cons_of_mem _ hb, hfound⟩
  status := by
    intro b hb t ht
    change (w.service.file (w.tip + 1) txs).sentHashes.count t.hash =
      if ((w.service.file (w.tip + 1) txs).confirmMap.lookup b.height).isSome then 0 else 1
    rw [Confirmations.sentHashes_file]
    rcases List.mem_cons.mp hb with rfl | hb
    · have hl : (w.service.file (w.tip + 1) txs).confirmMap.lookup (w.tip + 1) = some txs := by
        rw [Confirmations.lookup_file, if_pos ⟨List.ne_nil_of_mem ht, rfl⟩]
      simp only [hl, Option.isSome_some, if_true]
      exact List.count_eq_zero.mpr (hok.unsent t ht)
    · have hl : (w.service.file (w.tip + 1) txs).confirmMap.lookup b.height =
          w.service.confirmMap.lookup b.height := by
        have hlt := h.height_le hb
        rw [Confirmations.lookup_file, if_neg (fun hc => by omega)]
      rw [hl, h.status b hb t ht]
  nodup := by
    intro b hb
    rcases List.mem_cons.mp hb with rfl | hb
    · exact hext.nodup
    · exact h.nodup b hb
  apart := by
    intro b hb b' hb' t ht u hu heq
    rcases List.mem_cons.mp hb with rfl | hb
    · rcases List.mem_cons.mp hb' with rfl | hb'
      · rfl
      · exact absurd heq (hext.fresh t ht b' hb' u hu)
    · rcases List.mem_cons.mp hb' with rfl | hb'
      · exact absurd heq.symm (hext.fresh u hu b hb t ht)
      · exact h.apart b hb b' hb' t ht u hu heq

/-- The view after what is deep enough is handed on. -/
def drained (w : ChainView) (confirmBlockNumber : ℕ) (rg : Range ℕ) : ChainView :=
  { w with service := w.service.drain confirmBlockNumber rg w.tip }

theorem connect_eq (rg : Range ℕ) :
    w.connect confirmBlockNumber rg txs = (w.filed txs).drained confirmBlockNumber rg := by
  unfold connect filed drained
  rw [Confirmations.onFilteredBlockConnected_eq]

section Drain

variable {rg : Range ℕ}

/-- What is handed on, in order. -/
def handedOn (w : ChainView) (confirmBlockNumber : ℕ) (rg : Range ℕ) : List (ℕ × List Tx) :=
  Confirmations.deepEnough confirmBlockNumber rg w.tip w.service.confirmMap

/-- An entry that is handed on is a block of the chain. -/
theorem Fits.block_of_handedOn (h : w.Fits) {e : ℕ × List Tx} (he : e ∈ w.handedOn confirmBlockNumber rg) :
    ∃ b ∈ w.chain, b.height = e.1 ∧ b.txs = e.2 := by
  obtain ⟨hl, hle⟩ := Confirmations.mem_deepEnough.mp he
  exact h.entries e.1 e.2 hl (by omega)

/-- No transaction is handed on twice. -/
theorem Fits.nodup_handedOn (h : w.Fits) :
    ((w.handedOn confirmBlockNumber rg).flatMap fun e => e.2.map Tx.hash).Nodup := by
  rw [List.nodup_flatMap]
  constructor
  · intro e he
    obtain ⟨b, hb, -, htxs⟩ := h.block_of_handedOn he
    exact htxs ▸ h.nodup b hb
  · have hkeys : (w.handedOn confirmBlockNumber rg).Pairwise fun e e' => e.1 ≠ e'.1 :=
      List.pairwise_map.mp ((RangeMap.nodup_range_fst w.service.confirmMap rg).sublist (List.filter_sublist.map _))
    refine hkeys.imp_of_mem fun {e e'} he he' hne => ?_
    obtain ⟨b, hb, hheight, htxs⟩ := h.block_of_handedOn he
    obtain ⟨b', hb', hheight', htxs'⟩ := h.block_of_handedOn he'
    intro x hx hx'
    obtain ⟨t, ht, rfl⟩ := List.mem_map.mp hx
    obtain ⟨u, hu, heq⟩ := List.mem_map.mp hx'
    exact hne (hheight ▸ hheight' ▸ h.apart b hb b' hb' t (htxs ▸ ht) u (htxs' ▸ hu) heq.symm)

/-- A transaction of the chain is handed on exactly if its block waits and is deep enough. -/
theorem Fits.mem_handedOn_iff (h : w.Fits) {b : Block} (hb : b ∈ w.chain) {t : Tx} (ht : t ∈ b.txs) :
    t.hash ∈ (w.handedOn confirmBlockNumber rg).flatMap (fun e => e.2.map Tx.hash) ↔
      (w.service.confirmMap.lookup b.height).isSome = true ∧ b.height + confirmBlockNumber ≤ w.tip := by
  rw [List.mem_flatMap]
  constructor
  · rintro ⟨e, he, hx⟩
    obtain ⟨b', hb', hheight, htxs⟩ := h.block_of_handedOn he
    obtain ⟨u, hu, heq⟩ := List.mem_map.mp hx
    have hsame := h.apart b hb b' hb' t ht u (htxs ▸ hu) heq.symm
    obtain ⟨hl, hle⟩ := Confirmations.mem_deepEnough.mp he
    rw [hsame, hheight, hl]
    exact ⟨rfl, hle⟩
  · rintro ⟨hwaits, hle⟩
    obtain ⟨txs, hl⟩ := Option.isSome_iff_exists.mp hwaits
    obtain ⟨b', hb', hheight, htxs⟩ := h.entries b.height txs hl (h.height_le hb)
    obtain rfl := h.eq_of_height hb' hb hheight
    exact ⟨(b'.height, txs), Confirmations.mem_deepEnough.mpr ⟨hl, hle⟩, List.mem_map_of_mem (htxs ▸ ht)⟩

theorem Fits.drained (h : w.Fits) : (w.drained confirmBlockNumber rg).Fits where
  heights := h.heights
  entries := by
    intro n txs hl hle
    have hl : (w.service.drain confirmBlockNumber rg w.tip).confirmMap.lookup n = some txs := hl
    rw [Confirmations.lookup_drain] at hl
    split_ifs at hl
    exact h.entries n txs hl hle
  status := by
    intro b hb t ht
    change (w.service.drain confirmBlockNumber rg w.tip).sentHashes.count t.hash =
      if ((w.service.drain confirmBlockNumber rg w.tip).confirmMap.lookup b.height).isSome then 0 else 1
    rw [Confirmations.sentHashes_drain, List.count_append, h.status b hb t ht, Confirmations.lookup_drain]
    have hnodup : ((w.handedOn confirmBlockNumber rg).flatMap fun e => e.2.map Tx.hash).Nodup := h.nodup_handedOn
    have hmem : t.hash ∈ (w.handedOn confirmBlockNumber rg).flatMap (fun e => e.2.map Tx.hash) ↔ _ :=
      h.mem_handedOn_iff hb ht
    have hcount := hnodup.count (a := t.hash)
    unfold handedOn at hcount hmem
    rw [hcount]
    by_cases hdeep : b.height + confirmBlockNumber ≤ w.tip
    · cases hl : w.service.confirmMap.lookup b.height with
      | none => simp [hmem, hl, hdeep]
      | some txs => simp [hmem, hl, hdeep]
    · simp [hmem, hdeep]
  nodup := h.nodup
  apart := h.apart

end Drain

/-- What holds of every view that blocks with care lead to. -/
structure Inv (confirmBlockNumber : ℕ) (w : ChainView) : Prop where
  fits : w.Fits
  young : ∀ n, (w.service.confirmMap.lookup n).isSome = true → w.tip < n + confirmBlockNumber
  sent : ∀ n t, .confirmed n t ∈ w.service.eventChan → w.Confirmed confirmBlockNumber n t

theorem inv_start (tip : ℕ) : Inv confirmBlockNumber { tip := tip } where
  fits := by
    constructor
    · intro i b hb
      cases hb
    · intro n txs hl
      cases hl
    · intro b hb
      cases hb
    · intro b hb
      cases hb
    · intro b hb
      cases hb
  young := by
    intro n hn
    cases hn
  sent := by
    intro n t h
    cases h

/-- What was confirmed stays so. -/
theorem Confirmed.mono {n : ℕ} {t : Tx} (h : w.Confirmed confirmBlockNumber n t) (hpast : w.past ⊆ w'.past) :
    w'.Confirmed confirmBlockNumber n t := by
  obtain ⟨p, hp, hb⟩ := h
  exact ⟨p, hpast hp, hb⟩

theorem Inv.connect (h : Inv confirmBlockNumber w) {rg : Range ℕ} (hext : w.Extends txs) (hok : w.Careful txs) :
    Inv confirmBlockNumber (w.connect confirmBlockNumber rg txs) := by
  have hfiled := h.fits.filed hext hok
  rw [connect_eq]
  refine ⟨hfiled.drained, fun n hn => ?_, fun n t ht => ?_⟩
  · have hn : ((w.filed txs).service.drain confirmBlockNumber rg (w.tip + 1)).confirmMap.lookup n |>.isSome := hn
    rw [Confirmations.lookup_drain] at hn
    refine Nat.lt_of_not_le fun hle => ?_
    have hle : n + confirmBlockNumber ≤ w.tip + 1 := hle
    rw [if_pos hle] at hn
    cases hn
  · have ht : .confirmed n t ∈ w.service.eventChan ++ [.newBlock (w.tip + 1)] ++
        (((w.filed txs).handedOn confirmBlockNumber rg).flatMap fun e => e.2.map (.confirmed e.1)) := ht
    rcases List.mem_append.mp ht with hold | hnew
    · rcases List.mem_append.mp hold with hold | hblock
      · exact (h.sent n t hold).mono (List.subset_cons_self _ _)
      · cases List.mem_singleton.mp hblock
    · obtain ⟨e, he, hmem⟩ := List.mem_flatMap.mp hnew
      obtain ⟨u, hu, heq⟩ := List.mem_map.mp hmem
      obtain ⟨b, hb, hheight, htxs⟩ := hfiled.block_of_handedOn he
      obtain ⟨rfl, rfl⟩ := Sent.confirmed.inj heq
      exact ⟨_, List.mem_cons_self, b, hb, hheight, htxs ▸ hu, (Confirmations.mem_deepEnough.mp he).2⟩

theorem Inv.disconnect (h : Inv confirmBlockNumber w) (hpos : 0 < w.tip) : Inv confirmBlockNumber w.disconnect where
  fits := by
    have hsub : ∀ b ∈ w.chain.tail, b ∈ w.chain := fun b hb => List.mem_of_mem_tail hb
    constructor
    · intro i b hb
      have hb : w.chain.tail[i]? = some b := hb
      rw [List.getElem?_tail] at hb
      have := h.fits.heights (i + 1) b hb
      change b.height + i = w.tip - 1
      omega
    · intro n txs hl hle
      have hle : n ≤ w.tip - 1 := hle
      obtain ⟨b, hb, hheight, htxs⟩ := h.fits.entries n txs hl (by omega)
      refine ⟨b, ?_, hheight, htxs⟩
      -- the last block is the only one at the height of the tip
      obtain ⟨i, hi⟩ := List.mem_iff_getElem?.mp hb
      have hsum := h.fits.heights i b hi
      cases i with
      | zero => omega
      | succ i => exact List.mem_iff_getElem?.mpr ⟨i, List.getElem?_tail.trans hi⟩
    · exact fun b hb => h.fits.status b (hsub b hb)
    · exact fun b hb => h.fits.nodup b (hsub b hb)
    · exact fun b hb b' hb' => h.fits.apart b (hsub b hb) b' (hsub b' hb')
  young := by
    intro n hn
    have hlt := h.young n hn
    change w.tip - 1 < n + confirmBlockNumber
    omega
  sent := h.sent

theorem inv_of_run {tip : ℕ} (h : Relation.ReflTransGen (Step confirmBlockNumber Careful) { tip := tip } w) :
    Inv confirmBlockNumber w := by
  induction h with
  | refl => exact inv_start tip
  | tail _ hstep ih =>
    cases hstep with
    | connect rg txs hext hok => exact ih.connect hext hok
    | disconnect hpos => exact ih.disconnect hpos

/-- The view after a disconnected block if the deletion were registered. -/
def deleted (w : ChainView) : ChainView :=
  { w.disconnect with service := w.service.onFilteredBlockDisconnected w.tip }

/-- With the deletion a block without relevant transactions could follow. -/
theorem careful_nil_deleted (hpos : 0 < w.tip) : w.deleted.Careful [] where
  covered := by
    intro _
    change (w.service.confirmMap.erase w.tip).lookup (w.tip - 1 + 1) = none
    rw [Nat.sub_add_cancel hpos, AList.lookup_erase]
  unsent := fun _ ht => absurd ht List.not_mem_nil

/-- After every run of careful blocks only confirmed transactions have been sent, and each one that is confirmed on the
chain once. -/
theorem safe_of_run {tip : ℕ} (h : Relation.ReflTransGen (Step confirmBlockNumber Careful) { tip := tip } w) :
    w.Safe confirmBlockNumber := by
  have hinv := inv_of_run h
  refine ⟨hinv.sent, fun b hb hdeep t ht => ?_⟩
  have hnone : ¬ (w.service.confirmMap.lookup b.height).isSome = true := by
    intro hsome
    have := hinv.young b.height hsome
    omega
  rw [hinv.fits.status b hb t ht, if_neg hnone]

/-- A transaction without anything that matters here. -/
def plainTx (hash : String) : Tx where
  hash := hash
  txIn := []
  txOut := []

theorem extends_single {t : Tx} (h : ∀ b ∈ w.chain, ∀ u ∈ b.txs, t.hash ≠ u.hash) : w.Extends [t] :=
  ⟨List.nodup_singleton _, fun _ ht => List.mem_singleton.mp ht ▸ h⟩

theorem careful_single {t : Tx} (h : t.hash ∉ w.service.sentHashes) : w.Careful [t] :=
  ⟨fun hnil => absurd hnil (List.cons_ne_nil _ _), fun _ ht => List.mem_singleton.mp ht ▸ h⟩

theorem extends_nil : w.Extends [] := ⟨List.nodup_nil, fun _ ht => absurd ht List.not_mem_nil⟩

/-- The first block, at depth one. -/
def first : ChainView := ({ tip := 0 } : ChainView).connect 1 (Range.id ℕ) [plainTx "t"]

/-- It is taken back, and two blocks without relevant transactions come. -/
def emptied : ChainView := (first.disconnect.connect 1 (Range.id ℕ) []).connect 1 (Range.id ℕ) []

/-- It is taken back, and a block with another transaction comes, and one without. -/
def replaced : ChainView := (first.disconnect.connect 1 (Range.id ℕ) [plainTx "u"]).connect 1 (Range.id ℕ) []

/-- The transaction that was taken back at depth zero is sent. -/
theorem unsafe_emptied :
    Relation.ReflTransGen (Step 1 fun _ _ => True) { tip := 0 } emptied ∧ ¬ emptied.Safe 1 := by
  constructor
  · refine .tail (.tail (.tail (.tail .refl (.connect _ _ _ (extends_single ?_) trivial)) (.disconnect _ (by decide)))
      (.connect _ _ _ extends_nil trivial)) (.connect _ _ _ extends_nil trivial)
    intro b hb
    cases hb
  · intro h
    have hevents : emptied.service.eventChan =
        [.newBlock 1, .newBlock 1, .newBlock 2, .confirmed 1 (plainTx "t")] := rfl
    have hpast : emptied.past = [(2, [⟨2, []⟩, ⟨1, []⟩]), (1, [⟨1, []⟩]), (1, [⟨1, [plainTx "t"]⟩])] := rfl
    obtain ⟨p, hp, b, hb, hheight, ht, hdeep⟩ := h.sent 1 (plainTx "t") (by rw [hevents]; simp)
    rw [hpast] at hp
    simp only [List.mem_cons, List.not_mem_nil, or_false] at hp
    rcases hp with rfl | rfl | rfl
    · simp only [List.mem_cons, List.not_mem_nil, or_false] at hb
      rcases hb with rfl | rfl <;> exact absurd ht List.not_mem_nil
    · exact absurd hdeep (by decide)
    · exact absurd hdeep (by decide)

/-- A block with another transaction takes the place of the one that is taken back. -/
theorem safe_replaced : replaced.Safe 1 := by
  have hfirst : Relation.ReflTransGen (Step 1 Careful) { tip := 0 } first :=
    .tail .refl (.connect _ _ _ (extends_single fun _ hb => absurd hb List.not_mem_nil)
      (careful_single List.not_mem_nil))
  have hback : Relation.ReflTransGen (Step 1 Careful) { tip := 0 } first.disconnect :=
    hfirst.tail (.disconnect _ (by decide))
  have hagain := hback.tail (.connect _ (Range.id ℕ) [plainTx "u"]
    (extends_single fun _ hb => absurd hb List.not_mem_nil) (careful_single List.not_mem_nil))
  exact safe_of_run (hagain.tail (.connect _ _ _ extends_nil ⟨fun _ => rfl, fun _ ht => absurd ht List.not_mem_nil⟩))

end ChainView

end DistributedNotary.Btc

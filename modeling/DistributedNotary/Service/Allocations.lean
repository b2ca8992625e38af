import DistributedNotary.Library.Words
import DistributedNotary.Pbft.Numbering
import DistributedNotary.Service.Proposals

/-! Which operation an output is given to. The leader of a view marks what it gives
away in its own table and the others mark it in theirs, but a proposal of another
view takes the mark over, a new view keeps its proposals without marking anything,
and a commit overwrites whatever stands in the table. So what keeps an output with
one operation is only what the table of a leader offers it. -/
namespace DistributedNotary.Service

open Library Btc Pbft Server PBFTService

/-- The service of a Bitcoin account and how its database sorts equal rows. -/
structure BtcAccount where
  service : PBFTService
  asc : AmountAsc
  desc : AmountDesc

def BtcAccount.as (b : BtcAccount) : PBFTAuxiliary AuxiliaryDB := b.service.bitcoin b.asc b.desc

/-- `btcPBFTService` at every notary. -/
def btcPBFTService : PBFTAuxiliary (BtcAccount × AuxiliaryDB) := .each BtcAccount.as

section Texts

/-- The digest and the names of the outputs are hashes, without a dash. -/
structure Hashes (a : BtcAccount × AuxiliaryDB) : Prop where
  digest : ∀ op, '-' ∉ (a.1.service.digest op).toList
  keys : ∀ o ∈ a.2.outpoints.rows, '-' ∉ o.txHashStr.toList

/-- The outputs that an auxiliary was made of. -/
theorem outputsOf_join {digest : String} {txs : List String} (hdigest : '-' ∉ digest.toList)
    (htxs : ∀ tx ∈ txs, '-' ∉ tx.toList) : outputsOf (digest ++ String.join (txs.map ("-" ++ ·))) = txs := by
  have htext : (digest ++ String.join (txs.map ("-" ++ ·))).toList =
      unwords '-' (digest.toList :: txs.map String.toList) := by
    rw [← append_flatMap_sep, String.toList_append, String.toList_join, List.flatMap_map, List.flatMap_map]
    simp
  unfold outputsOf splitDash
  rw [htext, splitOn_unwords]
  · simp
  · intro c hc
    rcases List.mem_cons.mp hc with rfl | hc
    · exact hdigest
    · obtain ⟨tx, htx, rfl⟩ := List.mem_map.mp hc
      exact htxs tx htx
  · exact List.cons_ne_nil _ _

end Texts

section Keys

variable {db : OutpointTable} {a a' : BtcAccount × AuxiliaryDB}

theorem keys_mark (tx : String) (view : ℤ) (status : UTXOPBFTStatus) (reason : String) :
    (db.mark tx view status reason).rows.map BTCOutpoint.txHashStr = db.rows.map BTCOutpoint.txHashStr := by
  simp only [OutpointTable.mark, OutpointTable.rewrite, List.map_map]
  refine List.map_congr_left fun o _ => ?_
  simp only [Function.comp]
  split <;> rfl

theorem keys_reserve (view : ℤ) (txs : List String) :
    (reserve db view txs).1.rows.map BTCOutpoint.txHashStr = db.rows.map BTCOutpoint.txHashStr := by
  induction txs generalizing db with
  | nil => rfl
  | cons tx txs ih =>
    unfold PBFTService.reserve
    cases hpre : db.preSelectUTXO tx view with
    | error err => rfl
    | ok db' =>
      obtain ⟨o, -, -, rfl⟩ := OutpointTable.preSelectUTXO_ok hpre
      exact ih.trans (keys_mark ..)

theorem keys_commit (view : ℤ) (op : String) (txs : List String) :
    (txs.foldl (fun db tx => db.commitUTXO tx view op) db).rows.map BTCOutpoint.txHashStr =
      db.rows.map BTCOutpoint.txHashStr := by
  induction txs generalizing db with
  | nil => rfl
  | cons tx txs ih => exact ih.trans (keys_mark ..)

/-- A call keeps the names in the table. -/
theorem keys_called (h : btcPBFTService.Called a a') :
    a'.1 = a.1 ∧ a'.2.outpoints.rows.map BTCOutpoint.txHashStr = a.2.outpoints.rows.map BTCOutpoint.txHashStr := by
  cases h with
  | updateSeq seq op auxiliary h =>
    obtain rfl : a' = (a.1, a.1.service.updateSeq a.2 seq) := by
      rcases h with h | h
      · exact (Except.ok.inj h).symm
      · nomatch h
    refine ⟨rfl, ?_⟩
    simp only [PBFTService.updateSeq]
    split <;> rfl
  | getOpAuxiliary op view =>
    refine ⟨rfl, ?_⟩
    change (a.1.service.btcGetOpAuxiliary a.1.asc a.1.desc a.2 op view).1.outpoints.rows.map _ = _
    unfold btcGetOpAuxiliary
    split
    · rfl
    · split
      · rfl
      · exact keys_reserve ..
  | prepareSeq view seq op auxiliary =>
    refine ⟨rfl, ?_⟩
    change (a.1.service.btcPrepareSeq a.2 view auxiliary).1.outpoints.rows.map _ = _
    unfold btcPrepareSeq
    split_ifs
    · rfl
    · rfl
    · rfl
    · exact keys_reserve ..
  | commitSeq view seq op auxiliary =>
    refine ⟨rfl, ?_⟩
    change (btcCommitSeq a.2 view op auxiliary).1.outpoints.rows.map _ = _
    unfold btcCommitSeq
    split_ifs
    · rfl
    · exact keys_commit ..

theorem Hashes.called (h : Hashes a) (hc : btcPBFTService.Called a a') : Hashes a' := by
  obtain ⟨hservice, hkeys⟩ := keys_called hc
  refine ⟨fun op => hservice ▸ h.digest op, fun o ho => ?_⟩
  have hmem : o.txHashStr ∈ a.2.outpoints.rows.map BTCOutpoint.txHashStr := hkeys ▸ List.mem_map_of_mem ho
  obtain ⟨o', ho', heq⟩ := List.mem_map.mp hmem
  exact heq ▸ h.keys o' ho'

/-- The queries for the view offer the output. -/
def Offers (a : BtcAccount × AuxiliaryDB) (view : ℤ) (tx : String) : Prop :=
  ∃ o ∈ a.2.outpoints.lookup tx, o.availableTo view = true

instance instDecidableOffers (view : ℤ) (tx : String) : Decidable (Offers a view tx) := by
  unfold Offers
  infer_instance

/-- A leader gives away what its own table offers. -/
theorem offers_of_getOpAuxiliary (ha : Hashes a) {op auxiliary tx : String} {view : ℤ}
    (h : (btcPBFTService.getOpAuxiliary a op view).2 = .ok auxiliary) (htx : tx ∈ outputsOf auxiliary) :
    Offers a view tx := by
  change (a.1.service.btcGetOpAuxiliary a.1.asc a.1.desc a.2 op view).2 = .ok auxiliary at h
  unfold btcGetOpAuxiliary at h
  split at h
  · cases h
  · split at h
    · cases h
    · next os hos =>
      have hrows : ∀ o ∈ os, o ∈ a.2.outpoints.rows ∧ o.availableTo view = true := fun o ho =>
        OutpointTable.getAvailableUTXO_mem hos ho
      obtain ⟨-, -, rfl⟩ := map_eq_ok.mp h
      rw [outputsOf_join (ha.digest op)] at htx
      · obtain ⟨o, ho, rfl⟩ := List.mem_map.mp htx
        exact ⟨o, OutpointTable.lookup_of_mem (hrows o ho).1, (hrows o ho).2⟩
      · intro tx' htx'
        obtain ⟨o, ho, rfl⟩ := List.mem_map.mp htx'
        exact ha.keys o (hrows o ho).1

end Keys

section Proposals

variable (env : Env (BtcAccount × AuxiliaryDB)) (n : ℕ) (servers : ℤ → Server (BtcAccount × AuxiliaryDB))

/-- A message that does not make server `i` give a number to an operation while its table offers it an output
of a proposal for another operation. -/
def NoneOffered (i : ℤ) : Msg → Prop
  | .request args => (servers i).GivesNumber env args →
      ∀ j ∈ ids n, ∀ pp ∈ (servers j).proposals, pp.message.op ≠ args.op →
        ∀ tx ∈ outputsOf pp.digest, ¬ Offers (servers i).as i tx
  | _ => True

instance instDecidableNoneOffered (i : ℤ) : (msg : Msg) → Decidable (NoneOffered env n servers i msg)
  | .request args => inferInstanceAs (Decidable ((servers i).GivesNumber env args → ∀ j ∈ ids n, _))
  | .prePrepare _ | .prepare _ | .commit _ | .checkPoint _ | .viewChange _ | .newView _ | .response _ => .isTrue trivial

/-- A server has proposed the operation with the auxiliary. -/
def Proposed (op auxiliary : String) : Prop :=
  ∃ j ∈ ids n, ∃ pp ∈ (servers j).proposals, pp.message.op = op ∧ pp.digest = auxiliary

/-- The auxiliary has no outputs, or it was proposed for the operation. -/
def Sourced (_ : ℤ) (op auxiliary : String) : Prop := outputsOf auxiliary = [] ∨ Proposed n servers op auxiliary

/-- Operations come with the outputs that they were proposed with, and proposals for different operations share
no output. -/
structure Allotted : Prop where
  carries : ∀ i ∈ ids n, Carries (Sourced n servers) (servers i)
  hashes : ∀ i, Hashes (servers i).as
  disjoint : ∀ op op' auxiliary auxiliary', Proposed n servers op auxiliary → Proposed n servers op' auxiliary' →
    op ≠ op' → (outputsOf auxiliary).Disjoint (outputsOf auxiliary')

/-- What is executed for different operations, at whichever servers, shares no output. -/
def OutputsOnce : Prop :=
  ∀ i ∈ ids n, ∀ j ∈ ids n, ∀ view view' seq seq' op op' auxiliary auxiliary',
    .updateSeq view seq op auxiliary ∈ (servers i).trace → .updateSeq view' seq' op' auxiliary' ∈ (servers j).trace →
      op ≠ op' → (outputsOf auxiliary).Disjoint (outputsOf auxiliary')

end Proposals

section Runs

variable {env : Env (BtcAccount × AuxiliaryDB)} {n f : ℕ} {servers : ℤ → Server (BtcAccount × AuxiliaryDB)} {i : ℤ}
  {s' : Server (BtcAccount × AuxiliaryDB)}

theorem NoneOffered.lasting : Lasting (NoneOffered env n) := by
  intro servers i s' msg h hb
  cases msg with
  | request args =>
    obtain rfl : s' = servers i := hb
    rwa [Function.update_eq_self]
  | _ => trivial

theorem Proposed.update (ht : (servers i).trace <:+ s'.trace) {op auxiliary : String}
    (h : Proposed n servers op auxiliary) : Proposed n (Function.update servers i s') op auxiliary := by
  obtain ⟨j, hj, pp, hs, hpp⟩ := h
  exact ⟨j, hj, pp, mem_proposals.mpr (update_sent ht (mem_proposals.mp hs)), hpp⟩

theorem Proposed.of_update {op auxiliary : String} (h : Proposed n (Function.update servers i s') op auxiliary) :
    Proposed n servers op auxiliary ∨
      i ∈ ids n ∧ ∃ pp ∈ s'.proposals, pp.message.op = op ∧ pp.digest = auxiliary := by
  obtain ⟨j, hj, pp, hs, hpp⟩ := h
  by_cases e : j = i
  · subst e
    rw [Function.update_self] at hs
    exact .inr ⟨hj, pp, hs, hpp⟩
  · rw [Function.update_of_ne e] at hs
    exact .inl ⟨j, hj, pp, hs, hpp⟩

/-- A move proposes at most one operation anew, with outputs that no other operation was proposed with. -/
theorem Allotted.fresh (h : Allotted n servers) (henv : env.as = btcPBFTService) (hi : i ∈ ids n)
    (hid : (servers i).id = i) (hm : Move env (fun _ => Takes n ∅ servers (NoneOffered env n) i) (servers i) s') :
    ∃ op auxiliary,
      (∀ op' auxiliary', Proposed n (Function.update servers i s') op' auxiliary' →
        outputsOf auxiliary' = [] ∨ Proposed n servers op' auxiliary' ∨ op' = op ∧ auxiliary' = auxiliary) ∧
      ∀ op' auxiliary', Proposed n servers op' auxiliary' → op' ≠ op →
        (outputsOf auxiliary').Disjoint (outputsOf auxiliary) := by
  have hown : ∀ pp ∈ (servers i).proposals, Proposed n servers pp.message.op pp.digest := fun pp hpp =>
    ⟨i, hi, pp, hpp, rfl, rfl⟩
  rcases hm.proposals_cases with hsame | ⟨pp, hcons, hpp⟩
  · refine ⟨"", "", fun op' auxiliary' hp => ?_, fun _ _ _ _ => by simp [outputsOf_empty]⟩
    rcases hp.of_update with hp | ⟨-, pp, hpp, rfl, rfl⟩
    · exact .inr (.inl hp)
    · exact .inr (.inl (hown pp (hsame ▸ hpp)))
  · refine ⟨pp.message.op, pp.digest, fun op' auxiliary' hp => ?_, ?_⟩
    · rcases hp.of_update with hp | ⟨-, pp', hpp', rfl, rfl⟩
      · exact .inr (.inl hp)
      · rcases List.mem_cons.mp (hcons ▸ hpp') with rfl | hmem
        · exact .inr (.inr ⟨rfl, rfl⟩)
        · exact .inr (.inl (hown pp' hmem))
    · rintro op' auxiliary' hp hne tx htx htx'
      rcases hpp with ⟨r, hr⟩ | ⟨hk, hgives, -, haux⟩
      · -- a proposal that is made again has been made before
        rcases (h.carries i hi).entries r pp hr with hnil | hbefore
        · rw [hnil] at htx'
          nomatch htx'
        · exact h.disjoint _ _ _ _ hp hbefore hne htx htx'
      · rw [henv, hid] at haux
        have hoffers := offers_of_getOpAuxiliary (h.hashes i) haux htx'
        rcases hk with ⟨hself, -⟩ | ⟨-, hnone⟩
        · simp [Msg.handledByItself] at hself
        · obtain ⟨j, hj, pp', hpp', rfl, rfl⟩ := hp
          exact hnone hgives j hj pp' hpp' hne tx htx hoffers

theorem Allotted.move (h : Allotted n servers) (henv : env.as = btcPBFTService) (hi : i ∈ ids n)
    (hid : (servers i).id = i) (hs : (servers i).WF)
    (hm : Move env (fun _ => Takes n ∅ servers (NoneOffered env n) i) (servers i) s') :
    Allotted n (Function.update servers i s') := by
  obtain ⟨op, auxiliary, hfresh, hfree⟩ := h.fresh henv hi hid hm
  have hmono : ∀ seq op auxiliary, Sourced n servers seq op auxiliary →
      Sourced n (Function.update servers i s') seq op auxiliary :=
    fun _ _ _ hsource => hsource.imp_right (Proposed.update hm.trace_suffix)
  refine ⟨fun j hj => ?_, fun j => ?_, fun op₁ op₂ aux₁ aux₂ h₁ h₂ hne tx htx₁ htx₂ => ?_⟩
  · by_cases e : j = i
    · subst e
      rw [Function.update_self]
      refine ((h.carries j hj).mono hmono).move hs (fun _ => .inl outputsOf_empty) (fun msg hk => ?_)
        (fun pp hsent => ?_) hm
      · exact brings_of_takes hj (fun k hk => (h.carries k hk).mono hmono) hk
      · exact .inr ⟨j, hj, pp, mem_proposals.mpr (by rwa [Function.update_self]), rfl, rfl⟩
    · rw [Function.update_of_ne e]
      exact (h.carries j hj).mono hmono
  · by_cases e : j = i
    · subst e
      rw [Function.update_self]
      rcases hm.called with hsame | hcalled
      · exact hsame ▸ h.hashes j
      · exact (h.hashes j).called (henv ▸ hcalled)
    · rw [Function.update_of_ne e]
      exact h.hashes j
  · have hcase : ∀ {op' auxiliary'}, Proposed n (Function.update servers i s') op' auxiliary' →
        tx ∈ outputsOf auxiliary' → Proposed n servers op' auxiliary' ∨ op' = op ∧ auxiliary' = auxiliary := by
      intro op' auxiliary' hp htx
      refine (hfresh op' auxiliary' hp).resolve_left fun hnil => ?_
      rw [hnil] at htx
      nomatch htx
    rcases hcase h₁ htx₁ with h₁ | ⟨rfl, rfl⟩ <;> rcases hcase h₂ htx₂ with h₂ | ⟨rfl, rfl⟩
    · exact h.disjoint _ _ _ _ h₁ h₂ hne htx₁ htx₂
    · exact hfree _ _ h₁ hne htx₁ htx₂
    · exact hfree _ _ h₂ hne.symm htx₂ htx₁
    · exact hne rfl

theorem Allotted.external (h : Allotted n servers) {as : BtcAccount × AuxiliaryDB} (has : Hashes as) :
    Allotted n (Function.update servers i { servers i with as := as }) := by
  have ht : (servers i).trace <:+ ({ servers i with as := as } : Server (BtcAccount × AuxiliaryDB)).trace :=
    List.suffix_rfl
  have hold : ∀ {op auxiliary}, Proposed n (Function.update servers i { servers i with as := as }) op auxiliary →
      Proposed n servers op auxiliary := by
    intro op auxiliary hp
    rcases hp.of_update with hp | ⟨hi, pp, hsent, hpp⟩
    · exact hp
    · exact ⟨i, hi, pp, hsent, hpp⟩
  refine ⟨fun j hj => ?_, fun j => ?_, fun op op' _ _ h₁ h₂ => h.disjoint op op' _ _ (hold h₁) (hold h₂)⟩
  · have hmono : Carries (Sourced n (Function.update servers i { servers i with as := as })) (servers j) :=
      (h.carries j hj).mono fun seq op _ hsource => hsource.imp_right (Proposed.update ht)
    by_cases e : j = i
    · subst e
      rw [Function.update_self]
      exact hmono.of_eq hmono.entries rfl rfl
    · rwa [Function.update_of_ne e]
  · by_cases e : j = i
    · subst e
      rwa [Function.update_self]
    · rw [Function.update_of_ne e]
      exact h.hashes j

/-- In every run in which a leader gives a number to an operation only while its table offers it no output of a
proposal for another operation, whatever the clients send, however the messages go and whatever else changes the
tables, no output is in what is executed for two operations. -/
theorem outputs_given_once (henv : env.as = btcPBFTService)
    (ext : BtcAccount × AuxiliaryDB → BtcAccount × AuxiliaryDB → Prop) (hext : ∀ a a', ext a a' → Hashes a → Hashes a')
    {initSeq : ℤ → ℕ} {as : ℤ → BtcAccount × AuxiliaryDB} (has : ∀ i, Hashes (as i))
    {w : World (BtcAccount × AuxiliaryDB)}
    (h : World.Reached env ∅ n f initSeq as (fun w _ a => a.Meets (NoneOffered env n) w.servers) ext w) :
    OutputsOnce n w.servers := by
  have hinv : Allotted n w.servers := by
    refine (World.Reached.invariant_of_moves (Allotted n) NoneOffered.lasting (fun _ _ _ hok => hok) ?_
      (fun _ _ _ hi hs hinv hm => hinv.move henv hi.1 hs.id hs.wf hm)
      (fun _ i as hinv hstep => hinv.external (hext _ as hstep (hinv.hashes i))) h).2
    refine ⟨fun _ _ => Carries.new .., has, ?_⟩
    rintro _ _ _ _ ⟨_, _, _, hs, _⟩
    nomatch hs
  intro i hi j hj view view' seq seq' op op' auxiliary auxiliary' h₁ h₂ hne tx htx htx'
  have hproposed : ∀ seq op auxiliary, Sourced n w.servers seq op auxiliary → tx ∈ outputsOf auxiliary →
      Proposed n w.servers op auxiliary := by
    intro seq op auxiliary hsource hmem
    refine hsource.resolve_left fun hnil => ?_
    rw [hnil] at hmem
    nomatch hmem
  exact hinv.disjoint op op' auxiliary auxiliary' (hproposed seq _ _ ((hinv.carries i hi).events _ h₁) htx)
    (hproposed seq' _ _ ((hinv.carries j hj).events _ h₂) htx') hne htx htx'

end Runs

section Example

/-- The service of notary `i`; the digest of an operation leaves its dashes out. -/
def account (i : ℤ) : BtcAccount where
  service := { service1 with selfID := i, digest := fun op => String.ofList (op.toList.filter (· ≠ '-')) }
  asc := .stable
  desc := .stable

def btcEnv : Env (BtcAccount × AuxiliaryDB) where
  as := btcPBFTService
  digest op := op
  digestStates _ := ""
  digest2 d1 d2 := d1 ++ d2

/-- The proposal of an operation with the output of `tables1`. -/
def outputPP (view seq : ℤ) (op digest : String) : PrePrepareArgs :=
  { view := view, seq := seq, digest := digest, message := { op := op, id := 1 } }

def outputPrepare (view seq : ℤ) (digest : String) (rid : ℤ) : PrepareArgs :=
  { view := view, seq := seq, digest := digest, rid := rid }

def outputChange (p : List Pm) (rid : ℤ) : ViewChangeArgs :=
  { view := 1, cp := some { seq := -1, digest := "", rid := rid, view := 0 }, p := p, rid := rid }

/-- Only server 2 prepares the first operation in view 0. -/
def reserveFirst : List Action :=
  [.ask 0 "bitcoin-x-1"] ++ [1, 2].map (.deliver 0 · (.prePrepare (outputPP 0 0 "bitcoin-x-1" "bitcoinx1-1"))) ++
    [0, 1].map fun i => .deliver i 2 (.prepare (outputPrepare 0 0 "bitcoinx1-1" i))

def outputChange2 : ViewChangeArgs :=
  outputChange [{ pp := some (outputPP 0 0 "bitcoin-x-1" "bitcoinx1-1")
                  p := [2, 0, 1].map (outputPrepare 0 0 "bitcoinx1-1") }] 2

def outputNewView : NewViewArgs where
  view := 1
  v := [outputChange [] 1, outputChange2, outputChange [] 3]
  o := [outputPP 1 0 "bitcoin-x-1" "bitcoinx1-1"]

/-- View 1 starts with the first operation, and its leader gives the output to the second. -/
def reserveAgain : List Action :=
  [1, 2, 3].map (.ask · "bitcoin-y-1") ++ [1, 2, 3].map .fire ++
    [.deliver 2 1 (.viewChange outputChange2), .deliver 3 1 (.viewChange (outputChange [] 3))] ++
    [0, 3].map (.deliver 1 · (.newView outputNewView)) ++ [.ask 1 "bitcoin-y-1"] ++
    [0, 3].map (.deliver 1 · (.prePrepare (outputPP 1 1 "bitcoin-y-1" "bitcoiny1-1"))) ++ [0, 1, 3].map (.proceed · 0)

/-- Server 1 executes what all but server 2 prepare. -/
def executeAt1 (seq : ℤ) (digest : String) : List Action :=
  [(0, 1), (3, 1), (1, 0), (3, 0), (0, 3), (1, 3)].map (fun ij : ℤ × ℤ =>
      .deliver ij.1 ij.2 (.prepare (outputPrepare 1 seq digest ij.1))) ++
    [0, 3].map fun i => .deliver i 1 (.commit { view := 1, seq := seq, digest := digest, rid := i })

/-- Four correct servers, of which one executes two operations with the same output. -/
theorem output_given_twice :
    ∃ w : World (BtcAccount × AuxiliaryDB), World.Reached btcEnv ∅ 4 1 (fun _ => 0) (fun i => (account i, tables1))
      (fun _ _ _ => True) Eq w ∧ ¬ OutputsOnce 4 w.servers := by
  have hrun : ((World.new btcEnv 4 1 (fun _ => 0) fun i => (account i, tables1)).plays btcEnv ∅ (fun _ _ _ => True)
      (reserveFirst ++ reserveAgain ++ executeAt1 0 "bitcoinx1-1" ++ executeAt1 1 "bitcoiny1-1")).map (fun w =>
        decide (.updateSeq 1 0 "bitcoin-x-1" "bitcoinx1-1" ∈ (w.servers 1).trace ∧
          .updateSeq 1 1 "bitcoin-y-1" "bitcoiny1-1" ∈ (w.servers 1).trace)) = some true := by
    decide +kernel
  obtain ⟨w, hw, hmem⟩ := Option.map_eq_some_iff.mp hrun
  obtain ⟨h₁, h₂⟩ := of_decide_eq_true hmem
  refine ⟨w, World.reached_plays (.init rfl) hw, fun h => ?_⟩
  have hfirst : "1" ∈ outputsOf "bitcoinx1-1" := by decide +kernel
  exact h 1 (by decide) 1 (by decide) _ _ _ _ _ _ _ _ h₁ h₂ (by decide) hfirst (by decide +kernel)

/-- Tables with two outputs, of which only the first is worth four. -/
def tables2 : AuxiliaryDB where
  outpoints := tables1.outpoints.newBTCOutpoint
    { OutpointTable.output5 .usable with txHashStr := "2", amount := 3 } (by decide)

theorem hashes_tables2 (i : ℤ) : Hashes (account i, tables2) where
  digest op := by simp [account]
  keys := by
    change ∀ o ∈ tables2.outpoints.rows, '-' ∉ o.txHashStr.toList
    decide

/-- Two servers that tolerate no fault execute an operation. -/
def executeBothWith (seq : ℤ) (op digest : String) : List Action :=
  [.ask 0 op, .deliver 0 1 (.prePrepare (outputPP 0 seq op digest)),
    .deliver 1 0 (.commit { view := 0, seq := seq, digest := digest, rid := 1 }),
    .deliver 0 1 (.commit { view := 0, seq := seq, digest := digest, rid := 0 })]

theorem outputs_given_once_two :
    ∃ w : World (BtcAccount × AuxiliaryDB), .updateSeq 0 0 "bitcoin-x-4" "bitcoinx4-1" ∈ (w.servers 0).trace ∧
      .updateSeq 0 1 "bitcoin-y-1" "bitcoiny1-2" ∈ (w.servers 1).trace ∧ OutputsOnce 2 w.servers := by
  have hrun : ((World.new btcEnv 2 0 (fun _ => 0) fun i => (account i, tables2)).plays btcEnv ∅
      (fun w _ a => a.Meets (NoneOffered btcEnv 2) w.servers)
      (executeBothWith 0 "bitcoin-x-4" "bitcoinx4-1" ++ executeBothWith 1 "bitcoin-y-1" "bitcoiny1-2")).map (fun w =>
        decide (.updateSeq 0 0 "bitcoin-x-4" "bitcoinx4-1" ∈ (w.servers 0).trace ∧
          .updateSeq 0 1 "bitcoin-y-1" "bitcoiny1-2" ∈ (w.servers 1).trace)) = some true := by
    decide +kernel
  obtain ⟨w, hw, hmem⟩ := Option.map_eq_some_iff.mp hrun
  obtain ⟨h₁, h₂⟩ := of_decide_eq_true hmem
  exact ⟨w, h₁, h₂, outputs_given_once rfl Eq (fun _ _ heq h => heq ▸ h) hashes_tables2
    (World.reached_plays (.init rfl) hw)⟩

end Example

end DistributedNotary.Service

import Prova.Blockchain.Threads
import Prova.Blockchain.Values
import Prova.Lib.Prefixes

/-!
# The supply is the value of the ledger

Between blocks the supply of the admin state is the value of all coins. Inside a block the coinbase has
already been paid what the other transactions still have to leave as fees: the value of the coins and
the fees so far make up the supply and the reward. The coinbase of the block cannot be spent in it, so
a destruction always finds its value in the supply.
-/

namespace Prova

open List Ledger

variable {coinbase : Hash} {reward : Int} {txs : List MsgTx}

variable {c : Crypto} {params : Params}

def weightOf (hash : Hash) (o : OutPoint) (coin : Coin) : Int :=
  if o.hash = hash then coin.value.toInt else 0

def weightBut (hash : Hash) (o : OutPoint) (coin : Coin) : Int :=
  if o.hash = hash then 0 else coin.value.toInt

theorem total_coinWeight (hash : Hash) (L : Ledger OutPoint Coin) :
    total coinWeight L = total (weightOf hash) L + total (weightBut hash) L := by
  rw [← total_add]
  congr 1
  funext o coin
  unfold coinWeight weightOf weightBut
  split_ifs <;> simp

/-- The coins are worth at least nothing, and thread coins are worth nothing. -/
structure WellValued (L : Ledger OutPoint Coin) : Prop where
  nonneg : ∀ o coin, L.lookup o = some coin → 0 ≤ coin.value.toInt
  thread : ∀ o coin, L.lookup o = some coin → isThreadScript coin.pkScript → coin.value.toInt = 0

/-- The ledger inside a block, after the coinbase has been paid its reward. -/
structure Backed (coinbase : Hash) (reward : Int) (s : LedgerState) : Prop where
  valued : WellValued s.coins
  fees : 0 ≤ s.fees
  balance : Ledger.total coinWeight s.coins + s.fees = s.keys.totalSupply.toNat + reward
  reserved : Ledger.total (weightOf coinbase) s.coins = reward

/-! ### One transaction -/

def ThreadOutputFree (tx : MsgTx) : Prop :=
  threadOf tx = some .issue → (tx.txOut.headD ⟨0, []⟩).value = 0

instance (tx : MsgTx) : Decidable (ThreadOutputFree tx) := inferInstanceAs (Decidable (_ → _))

section

variable {s s' : LedgerState} {tx : MsgTx} {spent : List (OutPoint × Coin)} {txFee : Int}

theorem Moves.nodup (h : Moves c params s tx spent txFee s') : (spent.map Prod.fst).Nodup := by
  rw [h.names]
  unfold spends
  split_ifs
  · exact nodup_nil
  · exact h.sane.nodup

theorem Moves.total (h : Moves c params s tx spent txFee s') (w : OutPoint → Coin → Int) :
    weigh w spent + total w s'.coins = weigh w (newCoins c tx) + total w s.coins := by
  rw [h.coins, applyTx, ← h.names]
  exact total_move h.nodup h.present (h.sane.nodup_newCoins c)
    fun p hp => h.fresh p.1 (hash_of_mem_newCoins hp)

theorem Sane.thread_value (h : Sane tx) (hfree : ThreadOutputFree tx) {o : OutPoint} {coin : Coin}
    (hitem : itemOf (newCoins c tx) o = some coin) (hthread : isThreadScript coin.pkScript) : coin.value.toInt = 0 := by
  obtain ⟨-, -, hall⟩ := checkOutputs_ok (by decide) h.outputs
  obtain ⟨j, out, hout, -, heq⟩ := mem_coinsFrom.mp (mem_of_itemOf hitem)
  obtain ⟨rfl, rfl⟩ := Prod.mk.inj heq
  obtain ⟨rfl, -, hdet⟩ := h.thread_output hout hthread
  obtain ⟨⟨t, outs⟩, hdet⟩ := Option.ne_none_iff_exists'.mp hdet
  by_cases ht : t = .issue
  · have hzero := hfree (by unfold threadOf; rw [hdet, ht]; rfl)
    cases hcons : tx.txOut with
    | nil =>
      rw [hcons] at hout
      cases hout
    | cons out' outs' =>
      rw [hcons] at hout hzero
      cases hout
      exact congrArg Int64.toInt hzero
  · have hrule := (hall 0 out hout).2 t (by rw [hdet]; rfl)
    unfold checkAdminOutput at hrule
    rw [if_pos ht] at hrule
    exact congrArg Int64.toInt (not_not.mp (ruleError_eq_ok.mp hrule))

theorem WellValued.moves (h : WellValued s.coins) (hmoves : Moves c params s tx spent txFee s')
    (hfree : ThreadOutputFree tx) : WellValued s'.coins := by
  refine ⟨fun o coin ho => ?_, fun o coin ho hthread => ?_⟩
  · rcases ThreadOk.old_or_new hmoves ho with hitem | ⟨-, hold⟩
    · obtain ⟨j, out, hout, -, heq⟩ := mem_coinsFrom.mp (mem_of_itemOf hitem)
      obtain ⟨-, rfl⟩ := Prod.mk.inj heq
      exact hmoves.sane.outputs_ok.1 out (mem_of_getElem? hout)
    · exact h.nonneg o coin hold
  · rcases ThreadOk.old_or_new hmoves ho with hitem | ⟨-, hold⟩
    · exact hmoves.sane.thread_value hfree hitem hthread
    · exact h.thread o coin hold hthread

theorem coinValue_of_thread (h : WellValued s.coins) (hmoves : Moves c params s tx spent txFee s')
    (hthreads : SpendsThreads tx spent) (hthread : threadOf tx ≠ none)
    (hd : isDestruction tx = false) : coinValue spent = 0 := by
  cases hthreads with
  | plain hdet _ =>
    unfold threadOf at hthread
    rw [hdet] at hthread
    exact absurd rfl hthread
  | @thread p coins _ hp _ _ =>
    have hlength : (p :: coins).length ≤ 1 := by
      have hnames := congrArg List.length hmoves.names
      rw [length_map] at hnames
      rw [hnames]
      unfold isDestruction at hd
      rw [decide_eq_false_iff_not, not_lt] at hd
      unfold spends MsgTx.prevOuts
      split_ifs
      · exact Nat.zero_le _
      · rwa [length_map]
    have hnil : coins = [] := length_eq_zero_iff.mp (by simpa using hlength)
    have hzero := h.thread p.1 p.2 (hmoves.present p mem_cons_self) hp
    rw [hnil]
    unfold coinValue
    simpa using hzero

theorem destroyedValue_of_not_destruction (hd : isDestruction tx = false) : destroyedValue tx = 0 := by
  unfold destroyedValue
  split
  · simp [hd]
  · rfl

theorem issuedValue_of_destruction (h : ¬ (threadOf tx = some .issue ∧ isDestruction tx = false)) :
    issuedValue tx = 0 := by
  unfold issuedValue
  rw [if_neg h]

theorem Backed.spent_le (h : Backed coinbase reward s) (hmaturity : 0 < params.coinbaseMaturity)
    (hstep : LedgerStep c params coinbase s tx spent s') : coinValue spent ≤ s.keys.totalSupply.toNat := by
  obtain ⟨txFee, hmoves, -⟩ := hstep.moves
  have hmem : ∀ p ∈ spent, p.1.hash ≠ coinbase := by
    intro p hp
    refine hstep.mature hmaturity p.1 ?_
    rw [← hmoves.names]
    exact mem_map_of_mem hp
  have hweigh : weigh (weightBut coinbase) spent = coinValue spent := by
    unfold weigh coinValue
    refine congrArg List.sum (map_congr_left fun p hp => ?_)
    unfold weightBut
    rw [if_neg (hmem p hp)]
  have hspend := total_spend (w := weightBut coinbase) hmoves.nodup hmoves.present
  have hrest : 0 ≤ total (weightBut coinbase) (spend s.coins (spent.map Prod.fst)) := by
    refine total_nonneg fun o coin ho => ?_
    rw [lookup_spend] at ho
    split_ifs at ho
    unfold weightBut
    split_ifs
    · exact le_refl 0
    · exact h.valued.nonneg o coin ho
  have hsplit := total_coinWeight coinbase s.coins
  have hbalance := h.balance
  have hreserved := h.reserved
  have hfees := h.fees
  omega

theorem LedgerStep.reserved (hmaturity : 0 < params.coinbaseMaturity)
    (hstep : LedgerStep c params coinbase s tx spent s') :
    total (weightOf coinbase) s'.coins = total (weightOf coinbase) s.coins := by
  obtain ⟨txFee, hmoves, -⟩ := hstep.moves
  have hspent : weigh (weightOf coinbase) spent = 0 := by
    refine sum_eq_zero fun x hx => ?_
    obtain ⟨p, hp, rfl⟩ := mem_map.mp hx
    have hmem : p.1 ∈ spends tx := hmoves.names ▸ mem_map_of_mem hp
    exact if_neg (hstep.mature hmaturity p.1 hmem)
  have hnew : weigh (weightOf coinbase) (newCoins c tx) = 0 := by
    refine sum_eq_zero fun x hx => ?_
    obtain ⟨p, hp, rfl⟩ := mem_map.mp hx
    exact if_neg fun heq => hstep.other ((hash_of_mem_newCoins hp).symm.trans heq)
  have htotal := hmoves.total (weightOf coinbase)
  omega

theorem Backed.step (h : Backed coinbase reward s) (hmaturity : 0 < params.coinbaseMaturity)
    (hfree : ThreadOutputFree tx) (hroom : s.keys.totalSupply.toNat + issuedValue tx < 2 ^ 64)
    (hstep : LedgerStep c params coinbase s tx spent s') : SupplyFits s.keys tx ∧ Backed coinbase reward s' := by
  obtain ⟨txFee, hmoves, hpays⟩ := hstep.moves
  have hcovered := h.spent_le hmaturity hstep
  have htotal := hmoves.total coinWeight
  rw [weigh_coinWeight, weigh_coinWeight] at htotal
  have hnew := coinValue_newCoins c tx
  rw [hmoves.sane.burned] at hnew
  have hnewNonneg : 0 ≤ coinValue (newCoins c tx) := by
    refine coinValue_nonneg fun p hp => ?_
    obtain ⟨j, out, hout, -, rfl⟩ := mem_coinsFrom.mp hp
    exact hmoves.sane.outputs_ok.1 out (mem_of_getElem? hout)
  have houtNonneg := hmoves.sane.outValue_nonneg
  -- an issue transaction spends nothing unless it destroys, and issues what it pays out
  have hissue : threadOf tx = some .issue ∧ isDestruction tx = false →
      coinValue spent = 0 ∧ (issuedValue tx : Int) = outValue tx := by
    rintro ⟨hthread, hd⟩
    refine ⟨coinValue_of_thread h.valued hmoves hstep.threads ?_ hd, hmoves.sane.issued hthread hd (hfree hthread)⟩
    rw [hthread]
    exact Option.some_ne_none _
  have hfits : SupplyFits s.keys tx := by
    refine ⟨?_, hroom⟩
    cases hpays with
    | issuance _ hd _ _ =>
      rw [destroyedValue_of_not_destruction hd]
      exact Nat.zero_le _
    | fee hvalue _ => omega
  have hsupply : s'.keys.totalSupply.toNat + destroyedValue tx =
      s.keys.totalSupply.toNat + issuedValue tx := by
    rw [(acceptTx_ok hmoves.keys).2]
    exact hfits.afterTx
  have hbalance := h.balance
  have hfees := hmoves.fees
  have hfeesNonneg := h.fees
  have hfeeNonneg := hpays.nonneg
  refine ⟨hfits, h.valued.moves hmoves hfree, by omega, ?_, ?_⟩
  · cases hpays with
    | issuance hthread hd _ hfee =>
      have hzero := destroyedValue_of_not_destruction hd
      have hboth := hissue ⟨hthread, hd⟩
      omega
    | fee hvalue hfee =>
      have hzero : issuedValue tx = 0 := by
        by_cases hcase : threadOf tx = some .issue ∧ isDestruction tx = false
        · have hboth := hissue hcase
          omega
        · exact issuedValue_of_destruction hcase
      omega
  · rw [hstep.reserved hmaturity]
    exact h.reserved

end

/-! ### Blocks and runs -/

/-- Every transaction finds room for its change of the supply. -/
def SupplyNeverWraps (c : Crypto) (params : Params) (view : KeyViewpoint) (txs : List MsgTx) : Prop :=
  EachAfter (fun before tx => ∃ v, before.foldlM (acceptTx c params) view = .ok v ∧ SupplyFits v tx) txs

theorem supplyNeverWraps_append {view view' : KeyViewpoint} {txs' : List MsgTx}
    (haccept : txs.foldlM (acceptTx c params) view = .ok view') : SupplyNeverWraps c params view (txs ++ txs') ↔
      SupplyNeverWraps c params view txs ∧ SupplyNeverWraps c params view' txs' := by
  unfold SupplyNeverWraps
  rw [eachAfter_append]
  refine and_congr_right fun _ => ?_
  have hiff : ∀ before v, (txs ++ before).foldlM (acceptTx c params) view = .ok v ↔
      before.foldlM (acceptTx c params) view' = .ok v := by
    intro before v
    rw [foldlM_append_eq_ok]
    constructor
    · rintro ⟨m, hm, hrest⟩
      cases haccept.symm.trans hm
      exact hrest
    · exact fun hrest => ⟨view', haccept, hrest⟩
  simp only [hiff]

theorem supplyNeverWraps_singleton {view : KeyViewpoint} {tx : MsgTx} :
    SupplyNeverWraps c params view [tx] ↔ SupplyFits view tx := by
  unfold SupplyNeverWraps
  rw [eachAfter_singleton]
  constructor
  · rintro ⟨v, hv, hfits⟩
    cases hv
    exact hfits
  · exact fun hfits => ⟨view, rfl, hfits⟩

def issuedTotal (txs : List MsgTx) : Nat := (txs.map issuedValue).sum

theorem Backed.steps {s s' : LedgerState} (h : Backed coinbase reward s)
    (hmaturity : 0 < params.coinbaseMaturity) (hfree : ∀ tx ∈ txs, ThreadOutputFree tx)
    (hroom : s.keys.totalSupply.toNat + issuedTotal txs < 2 ^ 64) (hsteps : LedgerSteps c params coinbase s txs s') :
    SupplyNeverWraps c params s.keys txs ∧ Backed coinbase reward s' ∧
      s'.keys.totalSupply.toNat ≤ s.keys.totalSupply.toNat + issuedTotal txs := by
  induction hsteps with
  | nil => exact ⟨EachAfter.nil, h, Nat.le_add_right _ _⟩
  | @cons s m s' tx txs spent hstep hrest ih =>
    rw [forall_mem_cons] at hfree
    unfold issuedTotal at hroom
    rw [map_cons, sum_cons] at hroom
    obtain ⟨hfits, hm⟩ := h.step hmaturity hfree.1 (by omega) hstep
    obtain ⟨txFee, hmoves, -⟩ := hstep.moves
    have hsupply := hfits.afterTx (c := c)
    rw [← (acceptTx_ok hmoves.keys).2] at hsupply
    obtain ⟨hwraps, hs', hbound⟩ := ih hm hfree.2 (by unfold issuedTotal; omega)
    refine ⟨?_, hs', ?_⟩
    · have haccept : [tx].foldlM (acceptTx c params) s.keys = .ok m.keys :=
        foldlM_cons_eq_ok.mpr ⟨m.keys, hmoves.keys, rfl⟩
      change SupplyNeverWraps c params s.keys ([tx] ++ txs)
      exact (supplyNeverWraps_append haccept).mpr ⟨supplyNeverWraps_singleton.mpr hfits, hwraps⟩
    · unfold issuedTotal at hbound ⊢
      rw [map_cons, sum_cons]
      omega

theorem backed_coinbase {s m : LedgerState} {coinbase : MsgTx} (hvalued : WellValued s.coins)
    (hbalance : total coinWeight s.coins = s.keys.totalSupply.toNat) (hfees : s.fees = 0)
    (hcb : isCoinBase coinbase = true) (hmoves : Moves c params s coinbase [] 0 m) :
    SupplyFits s.keys coinbase ∧ m.keys.totalSupply = s.keys.totalSupply ∧
      Backed (coinbase.txHash c) (outValue coinbase) m := by
  have hdet := hmoves.sane.coinbase_details hcb
  have hthread : threadOf coinbase = none := by
    unfold threadOf
    rw [hdet]
    rfl
  have hissued : issuedValue coinbase = 0 := by
    unfold issuedValue
    simp [hthread]
  have hdestroyed : destroyedValue coinbase = 0 := by
    unfold destroyedValue
    rw [hdet]
  have hnew := coinValue_newCoins c coinbase
  rw [hmoves.sane.burned, hdestroyed] at hnew
  have hsupply : m.keys.totalSupply = s.keys.totalSupply := by
    rw [(acceptTx_ok hmoves.keys).2]
    unfold KeyViewpoint.afterTx
    rw [hdet]
  have htotal := hmoves.total coinWeight
  have hreserved := hmoves.total (weightOf (coinbase.txHash c))
  have hweigh : weigh (weightOf (coinbase.txHash c)) (newCoins c coinbase) =
      coinValue (newCoins c coinbase) := by
    unfold weigh coinValue
    refine congrArg List.sum (map_congr_left fun p hp => ?_)
    exact if_pos (hash_of_mem_newCoins hp)
  have hfresh : total (weightOf (coinbase.txHash c)) s.coins = 0 := by
    refine total_eq_zero fun o coin ho => if_neg fun heq => ?_
    rw [hmoves.fresh o heq] at ho
    cases ho
  rw [weigh_coinWeight, weigh_coinWeight] at htotal
  have hnil : weigh (weightOf (coinbase.txHash c)) [] = 0 := rfl
  have hnil' : coinValue [] = 0 := rfl
  have hmfees := hmoves.fees
  have hfree : ThreadOutputFree coinbase := fun hissue => by
    rw [hthread] at hissue
    cases hissue
  have hlt := s.keys.totalSupply.toNat_lt
  refine ⟨⟨?_, ?_⟩, hsupply, hvalued.moves hmoves hfree, ?_, ?_, ?_⟩
  · rw [hdestroyed]
    exact Nat.zero_le _
  · rw [hissued]
    exact hlt
  · omega
  · rw [hsupply]
    omega
  · omega

/-- The ledger between blocks. -/
structure Balanced (s : LedgerState) : Prop where
  valued : WellValued s.coins
  balance : Ledger.total coinWeight s.coins = s.keys.totalSupply.toNat

theorem Balanced.block {s s' : LedgerState} {coinbase : MsgTx} (h : Balanced s)
    (hmaturity : 0 < params.coinbaseMaturity) (hfree : ∀ tx ∈ txs, ThreadOutputFree tx)
    (hroom : s.keys.totalSupply.toNat + issuedTotal txs < 2 ^ 64) (hblock : LedgerBlock c params s coinbase txs s') :
    SupplyNeverWraps c params s.keys (coinbase :: txs) ∧ Balanced s' ∧
      s'.keys.totalSupply.toNat ≤ s.keys.totalSupply.toNat + issuedTotal txs := by
  obtain ⟨m, hmoves, hsteps⟩ := hblock.steps
  obtain ⟨hfits, hsupply, hm⟩ :=
    backed_coinbase h.valued h.balance hblock.noFees hblock.isCoinBase hmoves
  rw [← hsupply] at hroom ⊢
  obtain ⟨hwraps, hs', hbound⟩ := hm.steps hmaturity hfree hroom hsteps
  have hbalance := hs'.balance
  rw [hblock.reward] at hbalance
  refine ⟨?_, ⟨hs'.valued, by omega⟩, hbound⟩
  have haccept : [coinbase].foldlM (acceptTx c params) s.keys = .ok m.keys :=
    foldlM_cons_eq_ok.mpr ⟨m.keys, hmoves.keys, rfl⟩
  change SupplyNeverWraps c params s.keys ([coinbase] ++ txs)
  exact (supplyNeverWraps_append haccept).mpr ⟨supplyNeverWraps_singleton.mpr hfits, hwraps⟩

namespace BlockChain

def GenesisFree (params : Params) : Prop :=
  ∃ tx txs, params.genesisBlock.transactions = tx :: txs ∧ ∀ out ∈ tx.txOut, out.value = 0

theorem balanced_createChainState (hgenesis : GenesisFree params) (noVerify : Bool) :
    Balanced ((createChainState c params noVerify).ledgerState 0) := by
  obtain ⟨tx, txs, htxs, hfree⟩ := hgenesis
  have hlookup := lookup_genesisUtxos (c := c) htxs
  have hzero : ∀ o coin, ((createChainState c params noVerify).ledgerState 0).coins.lookup o =
      some coin → coin.value.toInt = 0 := by
    intro o coin ho
    obtain ⟨j, out, hout, -, heq⟩ :=
      mem_coinsFrom.mp (mem_of_itemOf ((hlookup o).symm.trans ho))
    obtain ⟨-, rfl⟩ := Prod.mk.inj heq
    exact congrArg Int64.toInt (hfree out (mem_of_getElem? hout))
  refine ⟨⟨fun o coin ho => (hzero o coin ho).ge, fun o coin ho _ => hzero o coin ho⟩, ?_⟩
  exact total_eq_zero hzero

theorem ConnectRun.balanced {b b' : BlockChain} {blocks : List MsgBlock}
    (hstored : UtxoDb.Stored b.db.utxos) (hbalanced : Balanced (b.ledgerState 0))
    (hmaturity : 0 < b.params.coinbaseMaturity) (hrun : ConnectRun c b blocks b')
    (hrefs : ∀ block ∈ blocks, NoForwardRefs c block.transactions)
    (hfree : ∀ tx ∈ transactionsOf blocks, ThreadOutputFree tx)
    (hroom : b.keys.totalSupply.toNat + issuedTotal (transactionsOf blocks) < 2 ^ 64) :
    SupplyNeverWraps c b.params b.keys (transactionsOf blocks) ∧ Balanced (b'.ledgerState 0) ∧
      b'.keys.totalSupply.toNat ≤ b.keys.totalSupply.toNat + issuedTotal (transactionsOf blocks) := by
  induction hrun with
  | nil => exact ⟨EachAfter.nil, hbalanced, Nat.le_add_right _ _⟩
  | @snoc blocks m b' block hrun hext ih =>
    have hsplit : transactionsOf (blocks ++ [block]) =
        transactionsOf blocks ++ block.transactions := by
      unfold transactionsOf
      rw [flatMap_append, flatMap_singleton]
    have hsum : issuedTotal (transactionsOf blocks ++ block.transactions) =
        issuedTotal (transactionsOf blocks) + issuedTotal block.transactions := by
      unfold issuedTotal
      rw [map_append, sum_append]
    rw [hsplit] at hfree hroom ⊢
    rw [hsum] at hroom ⊢
    rw [forall_mem_append] at hrefs hfree
    obtain ⟨hwraps, hm, hbound⟩ := ih hrefs.1 hfree.1 (by omega)
    obtain ⟨s, hs⟩ := hext.connected
    obtain ⟨coinbase, txs, fees, htxs, hblock⟩ := hs.ledgerBlock (hrun.stored hstored)
      (hrefs.2 block mem_cons_self)
    have hissued : issuedTotal block.transactions = issuedValue coinbase + issuedTotal txs := by
      rw [htxs]
      rfl
    rw [hrun.params] at hblock
    rw [htxs, forall_mem_cons] at hfree
    obtain ⟨hwraps', hb', hbound'⟩ := hm.block hmaturity hfree.2.2
      (by change m.keys.totalSupply.toNat + _ < _; omega) hblock
    refine ⟨(supplyNeverWraps_append hrun.accept).mpr ⟨hwraps, htxs ▸ hwraps'⟩, ⟨hb'.valued, hb'.balance⟩, ?_⟩
    change b'.keys.totalSupply.toNat ≤ m.keys.totalSupply.toNat + _ at hbound'
    omega

/-- Along every run of blocks that meet the conditions, the supply is the value of all unspent outputs
and no change of the supply wraps: no transaction spends from itself or from a later transaction of its
block, issue transactions give their thread output no value, and less than `2 ^ 64` is issued. -/
theorem totalSupply_eq_unspent {noVerify : Bool} {blocks : List MsgBlock} {b : BlockChain}
    (hgenesis : GenesisFree params) (hmaturity : 0 < params.coinbaseMaturity)
    (hrun : ConnectRun c (createChainState c params noVerify) blocks b)
    (hrefs : ∀ block ∈ blocks, NoForwardRefs c block.transactions)
    (hfree : ∀ tx ∈ transactionsOf blocks, ThreadOutputFree tx)
    (hissued : issuedTotal (transactionsOf blocks) < 2 ^ 64) : (b.keys.totalSupply.toNat : Int) =
        ((UtxoDb.unspent b.db.utxos).map fun p => p.2.value.toInt).sum ∧
      SupplyNeverWraps c params (genesisKeys c params) (transactionsOf blocks) := by
  have hzero : (createChainState c params noVerify).keys.totalSupply.toNat = 0 := rfl
  obtain ⟨hwraps, hbalanced, -⟩ := hrun.balanced (stored_createChainState noVerify)
    (balanced_createChainState hgenesis noVerify) hmaturity hrefs hfree (by omega)
  refine ⟨?_, hwraps⟩
  exact hbalanced.balance.symm.trans (UtxoDb.total_ledger coinWeight b.db.utxos)

theorem totalSupply_eq_unspent_issueBlock :
    ((afterBlock Sample.crypto Sample.genesis Sample.issueBlock).keys.totalSupply.toNat : Int) =
        ((UtxoDb.unspent (afterBlock Sample.crypto Sample.genesis Sample.issueBlock).db.utxos).map
          fun p => p.2.value.toInt).sum ∧
      SupplyNeverWraps Sample.crypto Sample.params (genesisKeys Sample.crypto Sample.params)
        (transactionsOf [Sample.issueBlock]) :=
  totalSupply_eq_unspent ⟨_, _, rfl, by decide⟩ (by decide) (.single Sample.issueBlock_extends)
    (by decide +kernel) (by decide +kernel) (by decide +kernel)

/-- An issuance whose thread output has a value: the supply grows by 1000, the unspent outputs
by 1005. -/
theorem totalSupply_overpaidBlock : GenesisFree Sample.params ∧
      ConnectRun Sample.crypto (createChainState Sample.crypto Sample.params false)
        [Sample.overpaidBlock] (afterBlock Sample.crypto Sample.genesis Sample.overpaidBlock) ∧
      (afterBlock Sample.crypto Sample.genesis Sample.overpaidBlock).keys.totalSupply = 1000 ∧
      ((UtxoDb.unspent (afterBlock Sample.crypto Sample.genesis Sample.overpaidBlock).db.utxos).map
        fun p => p.2.value.toInt).sum = 1005 :=
  ⟨⟨_, _, rfl, by decide⟩, .single (Sample.extends_genesis (by simp [Sample.firstBlocks])),
    by decide +kernel, by decide +kernel⟩

end BlockChain

end Prova

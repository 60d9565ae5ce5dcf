import Prova.Blockchain.InputChecks
import Prova.Blockchain.Run

/-!
# Blocks on the ledger

What connecting a block comes to when the views and the database are left out: one transaction after
the other spends coins of the ledger, makes new ones, pays a fee and changes the admin state. A block
that `checkConnectBlock` accepts, and that has no transaction spending from itself or a later one, is
such a sequence of steps from the ledger of the database before it to that of the database after it.
-/

namespace Prova

open List UtxoDb UtxoViewpoint

variable {s : ConnectState} {coinbase : Hash} {txs : List MsgTx} {block : MsgBlock}

/-- The ledger, the admin state, and the fees of the transactions so far. -/
structure LedgerState where
  coins : Ledger OutPoint Coin
  keys : KeyViewpoint
  fees : Int

/-- The effect of a transaction, with the coins it spends and the fee it pays. -/
structure Moves (c : Crypto) (params : Params) (s : LedgerState) (tx : MsgTx)
    (spent : List (OutPoint × Coin)) (txFee : Int) (s' : LedgerState) : Prop where
  sane : Sane tx
  fresh : ∀ o, o.hash = tx.txHash c → s.coins.lookup o = none
  names : spent.map Prod.fst = spends tx
  present : ∀ p ∈ spent, s.coins.lookup p.1 = some p.2
  coins : s'.coins = applyTx c s.coins tx
  keys : acceptTx c params s.keys tx = .ok s'.keys
  fees : s'.fees = s.fees + txFee

/-- A step of the ledger that is not a coinbase, in a block with the given coinbase. -/
structure LedgerStep (c : Crypto) (params : Params) (coinbase : Hash) (s : LedgerState) (tx : MsgTx)
    (spent : List (OutPoint × Coin)) (s' : LedgerState) : Prop where
  notCoinBase : isCoinBase tx = false
  moves : ∃ txFee, Moves c params s tx spent txFee s' ∧ PaysFee tx (coinValue spent) txFee
  nonneg : ∀ p ∈ spent, 0 ≤ p.2.value.toInt
  threads : SpendsThreads tx spent
  mature : 0 < params.coinbaseMaturity → ∀ o ∈ spends tx, o.hash ≠ coinbase
  other : tx.txHash c ≠ coinbase

inductive LedgerSteps (c : Crypto) (params : Params) (coinbase : Hash) :
    LedgerState → List MsgTx → LedgerState → Prop
  | nil {s : LedgerState} : LedgerSteps c params coinbase s [] s
  | cons {s m s' : LedgerState} {tx : MsgTx} {txs : List MsgTx} {spent : List (OutPoint × Coin)} :
    LedgerStep c params coinbase s tx spent m → LedgerSteps c params coinbase m txs s' →
    LedgerSteps c params coinbase s (tx :: txs) s'

/-- A block on the ledger: its coinbase pays out the fees of the other transactions. -/
structure LedgerBlock (c : Crypto) (params : Params) (s : LedgerState) (coinbase : MsgTx)
    (txs : List MsgTx) (s' : LedgerState) : Prop where
  isCoinBase : isCoinBase coinbase = true
  steps : ∃ m, Moves c params s coinbase [] 0 m ∧
    LedgerSteps c params (coinbase.txHash c) m txs s'
  noFees : s.fees = 0
  reward : outValue coinbase = s'.fees

/-! ### Refinement -/

variable {c : Crypto} {params : Params} {db : UtxoDb} {height : UInt32}

/-- The loop of `checkConnectBlock` after the coinbase, and the ledger. -/
private structure Refines (c : Crypto) (db : UtxoDb) (height : UInt32) (coinbase : Hash)
    (pending : List MsgTx) (s : ConnectState) (l : LedgerState) : Prop where
  shows : Shows c db s.utxoView pending l.coins
  keys : s.keyView = l.keys
  fees : s.totalFees.toInt = l.fees
  nonneg : 0 ≤ l.fees
  young : ∀ entry, s.utxoView.lookupEntry coinbase = some entry →
    entry.isCoinBase = true ∧ entry.blockHeight = height

private theorem Refines.present {pending : List MsgTx} {l : LedgerState}
    (h : Refines c db height coinbase pending s l) {o : OutPoint}
    (ho : ∀ tx ∈ pending, o.hash ≠ tx.txHash c) {entry : UtxoEntry} {coin : Coin}
    (hentry : s.utxoView.lookupEntry o.hash = some entry) (hcoin : entry.coinAt o.index = some coin) :
    l.coins.lookup o = some coin := by
  rw [h.shows.done o ho, coinAt_of_lookupEntry hentry, hcoin]

private theorem Refines.step {pending : List MsgTx} {s' : ConnectState} {l : LedgerState}
    {tx : MsgTx} (h : Refines c db height coinbase (tx :: pending) s l)
    (hnodup : ((tx :: pending).map (·.txHash c)).Nodup)
    (hrefs : ∀ o ∈ spends tx, ∀ tx' ∈ tx :: pending, o.hash ≠ tx'.txHash c)
    (hne : coinbase ≠ tx.txHash c) (hsane : Sane tx) (hcb : isCoinBase tx = false)
    (hconnect : connectTx c params height s tx = .ok s') : ∃ spent l', LedgerStep c params coinbase l tx spent l' ∧
      Refines c db height coinbase pending s' l' := by
  obtain ⟨txFee, stxos, hinputs, hfees, hwrap, hview, -, haccept⟩ := connectTx_ok hconnect
  obtain ⟨spent, hnames, hpresent, hnonneg, hthreads, hpays⟩ :=
    checkTransactionInputs_ok hsane hcb hinputs
  have hspends : spends tx = tx.prevOuts := by
    unfold spends
    simp [hcb]
  have hmem : ∀ p ∈ spent, p.1 ∈ spends tx := by
    intro p hp
    rw [hspends, ← hnames]
    exact mem_map_of_mem hp
  rw [hfees] at hwrap
  have hfee := toInt_add_of_not_lt (h.fees ▸ h.nonneg) hpays.nonneg hwrap
  refine ⟨spent, ⟨applyTx c l.coins tx, s'.keyView, l.fees + txFee.toInt⟩, ⟨hcb,
    ⟨txFee.toInt, ⟨hsane, h.shows.fresh tx mem_cons_self, hnames.trans hspends.symm, ?_, rfl,
      h.keys ▸ haccept, rfl⟩, hpays⟩, hnonneg, hthreads, ?_, hne.symm⟩, ⟨?_, rfl, ?_, ?_, ?_⟩⟩
  · intro p hp
    obtain ⟨entry, hentry, hcoin, -⟩ := hpresent p hp
    exact h.present (hrefs p.1 (hmem p hp)) hentry hcoin
  · -- an output of the coinbase of this block is too young
    intro hmaturity o ho heq
    rw [hspends, ← hnames] at ho
    obtain ⟨p, hp, rfl⟩ := mem_map.mp ho
    obtain ⟨entry, hentry, -, hmature⟩ := hpresent p hp
    obtain ⟨hflag, hheight⟩ := h.young entry (heq ▸ hentry)
    refine hmature ⟨hflag, ?_⟩
    rw [hheight, UInt32.sub_self]
    exact UInt32.lt_iff_toNat_lt.mpr (by simpa using UInt16.lt_iff_toNat_lt.mp hmaturity)
  · exact h.shows.connectTransaction hnodup hrefs hview
  · rw [hfees, hfee, h.fees]
  · exact Int.add_nonneg h.nonneg hpays.nonneg
  · intro entry' hentry'
    obtain ⟨entry, hentry, hheight, hflag⟩ :=
      connectTransaction_entry hne hview hentry'
    rw [hheight, hflag]
    exact h.young entry hentry

private theorem Refines.run {s' : ConnectState} {l : LedgerState}
    (h : Refines c db height coinbase txs s l) (hnodup : (coinbase :: txs.map (·.txHash c)).Nodup)
    (hrefs : NoForwardRefs c txs) (htxs : ∀ tx ∈ txs, Sane tx ∧ isCoinBase tx = false)
    (hrun : txs.foldlM (connectTx c params height) s = .ok s') :
    ∃ l', LedgerSteps c params coinbase l txs l' ∧ Refines c db height coinbase [] s' l' := by
  induction txs generalizing s l with
  | nil =>
    cases hrun
    exact ⟨l, .nil, h⟩
  | cons tx txs ih =>
    obtain ⟨m, hstep, hrun⟩ := foldlM_cons_eq_ok.mp hrun
    obtain ⟨hown, hrest⟩ := noForwardRefs_cons hrefs
    rw [forall_mem_cons] at htxs
    obtain ⟨hnot, hnodup'⟩ := nodup_cons.mp hnodup
    have hne : coinbase ≠ tx.txHash c := fun heq => hnot (heq ▸ mem_cons_self)
    obtain ⟨spent, l₁, hl₁, hrel⟩ := h.step hnodup' hown hne htxs.1.1 htxs.1.2 hstep
    have hnodup'' : (coinbase :: txs.map (·.txHash c)).Nodup :=
      nodup_cons.mpr ⟨fun hmem => hnot (mem_cons_of_mem _ hmem), (nodup_cons.mp hnodup').2⟩
    obtain ⟨l', hsteps, hl'⟩ := ih hrel hnodup'' hrest htxs.2 hrun
    exact ⟨l', .cons hl₁ hsteps, hl'⟩

/-! ### Blocks -/

theorem checkBlockSanity_ok {powLimit : Nat} {flags : BehaviorFlags}
    (h : checkBlockSanity c block powLimit flags = .ok ()) :
    ∃ coinbase txs, block.transactions = coinbase :: txs ∧ isCoinBase coinbase = true ∧
      (∀ tx ∈ txs, isCoinBase tx = false) ∧ (∀ tx ∈ block.transactions, Sane tx) ∧
      (block.transactions.map (·.txHash c)).Nodup := by
  unfold checkBlockSanity at h
  obtain ⟨-, h⟩ := bind_unit_eq_ok.mp h
  obtain ⟨hnonempty, h⟩ := bind_unit_eq_ok.mp h
  obtain ⟨-, h⟩ := bind_unit_eq_ok.mp h
  obtain ⟨-, h⟩ := bind_unit_eq_ok.mp h
  obtain ⟨-, h⟩ := bind_unit_eq_ok.mp h
  obtain ⟨hfirst, h⟩ := bind_unit_eq_ok.mp h
  obtain ⟨hothers, h⟩ := bind_unit_eq_ok.mp h
  obtain ⟨hsane, h⟩ := bind_unit_eq_ok.mp h
  obtain ⟨-, h⟩ := bind_unit_eq_ok.mp h
  obtain ⟨hnodup, -⟩ := bind_unit_eq_ok.mp h
  rw [ruleError_eq_ok] at hnonempty hfirst hothers hnodup
  have hall : ∀ tx ∈ block.transactions, Sane tx := fun tx htx =>
    checkTransactionSanity_ok (forM_eq_ok.mp hsane tx htx)
  cases htxs : block.transactions with
  | nil => exact absurd htxs hnonempty
  | cons coinbase txs =>
    rw [htxs] at hfirst hothers hnodup hall
    refine ⟨coinbase, txs, rfl, not_not.mp hfirst coinbase rfl, fun tx htx => ?_, hall, not_not.mp hnodup⟩
    by_contra hcb
    exact hothers ⟨tx, htx, by simpa using hcb⟩

theorem checkConnected_reward {env : ConnectEnv} {node : BlockNode} (h : checkConnected c env node block s = .ok ()) :
    totalAtomsOut (block.transactions.headD ⟨0, [], [], 0⟩) = calcBlockSubsidy + s.totalFees := by
  unfold checkConnected at h
  obtain ⟨hreward, -⟩ := bind_unit_eq_ok.mp h
  exact not_not.mp (ruleError_eq_ok.mp hreward)

private theorem refines_coinbase {view : UtxoViewpoint} {keyView : KeyViewpoint} {coinbase : MsgTx}
    {L : Ledger OutPoint Coin} (hshows : Shows c db view (coinbase :: txs) L)
    (hflag : ∀ entry, view.lookupEntry (coinbase.txHash c) = some entry → entry.isCoinBase = true)
    (hnodup : ((coinbase :: txs).map (·.txHash c)).Nodup) (hsane : Sane coinbase)
    (hcb : isCoinBase coinbase = true) (hconnect : connectTx c params height ⟨view, keyView, 0, []⟩ coinbase = .ok s) :
    ∃ l, Moves c params ⟨L, keyView, 0⟩ coinbase [] 0 l ∧ Refines c db height (coinbase.txHash c) txs s l := by
  obtain ⟨txFee, stxos, hinputs, hfees, -, hview, -, haccept⟩ := connectTx_ok hconnect
  have hspends : spends coinbase = [] := by
    unfold spends
    simp [hcb]
  have hzero : txFee = 0 := by
    unfold checkTransactionInputs at hinputs
    rw [if_pos hcb] at hinputs
    cases hinputs
    rfl
  subst hzero
  refine ⟨⟨applyTx c L coinbase, s.keyView, 0⟩, ⟨hsane, hshows.fresh coinbase mem_cons_self,
    hspends.symm, ?_, rfl, haccept, rfl⟩, ⟨?_, rfl, ?_, le_refl _, ?_⟩⟩
  · intro p hp
    cases hp
  · refine hshows.connectTransaction hnodup (fun o ho => ?_) hview
    rw [hspends] at ho
    cases ho
  · rw [hfees]
    rfl
  · intro entry hentry
    have hadd := (connectTransaction_coinBase hcb hview).1
    obtain ⟨entry', hentry', hheight, hmark⟩ :=
      lookupEntry_addTxOuts (c := c) view coinbase height
    rw [hadd, hentry'] at hentry
    cases hentry
    refine ⟨?_, hheight⟩
    rw [hmark]
    cases hold : view.lookupEntry (coinbase.txHash c) with
    | none => exact hcb
    | some old => exact hflag old hold

theorem LedgerSteps.coins {s s' : LedgerState} (h : LedgerSteps c params coinbase s txs s') :
    s'.coins = txs.foldl (applyTx c) s.coins := by
  induction h with
  | nil => rfl
  | cons hstep _ ih =>
    obtain ⟨txFee, hmoves, -⟩ := hstep.moves
    rw [ih, hmoves.coins, foldl_cons]

namespace BlockChain

def ledgerState (b : BlockChain) (fees : Int) : LedgerState :=
  ⟨UtxoDb.ledger b.db.utxos, b.keys, fees⟩

theorem Connected.ledgerBlock {b b' : BlockChain} (h : Connected c b block s b')
    (hstored : Stored b.db.utxos) (hrefs : NoForwardRefs c block.transactions) :
    ∃ coinbase txs fees, block.transactions = coinbase :: txs ∧
      LedgerBlock c b.params (b.ledgerState 0) coinbase txs (b'.ledgerState fees) := by
  obtain ⟨flags, hsanity⟩ := h.sanity
  obtain ⟨coinbase, txs, htxs, hcb, hothers, hsane, hnodup⟩ := checkBlockSanity_ok hsanity
  obtain ⟨view, s₀, hload, hrun, hchecked, hs⟩ := checkConnectBlock_ok h.connect
  obtain ⟨hshows, hflag⟩ := loadInputs_shows hstored hnodup hload
  have hreward := checkConnected_reward hchecked
  rw [htxs] at hrun hshows hflag hsane hnodup hrefs hreward
  obtain ⟨s₁, hfirst, hrun⟩ := foldlM_cons_eq_ok.mp hrun
  have hsaneCb := hsane coinbase mem_cons_self
  obtain ⟨l₁, hmoves, hrel⟩ := refines_coinbase hshows
    (fun entry hentry => (hflag coinbase mem_cons_self entry hentry).trans hcb) hnodup hsaneCb hcb
    hfirst
  obtain ⟨l', hsteps, hl'⟩ := hrel.run hnodup (noForwardRefs_cons hrefs).2
    (fun tx htx => ⟨hsane tx (mem_cons_of_mem _ htx), hothers tx htx⟩) hrun
  have hend : l' = b'.ledgerState l'.fees := by
    have hcoins : l'.coins = ledger b'.db.utxos := by
      refine Finmap.ext_lookup fun o => ?_
      rw [lookup_ledger, h.utxos, hs]
      exact (hl'.shows.done o (by simp)).trans
        (coinAt_dbPutUtxoView hl'.shows.loaded o).symm
    have hkeys : l'.keys = b'.keys := by
      rw [h.keys, hs]
      exact hl'.keys.symm
    unfold ledgerState
    rw [← hcoins, ← hkeys]
  refine ⟨coinbase, txs, l'.fees, htxs, hcb, ⟨l₁, hmoves, ?_⟩, rfl, ?_⟩
  · rw [← hend]
    exact hsteps
  · have hsubsidy : calcBlockSubsidy + s₀.totalFees = s₀.totalFees := Int64.zero_add _
    rw [hsubsidy] at hreward
    rw [← hsaneCb.totalAtomsOut]
    exact (congrArg Int64.toInt hreward).trans hl'.fees

theorem Connected.stored {b b' : BlockChain} (h : Connected c b block s b') (hstored : Stored b.db.utxos) :
    Stored b'.db.utxos := by
  rw [h.utxos]
  exact stored_dbPutUtxoView hstored s.utxoView

theorem lookup_genesisUtxos {tx : MsgTx} (htxs : params.genesisBlock.transactions = tx :: txs) (o : OutPoint) :
    (ledger (genesisUtxos c params)).lookup o = Ledger.itemOf (newCoins c tx) o := by
  have hloaded := (Loaded.newUtxoViewpoint (∅ : UtxoDb) 0).addTxOuts (c := c) tx 0
  unfold genesisUtxos
  rw [htxs, lookup_ledger]
  simp only
  rw [coinAt_dbPutUtxoView hloaded, coinAt_addTxOuts]
  split_ifs with hhash
  · exact Option.or_none
  · exact (itemOf_newCoins_of_ne hhash).symm

theorem stored_createChainState (noVerify : Bool) : Stored (createChainState c params noVerify).db.utxos := by
  have hempty : Stored ∅ := fun hentry => by cases hentry
  change Stored (genesisUtxos c params)
  unfold genesisUtxos
  split
  · exact hempty
  · exact stored_dbPutUtxoView hempty _

theorem ConnectRun.stored {b b' : BlockChain} {blocks : List MsgBlock}
    (hstored : Stored b.db.utxos) (h : ConnectRun c b blocks b') : Stored b'.db.utxos := by
  induction h with
  | nil => exact hstored
  | snoc _ hext ih =>
    obtain ⟨s, hs⟩ := hext.connected
    exact hs.stored ih

/-- Without references to later transactions of a block, the stored unspent outputs are the coins that the
transactions of all blocks leave of those of genesis, each with its value and script. -/
theorem utxos_eq_ledger {noVerify : Bool} {blocks : List MsgBlock} {b : BlockChain}
    (hrun : ConnectRun c (createChainState c params noVerify) blocks b)
    (hrefs : ∀ block ∈ blocks, NoForwardRefs c block.transactions) :
    ledger b.db.utxos = (transactionsOf blocks).foldl (applyTx c) (ledger (genesisUtxos c params)) := by
  induction hrun with
  | nil => rfl
  | @snoc blocks m b' block hrun hext ih =>
    rw [forall_mem_append] at hrefs
    obtain ⟨s, hs⟩ := hext.connected
    obtain ⟨coinbase, txs, fees, htxs, hblock⟩ :=
      hs.ledgerBlock (hrun.stored (stored_createChainState noVerify)) (hrefs.2 _ mem_cons_self)
    obtain ⟨m₁, hmoves, hsteps⟩ := hblock.steps
    have hcoins : ledger b'.db.utxos = (coinbase :: txs).foldl (applyTx c) (ledger m.db.utxos) := by
      rw [foldl_cons]
      exact hmoves.coins ▸ hsteps.coins
    rw [hcoins, ih hrefs.1, ← htxs, transactionsOf, transactionsOf, flatMap_append, flatMap_singleton, foldl_append]

theorem noForwardRefs_issueBlock : ∀ block ∈ [Sample.issueBlock], NoForwardRefs Sample.crypto block.transactions := by
  decide +kernel

theorem utxos_eq_ledger_issueBlock : ledger (afterBlock Sample.crypto Sample.genesis Sample.issueBlock).db.utxos =
    Sample.issueBlock.transactions.foldl (applyTx Sample.crypto) (ledger (genesisUtxos Sample.crypto Sample.params)) :=
  utxos_eq_ledger (.single Sample.issueBlock_extends) noForwardRefs_issueBlock

end BlockChain

end Prova

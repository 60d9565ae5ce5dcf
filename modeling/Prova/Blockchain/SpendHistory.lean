import Prova.Blockchain.LedgerSteps
import Prova.Lib.Prefixes

/-!
# Every output is spent once

On the ledger a transaction spends coins that are there. Followed along a run of blocks this says that
every outpoint is spent at most once, and only after a transaction has made it. A transaction hash that
comes back after its outputs were spent would make the same outpoints again, so the history must not
repeat a hash.
-/

namespace Prova

open List

variable {c : Crypto} {params : Params}

/-- What a transaction may spend after the transactions of genesis and of the blocks so far: an output
that one of them made, that can be spent and that none of them has spent. -/
structure SpendsOnce (c : Crypto) (genesis before : List MsgTx) (tx : MsgTx) : Prop where
  nodup : (spends tx).Nodup
  created : ∀ o ∈ spends tx, ∃ creator ∈ genesis ++ before, creator.txHash c = o.hash ∧
    ∃ (j : Nat) (out : TxOut), creator.txOut[j]? = some out ∧ UInt32.ofNat j = o.index ∧
      isUnspendable out.pkScript = false
  unspent : ∀ o ∈ spends tx, ∀ other ∈ before, o ∉ spends other

/-- The ledger after a history: its coins were made and not spent in it. -/
structure Traced (c : Crypto) (genesis before : List MsgTx) (L : Ledger OutPoint Coin) : Prop where
  made : ∀ o coin, L.lookup o = some coin → ∃ tx ∈ genesis ++ before, (o, coin) ∈ newCoins c tx
  unspent : ∀ o coin, L.lookup o = some coin → ∀ tx ∈ before, o ∉ spends tx
  history : EachAfter (SpendsOnce c genesis) before

namespace Traced

variable {genesis before : List MsgTx}

theorem known {L : Ledger OutPoint Coin} (h : Traced c genesis before L) {tx : MsgTx}
    (htx : tx ∈ before) {o : OutPoint} (ho : o ∈ spends tx) :
    ∃ creator ∈ genesis ++ before, creator.txHash c = o.hash := by
  obtain ⟨pre, post, rfl⟩ := append_of_mem htx
  obtain ⟨creator, hmem, hhash, -⟩ := (h.history pre tx post rfl).created o ho
  refine ⟨creator, ?_, hhash⟩
  rw [← append_assoc]
  exact mem_append_left _ hmem

theorem moves {s s' : LedgerState} {tx : MsgTx} {spent : List (OutPoint × Coin)} {txFee : Int}
    (h : Traced c genesis before s.coins) (hmoves : Moves c params s tx spent txFee s')
    (hnew : tx.txHash c ∉ (genesis ++ before).map (·.txHash c)) :
    Traced c genesis (before ++ [tx]) s'.coins := by
  have hpresent : ∀ o ∈ spends tx, ∃ coin, s.coins.lookup o = some coin := by
    intro o ho
    rw [← hmoves.names] at ho
    obtain ⟨p, hp, rfl⟩ := mem_map.mp ho
    exact ⟨p.2, hmoves.present p hp⟩
  have honce : SpendsOnce c genesis before tx := by
    refine ⟨?_, fun o ho => ?_, fun o ho other hother => ?_⟩
    · unfold spends
      split
      · exact nodup_nil
      · exact hmoves.sane.nodup
    · obtain ⟨coin, hcoin⟩ := hpresent o ho
      obtain ⟨creator, hmem, hnewCoin⟩ := h.made o coin hcoin
      obtain ⟨j, out, hout, hspendable, heq⟩ := mem_coinsFrom.mp hnewCoin
      obtain ⟨rfl, -⟩ := Prod.mk.inj heq
      exact ⟨creator, hmem, rfl, j, out, hout, by rw [Nat.zero_add], hspendable⟩
    · obtain ⟨coin, hcoin⟩ := hpresent o ho
      exact h.unspent o coin hcoin other hother
  have hlookup : ∀ o coin, s'.coins.lookup o = some coin →
      (o, coin) ∈ newCoins c tx ∨ o ∉ spends tx ∧ s.coins.lookup o = some coin := by
    intro o coin ho
    rw [hmoves.coins, lookup_applyTx, Option.or_eq_some_iff] at ho
    rcases ho with hitem | ⟨-, hold⟩
    · exact .inl (Ledger.mem_of_itemOf hitem)
    · split_ifs at hold with hspends
      exact .inr ⟨hspends, hold⟩
  refine ⟨fun o coin ho => ?_, fun o coin ho tx' htx' hspends => ?_,
    eachAfter_append.mpr ⟨h.history, eachAfter_singleton.mpr ?_⟩⟩
  · rw [← append_assoc]
    rcases hlookup o coin ho with hcoin | ⟨-, hold⟩
    · exact ⟨tx, mem_append_right _ mem_cons_self, hcoin⟩
    · obtain ⟨creator, hmem, hcoin⟩ := h.made o coin hold
      exact ⟨creator, mem_append_left _ hmem, hcoin⟩
  · rw [mem_append, mem_singleton] at htx'
    rcases hlookup o coin ho with hcoin | ⟨hnot, hold⟩
    · -- a new outpoint: whoever had spent it would have found its hash in the history
      have hhash : o.hash = tx.txHash c := hash_of_mem_newCoins hcoin
      rcases htx' with htx' | rfl
      · obtain ⟨creator, hmem, heq⟩ := h.known htx' hspends
        exact hnew (mem_map.mpr ⟨creator, hmem, heq.trans hhash⟩)
      · obtain ⟨coin', hcoin'⟩ := hpresent o hspends
        rw [hmoves.fresh o hhash] at hcoin'
        cases hcoin'
    · rcases htx' with htx' | rfl
      · exact h.unspent o coin hold tx' htx' hspends
      · exact hnot hspends
  · rwa [append_nil]

theorem steps {s s' : LedgerState} {coinbase : Hash} {txs : List MsgTx}
    (h : Traced c genesis before s.coins) (hsteps : LedgerSteps c params coinbase s txs s')
    (hnodup : ((genesis ++ before ++ txs).map (·.txHash c)).Nodup) :
    Traced c genesis (before ++ txs) s'.coins := by
  induction hsteps generalizing before with
  | nil =>
    rw [append_nil]
    exact h
  | @cons s m s' tx txs spent hstep hrest ih =>
    obtain ⟨txFee, hmoves, -⟩ := hstep.moves
    have hsplit : before ++ tx :: txs = before ++ [tx] ++ txs := by simp
    have hnew : tx.txHash c ∉ (genesis ++ before).map (·.txHash c) := by
      rw [map_append, map_cons] at hnodup
      intro hmem
      exact (nodup_append.mp hnodup).2.2 _ hmem _ mem_cons_self rfl
    rw [hsplit]
    refine ih (h.moves hmoves hnew) ?_
    rwa [← append_assoc, append_assoc (genesis ++ before), singleton_append]

theorem block {s s' : LedgerState} {coinbase : MsgTx} {txs : List MsgTx}
    (h : Traced c genesis before s.coins) (hblock : LedgerBlock c params s coinbase txs s')
    (hnodup : ((genesis ++ before ++ coinbase :: txs).map (·.txHash c)).Nodup) :
    Traced c genesis (before ++ coinbase :: txs) s'.coins := by
  obtain ⟨m, hmoves, hsteps⟩ := hblock.steps
  have hsplit : before ++ coinbase :: txs = before ++ [coinbase] ++ txs := by simp
  have hnew : coinbase.txHash c ∉ (genesis ++ before).map (·.txHash c) := by
    rw [map_append, map_cons] at hnodup
    intro hmem
    exact (nodup_append.mp hnodup).2.2 _ hmem _ mem_cons_self rfl
  rw [hsplit]
  refine (h.moves hmoves hnew).steps hsteps ?_
  rwa [← append_assoc, append_assoc (genesis ++ before), singleton_append]

end Traced

namespace BlockChain

theorem traced_createChainState (noVerify : Bool) : Traced c params.genesisBlock.transactions []
      ((createChainState c params noVerify).ledgerState 0).coins := by
  refine ⟨fun o coin ho => ?_, fun _ _ _ tx htx => absurd htx not_mem_nil, .nil⟩
  rw [append_nil]
  cases htxs : params.genesisBlock.transactions with
  | nil =>
    change (UtxoDb.ledger (genesisUtxos c params)).lookup o = some coin at ho
    unfold genesisUtxos at ho
    rw [htxs, UtxoDb.lookup_ledger] at ho
    cases ho
  | cons tx txs =>
    have hcoin := (lookup_genesisUtxos (c := c) htxs o).symm.trans ho
    exact ⟨tx, mem_cons_self, Ledger.mem_of_itemOf hcoin⟩

/-- In every run of blocks without references to later transactions and without a transaction hash
that comes back, each transaction spends outputs that an earlier one has made, that can be spent, and
that nobody has spent before. -/
theorem outpoints_spent_once {noVerify : Bool} {blocks : List MsgBlock} {b : BlockChain}
    (hrun : ConnectRun c (createChainState c params noVerify) blocks b)
    (hrefs : ∀ block ∈ blocks, NoForwardRefs c block.transactions)
    (hhashes : ((params.genesisBlock.transactions ++ transactionsOf blocks).map (·.txHash c)).Nodup) :
    ∀ before tx after, transactionsOf blocks = before ++ tx :: after →
      SpendsOnce c params.genesisBlock.transactions before tx := by
  have htraced : Traced c params.genesisBlock.transactions (transactionsOf blocks)
      (b.ledgerState 0).coins := by
    induction hrun with
    | nil => exact traced_createChainState noVerify
    | @snoc blocks m b' block hrun hext ih =>
      rw [forall_mem_append] at hrefs
      have htxs : transactionsOf (blocks ++ [block]) = transactionsOf blocks ++ block.transactions := by
        unfold transactionsOf
        rw [flatMap_append, flatMap_singleton]
      rw [htxs, ← append_assoc] at hhashes
      rw [htxs]
      obtain ⟨s, hs⟩ := hext.connected
      obtain ⟨coinbase, txs, fees, hblock, hledger⟩ :=
        hs.ledgerBlock (hrun.stored (stored_createChainState noVerify))
          (hrefs.2 _ mem_cons_self)
      have hbefore := ih hrefs.1 (hhashes.sublist ((sublist_append_left _ _).map _))
      rw [hblock] at hhashes ⊢
      have hafter := hbefore.block hledger hhashes
      exact hafter
  exact htraced.history

theorem outpoints_spent_once_issueBlock :
    SpendsOnce Sample.crypto Sample.params.genesisBlock.transactions [Sample.coinbaseTx, Sample.issueTx]
      Sample.spendTx :=
  outpoints_spent_once (.single Sample.issueBlock_extends) noForwardRefs_issueBlock (by decide +kernel) _ _ []
    (by decide +kernel)

/-- The second transaction of the block spends an output that the third one makes. -/
theorem outpoints_forwardBlock : ConnectRun Sample.crypto (createChainState Sample.crypto Sample.params false)
        [Sample.forwardBlock] (afterBlock Sample.crypto Sample.genesis Sample.forwardBlock) ∧
      transactionsOf [Sample.forwardBlock] =
        [Sample.coinbaseTx] ++ Sample.forwardTx :: [Sample.issueTx, Sample.spendTx] ∧
      ⟨Sample.issueTx.txHash Sample.crypto, 0⟩ ∈ spends Sample.forwardTx ∧
      ∀ tx ∈ Sample.params.genesisBlock.transactions ++ [Sample.coinbaseTx],
        tx.txHash Sample.crypto ≠ Sample.issueTx.txHash Sample.crypto :=
  ⟨.single Sample.forwardBlock_extends, by decide +kernel, by decide +kernel, by decide +kernel⟩

end BlockChain

end Prova

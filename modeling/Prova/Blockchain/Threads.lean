import Prova.Blockchain.LedgerSteps
import Prova.Blockchain.ThreadScripts

/-!
# The admin threads on the ledger

Each admin thread has one coin on the ledger, and the admin state knows where it is. A transaction that
spends a thread coin makes the next coin of the thread, and no other transaction touches thread coins.
-/

namespace Prova

open List

variable {c : Crypto} {params : Params}

/-- The coin at the tip of a thread is the only one of the thread. -/
structure ThreadOk (L : Ledger OutPoint Coin) (t : ThreadID) (tip : OutPoint) : Prop where
  present : ∃ coin, L.lookup tip = some coin ∧ scriptThread coin.pkScript = some t
  unique : ∀ o coin, L.lookup o = some coin → scriptThread coin.pkScript = some t → o = tip

def ThreadsOk (s : LedgerState) : Prop :=
  ∀ t, ∃ tip, s.keys.threadTips t = some tip ∧ ThreadOk s.coins t tip

namespace ThreadOk

variable {s s' : LedgerState} {tx : MsgTx} {spent : List (OutPoint × Coin)} {txFee : Int}
  {t : ThreadID} {tip : OutPoint}

theorem old_or_new (hmoves : Moves c params s tx spent txFee s') {o : OutPoint} {coin : Coin}
    (h : s'.coins.lookup o = some coin) :
    Ledger.itemOf (newCoins c tx) o = some coin ∨ o ∉ spends tx ∧ s.coins.lookup o = some coin := by
  rw [hmoves.coins, lookup_applyTx, Option.or_eq_some_iff] at h
  rcases h with h | ⟨-, h⟩
  · exact .inl h
  · split_ifs at h with hspent
    exact .inr ⟨hspent, h⟩

theorem other (h : ThreadOk s.coins t tip) (hmoves : Moves c params s tx spent txFee s')
    (hspent : ∀ p ∈ spent, scriptThread p.2.pkScript ≠ some t)
    (hnew : ∀ o coin, Ledger.itemOf (newCoins c tx) o = some coin →
      scriptThread coin.pkScript ≠ some t) : ThreadOk s'.coins t tip := by
  obtain ⟨⟨coin, hcoin, hthread⟩, hunique⟩ := h
  refine ⟨⟨coin, ?_, hthread⟩, fun o coin' ho hthread' => ?_⟩
  · have hkept : tip ∉ spends tx := by
      intro hmem
      rw [← hmoves.names] at hmem
      obtain ⟨p, hp, rfl⟩ := mem_map.mp hmem
      have hsame := (hmoves.present p hp).symm.trans hcoin
      cases hsame
      exact hspent p hp hthread
    have hold : tip.hash ≠ tx.txHash c := by
      intro heq
      rw [hmoves.fresh tip heq] at hcoin
      cases hcoin
    rw [hmoves.coins, lookup_applyTx, itemOf_newCoins_of_ne hold, if_neg hkept, hcoin]
    rfl
  · rcases old_or_new hmoves ho with hitem | ⟨-, hold⟩
    · exact absurd hthread' (hnew o coin' hitem)
    · exact hunique o coin' hold hthread'

theorem next {p : OutPoint × Coin} {outs : List (List ParsedOpcode)} (h : ThreadOk s.coins t tip)
    (hmoves : Moves c params s tx (p :: spent) txFee s')
    (hdet : getAdminDetails tx = some (t, outs)) (hp : scriptThread p.2.pkScript = some t) :
    ThreadOk s'.coins t ⟨tx.txHash c, 0⟩ := by
  obtain ⟨out, outs', hcons, hscript, -⟩ := getAdminDetails_ok hdet
  have hfirst : tx.txOut[0]? = some out := by
    rw [hcons]
    rfl
  have hspendable := isUnspendable_of_isThreadScript (isThreadScript_iff.mpr ⟨t, hscript⟩)
  refine ⟨⟨⟨out.value, out.pkScript⟩, ?_, hscript⟩, fun o coin ho hthread => ?_⟩
  · have hitem := hmoves.sane.itemOf_newCoins c hfirst hspendable
    rw [hmoves.coins, lookup_applyTx]
    change (Ledger.itemOf (newCoins c tx) ⟨tx.txHash c, UInt32.ofNat 0⟩).or _ = _
    rw [hitem]
    rfl
  · rcases old_or_new hmoves ho with hitem | ⟨hkept, hold⟩
    · exact (hmoves.sane.thread_of_itemOf hitem (isThreadScript_iff.mpr ⟨t, hthread⟩)).1
    · -- the old coin of the thread was spent
      have htip : o = p.1 := (h.unique o coin hold hthread).trans
        (h.unique p.1 p.2 (hmoves.present p mem_cons_self) hp).symm
      have hmem : o ∈ spends tx := by
        rw [htip, ← hmoves.names]
        exact mem_map_of_mem mem_cons_self
      exact absurd hmem hkept

end ThreadOk

namespace ThreadsOk

variable {s s' : LedgerState} {tx : MsgTx} {spent : List (OutPoint × Coin)} {txFee : Int}

theorem threadTips (hmoves : Moves c params s tx spent txFee s') :
    s'.keys.threadTips = match threadOf tx with
      | none => s.keys.threadTips
      | some t => Function.update s.keys.threadTips t (some ⟨tx.txHash c, 0⟩) := by
  obtain ⟨-, hafter⟩ := acceptTx_ok hmoves.keys
  rw [hafter]
  rfl

theorem plain (h : ThreadsOk s) (hmoves : Moves c params s tx spent txFee s')
    (hspent : ∀ p ∈ spent, ¬ isThreadScript p.2.pkScript) (hdet : getAdminDetails tx = none) : ThreadsOk s' := by
  intro t
  obtain ⟨tip, htip, hok⟩ := h t
  have htips := threadTips hmoves
  unfold threadOf at htips
  rw [hdet] at htips
  refine ⟨tip, by rw [htips]; exact htip, hok.other hmoves (fun p hp hthread => ?_)
    fun o coin hitem hthread => ?_⟩
  · exact hspent p hp (isThreadScript_iff.mpr ⟨t, hthread⟩)
  · obtain ⟨-, -, t', outs, hsome, -⟩ :=
      hmoves.sane.thread_of_itemOf hitem (isThreadScript_iff.mpr ⟨t, hthread⟩)
    rw [hdet] at hsome
    cases hsome

theorem step {coinbase : Hash} (h : ThreadsOk s)
    (hstep : LedgerStep c params coinbase s tx spent s') : ThreadsOk s' := by
  obtain ⟨txFee, hmoves, -⟩ := hstep.moves
  cases hstep.threads with
  | plain hdet hplain => exact h.plain hmoves hplain hdet
  | @thread p coins hdet hthread hscript hplain =>
    obtain ⟨⟨t, outs⟩, hdet⟩ := Option.ne_none_iff_exists'.mp hdet
    obtain ⟨out, outs', hcons, hout, -⟩ := getAdminDetails_ok hdet
    -- the spent coin has the script of the first output
    have hp : scriptThread p.2.pkScript = some t := by
      rw [hcons, headD_cons] at hscript
      rw [← eq_of_take_two (isThreadScript_iff.mpr ⟨t, hout⟩) hthread hscript]
      exact hout
    have htips := threadTips hmoves
    unfold threadOf at htips
    rw [hdet] at htips
    intro t'
    obtain ⟨tip, htip, hok⟩ := h t'
    by_cases heq : t' = t
    · subst heq
      refine ⟨⟨tx.txHash c, 0⟩, ?_, hok.next hmoves hdet hp⟩
      rw [htips]
      exact Function.update_self ..
    · refine ⟨tip, ?_, hok.other hmoves (fun q hq hthread' => ?_) fun o coin hitem hthread' => ?_⟩
      · rw [htips]
        exact (Function.update_of_ne heq ..).trans htip
      · rcases mem_cons.mp hq with rfl | hq
        · rw [hp] at hthread'
          exact heq (Option.some.inj hthread').symm
        · exact hplain q hq (isThreadScript_iff.mpr ⟨t', hthread'⟩)
      · obtain ⟨-, -, t'', outs'', hsome, hscript'⟩ :=
          hmoves.sane.thread_of_itemOf hitem (isThreadScript_iff.mpr ⟨t', hthread'⟩)
        rw [hdet] at hsome
        cases hsome
        rw [hthread'] at hscript'
        exact heq (Option.some.inj hscript')

theorem steps {coinbase : Hash} {txs : List MsgTx} (h : ThreadsOk s)
    (hsteps : LedgerSteps c params coinbase s txs s') : ThreadsOk s' := by
  induction hsteps with
  | nil => exact h
  | cons hstep _ ih => exact ih (h.step hstep)

theorem block {coinbase : MsgTx} {txs : List MsgTx} (h : ThreadsOk s)
    (hblock : LedgerBlock c params s coinbase txs s') : ThreadsOk s' := by
  obtain ⟨m, hmoves, hsteps⟩ := hblock.steps
  have hdet := hmoves.sane.coinbase_details hblock.isCoinBase
  exact (h.plain hmoves (by simp) hdet).steps hsteps

end ThreadsOk

/-! ### Runs -/

def ThreadID.genesisIndex : ThreadID → Nat
  | .root => 0
  | .provision => 1
  | .issue => 2

/-- The first transaction of the genesis block has the three thread outputs. -/
def GenesisThreads (params : Params) : Prop :=
  ∃ tx txs, params.genesisBlock.transactions = tx :: txs ∧
    (tx.txOut.map fun out => scriptThread out.pkScript) =
      [some .root, some .provision, some .issue]

namespace BlockChain

theorem threadsOk_createChainState (hgenesis : GenesisThreads params) (noVerify : Bool) (fees : Int) :
    ThreadsOk ((createChainState c params noVerify).ledgerState fees) := by
  obtain ⟨tx, txs, htxs, houts⟩ := hgenesis
  have hlookup := lookup_genesisUtxos (c := c) htxs
  have hlength : tx.txOut.length = 3 := by simpa using congrArg List.length houts
  have hnodup : ((newCoins c tx).map Prod.fst).Nodup :=
    nodup_coinsFrom (by rw [Nat.zero_add, hlength]; decide)
  have hthread : ∀ (j : Nat) (out : TxOut) (t : ThreadID), tx.txOut[j]? = some out →
      scriptThread out.pkScript = some t → j = t.genesisIndex := by
    intro j out t hout hscript
    have hj : (tx.txOut.map fun out => scriptThread out.pkScript)[j]? = some (some t) := by
      rw [getElem?_map, hout, Option.map_some, hscript]
    rw [houts] at hj
    match j with
    | 0 | 1 | 2 =>
      cases hj
      rfl
    | j + 3 => cases hj
  intro t
  refine ⟨⟨tx.txHash c, UInt32.ofNat t.genesisIndex⟩, ?_, ?_, fun o coin ho hscript => ?_⟩
  · change Option.map _ (params.genesisBlock.transactions.head?) = _
    rw [htxs]
    cases t <;> rfl
  · have hj : (tx.txOut.map fun out => scriptThread out.pkScript)[t.genesisIndex]? = some (some t) := by
      rw [houts]
      cases t <;> rfl
    rw [getElem?_map] at hj
    obtain ⟨out, hout, hscript⟩ := Option.map_eq_some_iff.mp hj
    refine ⟨⟨out.value, out.pkScript⟩, (hlookup _).trans ?_, hscript⟩
    refine Ledger.itemOf_of_mem hnodup (mem_coinsFrom.mpr ⟨t.genesisIndex, out, hout, ?_, ?_⟩)
    · exact isUnspendable_of_isThreadScript (isThreadScript_iff.mpr ⟨t, hscript⟩)
    · rw [Nat.zero_add]
  · have hitem := (hlookup o).symm.trans ho
    obtain ⟨j, out, hout, -, heq⟩ := mem_coinsFrom.mp (Ledger.mem_of_itemOf hitem)
    obtain ⟨rfl, rfl⟩ := Prod.mk.inj heq
    rw [hthread j out t hout hscript, Nat.zero_add]

theorem ConnectRun.threadsOk {b b' : BlockChain} {blocks : List MsgBlock}
    (hstored : UtxoDb.Stored b.db.utxos) (hthreads : ThreadsOk (b.ledgerState 0))
    (h : ConnectRun c b blocks b') (hrefs : ∀ block ∈ blocks, NoForwardRefs c block.transactions) :
    ThreadsOk (b'.ledgerState 0) := by
  induction h with
  | nil => exact hthreads
  | snoc hrun hext ih =>
    rw [forall_mem_append] at hrefs
    obtain ⟨s, hs⟩ := hext.connected
    obtain ⟨coinbase, txs, fees, -, hblock⟩ := hs.ledgerBlock (hrun.stored hstored)
      (hrefs.2 _ mem_cons_self)
    have hnext := (ih hrefs.1).block hblock
    exact hnext

/-- Along every run of blocks without references to later transactions, each thread has exactly one
unspent output, at the tip that the admin state has for the thread. -/
theorem threadTip_unique {noVerify : Bool} {blocks : List MsgBlock} {b : BlockChain} (hgenesis : GenesisThreads params)
    (hrun : ConnectRun c (createChainState c params noVerify) blocks b)
    (hrefs : ∀ block ∈ blocks, NoForwardRefs c block.transactions) (t : ThreadID) :
    ∃ tip coin, b.keys.threadTips t = some tip ∧
      ((UtxoDb.unspent b.db.utxos).filter fun p => scriptThread p.2.pkScript = some t) = [⟨tip, coin⟩] := by
  have hthreads := hrun.threadsOk (stored_createChainState noVerify)
    (threadsOk_createChainState hgenesis noVerify 0) hrefs
  obtain ⟨tip, htip, ⟨coin, hcoin, hscript⟩, hunique⟩ := hthreads t
  have hlookup : ∀ o coin, (b.ledgerState 0).coins.lookup o = some coin ↔
      ⟨o, coin⟩ ∈ UtxoDb.unspent b.db.utxos := by
    intro o coin
    rw [UtxoDb.mem_unspent]
    exact Eq.congr_left (UtxoDb.lookup_ledger b.db.utxos o)
  refine ⟨tip, coin, htip, perm_singleton.mp ?_⟩
  rw [perm_ext_iff_of_nodup ((UtxoDb.nodupKeys_unspent _).nodup.filter _) (nodup_singleton _)]
  rintro ⟨o, coin'⟩
  rw [mem_filter, mem_singleton, decide_eq_true_eq]
  constructor
  · rintro ⟨hmem, hthread⟩
    have ho := (hlookup o coin').mpr hmem
    obtain rfl := hunique o coin' ho hthread
    cases hcoin.symm.trans ho
    rfl
  · rintro ⟨⟩
    exact ⟨(hlookup tip coin).mp hcoin, hscript⟩

theorem threadTip_unique_issueBlock :
    ∃ tip coin, (afterBlock Sample.crypto Sample.genesis Sample.issueBlock).keys.threadTips .issue = some tip ∧
      ((UtxoDb.unspent (afterBlock Sample.crypto Sample.genesis Sample.issueBlock).db.utxos).filter
        fun p => scriptThread p.2.pkScript = some .issue) = [⟨tip, coin⟩] :=
  threadTip_unique ⟨_, _, rfl, by decide⟩ (.single Sample.issueBlock_extends) noForwardRefs_issueBlock .issue

/-- A transaction that spends the thread output of a later one is accepted, because a third one shows
that output early. The later transaction then makes the output again, so the thread has two. -/
theorem threadTip_forwardBlock : GenesisThreads Sample.params ∧
      ConnectRun Sample.crypto (createChainState Sample.crypto Sample.params false)
        [Sample.forwardBlock] (afterBlock Sample.crypto Sample.genesis Sample.forwardBlock) ∧
      ((UtxoDb.unspent (afterBlock Sample.crypto Sample.genesis Sample.forwardBlock).db.utxos).filter
        fun p => scriptThread p.2.pkScript = some .issue).map (·.1) =
        [⟨Sample.forwardTx.txHash Sample.crypto, 0⟩, ⟨Sample.issueTx.txHash Sample.crypto, 0⟩] :=
  ⟨⟨_, _, rfl, by decide +kernel⟩, .single Sample.forwardBlock_extends, by decide +kernel⟩

end BlockChain

end Prova

import Prova.Mempool.TxPool

/-!
# What a call changes in the main pool

Only an accepted transaction changes the main pool, and it is added to what the pool has. Everything
the pool does with its orphans leaves the main pool alone.
-/

namespace Prova

namespace Mempool

namespace TxPool

variable {F : Type} {c : Crypto}

variable {rateLimit : Bool} {cfg : Config F} {tx : MsgTx} {mp mp' : TxPool F}

/-! ### Orphans -/

def ApartFromOrphans {α : Type*} (π : TxPool F → α) : Prop :=
  ∀ mp orphans orphansByPrev nextExpireScan,
    π { mp with
      orphans := orphans, orphansByPrev := orphansByPrev, nextExpireScan := nextExpireScan } = π mp

section

variable {α : Type*} {π : TxPool F → α}

theorem apart_foldl {β : Type*} {f : TxPool F → β → TxPool F} (hf : ∀ mp b, π (f mp b) = π mp)
    (l : List β) (mp : TxPool F) : π (l.foldl f mp) = π mp :=
  List.foldlRecOn (motive := fun mp' => π mp' = π mp) l f rfl fun mp' h b _ => (hf mp' b).trans h

theorem ApartFromOrphans.removePrevRef (hπ : ApartFromOrphans π) (txHash : Hash) (mp : TxPool F)
    (prevOut : OutPoint) : π (removePrevRef txHash mp prevOut) = π mp := by
  unfold TxPool.removePrevRef
  cases mp.orphansByPrev.lookup prevOut with
  | none => rfl
  | some orphans =>
    dsimp only
    split_ifs <;> exact hπ mp mp.orphans _ mp.nextExpireScan

theorem ApartFromOrphans.removeOrphanTo (hπ : ApartFromOrphans π) (depth : Nat)
    (removeRedeemers : Bool) (mp : TxPool F) (tx : MsgTx) :
    π (removeOrphanTo c depth removeRedeemers mp tx) = π mp := by
  induction depth generalizing removeRedeemers mp tx with
  | zero => rfl
  | succ depth ih =>
    unfold TxPool.removeOrphanTo
    cases mp.orphans.lookup (tx.txHash c) with
    | none => rfl
    | some otx =>
      have hrefs := apart_foldl (hπ.removePrevRef (tx.txHash c)) otx.tx.prevOuts mp
      refine (hπ _ _ _ _).trans (Eq.trans ?_ hrefs)
      cases removeRedeemers with
      | false => rfl
      | true => exact apart_foldl (fun mp prevOut => apart_foldl (ih true) _ mp) _ _

theorem ApartFromOrphans.removeOrphan (hπ : ApartFromOrphans π) (mp : TxPool F) (tx : MsgTx)
    (removeRedeemers : Bool) : π (mp.removeOrphan c tx removeRedeemers) = π mp :=
  hπ.removeOrphanTo _ _ _ _

theorem ApartFromOrphans.limitNumOrphans (hπ : ApartFromOrphans π) (cfg : Config F) (mp : TxPool F) :
    π (mp.limitNumOrphans c cfg) = π mp := by
  have hexpire : π (mp.expireOrphans c cfg.now) = π mp := by
    unfold expireOrphans
    split_ifs with hscan
    · refine (hπ _ _ _ _).trans (apart_foldl (fun mp otx => ?_) _ mp)
      split_ifs
      · exact hπ.removeOrphan mp otx.tx true
      · rfl
    · rfl
  unfold TxPool.limitNumOrphans
  dsimp only
  split_ifs
  · exact hexpire
  · cases (cfg.order.arrange (mp.expireOrphans c cfg.now).orphans.entries).head? with
    | none => exact hexpire
    | some otx => exact (hπ.removeOrphan _ otx.2.tx false).trans hexpire

theorem ApartFromOrphans.addOrphan (hπ : ApartFromOrphans π) (cfg : Config F) (mp : TxPool F)
    (tx : MsgTx) (tag : UInt64) : π (mp.addOrphan c cfg tx tag) = π mp := by
  unfold TxPool.addOrphan
  split_ifs
  · rfl
  · refine (apart_foldl (fun mp prevOut => hπ mp mp.orphans _ mp.nextExpireScan) _ _).trans ?_
    exact (hπ _ _ _ _).trans (hπ.limitNumOrphans cfg mp)

end

theorem apart_pool : ApartFromOrphans (TxPool.pool : TxPool F → _) := fun _ _ _ _ => rfl

theorem apart_outpoints : ApartFromOrphans (TxPool.outpoints : TxPool F → _) := fun _ _ _ _ => rfl

theorem maybeAddOrphan_error_order {tag : UInt64} {e : TxError}
    (h : mp.maybeAddOrphan c cfg tx tag = (mp', .error e)) (order : MapOrder) :
    mp.maybeAddOrphan c { cfg with order := order } tx tag = (mp', .error e) := by
  unfold maybeAddOrphan at h ⊢
  by_cases hsize : cfg.policy.maxOrphanTxSize < tx.serializeSize
  · rw [if_pos hsize] at h
    rw [if_pos hsize, h]
  · rw [if_neg hsize] at h
    cases h

/-! ### Accepting transactions -/

def PoolGrows (mp mp' : TxPool F) : Prop :=
  ∀ hash txD, mp.pool.lookup hash = some txD → mp'.pool.lookup hash = some txD

theorem PoolGrows.of_eq (h : mp'.pool = mp.pool) : PoolGrows mp mp' := by
  intro hash txD hlookup
  rw [h]
  exact hlookup

theorem PoolGrows.trans {mp₁ mp₂ mp₃ : TxPool F} (h₁ : PoolGrows mp₁ mp₂) (h₂ : PoolGrows mp₂ mp₃) :
    PoolGrows mp₁ mp₃ := fun hash txD hlookup => h₂ hash txD (h₁ hash txD hlookup)

variable [Float64 F]

omit [Float64 F] in
theorem checkAlone_ok {rejectDupOrphans : Bool} (h : mp.checkAlone c cfg tx rejectDupOrphans = .ok ()) :
    mp.pool.lookup (tx.txHash c) = none ∧ (∀ prevOut ∈ tx.prevOuts, mp.outpoints.lookup prevOut = none) ∧
      (rejectDupOrphans = true → mp.orphans.lookup (tx.txHash c) = none) := by
  unfold checkAlone at h
  obtain ⟨hdup, h⟩ := bind_unit_eq_ok.mp h
  obtain ⟨-, h⟩ := bind_unit_eq_ok.mp h
  obtain ⟨-, h⟩ := bind_unit_eq_ok.mp h
  obtain ⟨-, h⟩ := bind_unit_eq_ok.mp h
  have hspend : mp.checkPoolDoubleSpend tx = .ok () := by
    split_ifs at h
    · exact h
    · exact (bind_unit_eq_ok.mp h).2
  rw [txRuleError_eq_ok, not_or, not_and] at hdup
  unfold checkPoolDoubleSpend at hspend
  rw [txRuleError_eq_ok] at hspend
  refine ⟨Option.not_isSome_iff_eq_none.mp hdup.1, fun prevOut hmem => ?_, fun hflag => ?_⟩
  · exact Option.not_isSome_iff_eq_none.mp fun hsome => hspend ⟨prevOut, hmem, hsome⟩
  · exact Option.not_isSome_iff_eq_none.mp (hdup.2 hflag)

structure SameMaps (mp mp' : TxPool F) : Prop where
  pool : mp'.pool = mp.pool
  outpoints : mp'.outpoints = mp.outpoints
  orphans : mp'.orphans = mp.orphans
  orphansByPrev : mp'.orphansByPrev = mp.orphansByPrev

theorem sameMaps_limitFree (cfg : Config F) (size : Nat) (mp : TxPool F) : SameMaps mp (mp.limitFree cfg size).1 := by
  unfold limitFree
  dsimp only
  split_ifs <;> exact ⟨rfl, rfl, rfl, rfl⟩

/-- The ways `maybeAcceptTransaction` can end: at most the counters of the rate limit move on, or the
transaction is added. -/
inductive Outcome (c : Crypto) (cfg : Config F) (mp : TxPool F) (tx : MsgTx) (rejectDupOrphans : Bool) :
    TxPool F × Except TxError (Verdict F) → Prop
  | rejected {mp' : TxPool F} (same : SameMaps mp mp') (e : TxError) :
    Outcome c cfg mp tx rejectDupOrphans (mp', .error e)
  | missing (alone : mp.checkAlone c cfg tx rejectDupOrphans = .ok ()) (hashes : List Hash) :
    Outcome c cfg mp tx rejectDupOrphans (mp, .ok (.missingParents hashes))
  | accepted {mp' : TxPool F} (same : SameMaps mp mp')
    (alone : mp.checkAlone c cfg tx rejectDupOrphans = .ok ()) (utxoView : UtxoViewpoint) (height : UInt32)
    (fee : Int64) : Outcome c cfg mp tx rejectDupOrphans ((mp'.addTransaction c cfg utxoView tx height fee).1,
      .ok (.accepted (mp'.addTransaction c cfg utxoView tx height fee).2))

theorem maybeAcceptTransaction_outcome (cfg : Config F) (mp : TxPool F) (tx : MsgTx)
    (isNew rateLimit rejectDupOrphans : Bool) : Outcome c cfg mp tx rejectDupOrphans
      (mp.maybeAcceptTransaction c cfg tx isNew rateLimit rejectDupOrphans) := by
  have hsame : SameMaps mp mp := ⟨rfl, rfl, rfl, rfl⟩
  unfold maybeAcceptTransaction
  cases halone : mp.checkAlone c cfg tx rejectDupOrphans with
  | error e => exact .rejected hsame e
  | ok u =>
    dsimp only
    split_ifs
    · exact .rejected hsame _
    · exact .missing halone _
    · cases checkKnown cfg tx isNew _ with
      | error e => exact .rejected hsame e
      | ok candidate =>
        dsimp only [acceptCandidate]
        cases hlimit : (if rateLimit ∧ candidate.txFee < candidate.minFee then
            mp.limitFree cfg tx.serializeSize else (mp, .ok ())) with
        | mk mp₁ limited =>
          have hmaps : SameMaps mp mp₁ := by
            split_ifs at hlimit
            · have hmaps := sameMaps_limitFree cfg tx.serializeSize mp
              rwa [hlimit] at hmaps
            · cases hlimit
              exact hsame
          cases limited with
          | error e => exact .rejected hmaps e
          | ok u =>
            dsimp only
            cases validateTransactionScripts c tx candidate.utxoView cfg.chain.keys
                standardVerifyFlags with
            | error e => exact .rejected hmaps _
            | ok u => exact .accepted hmaps halone _ _ _

theorem pool_maybeAcceptTransaction {isNew rejectDupOrphans : Bool} {r : Except TxError (Verdict F)}
    (h : mp.maybeAcceptTransaction c cfg tx isNew rateLimit rejectDupOrphans = (mp', r)) :
    match r with
    | .error _ => mp'.pool = mp.pool
    | .ok (.missingParents _) => mp' = mp
    | .ok (.accepted txD) =>
      txD.tx = tx ∧ mp.pool.lookup (tx.txHash c) = none ∧ mp'.pool = mp.pool.insert (tx.txHash c) txD := by
  have hend := maybeAcceptTransaction_outcome (c := c) cfg mp tx isNew rateLimit rejectDupOrphans
  rw [h] at hend
  cases hend with
  | rejected same e => exact same.pool
  | missing alone hashes => rfl
  | accepted same alone utxoView height fee =>
    refine ⟨rfl, (checkAlone_ok alone).1, ?_⟩
    rw [← same.pool]
    rfl

theorem poolGrows_maybeAcceptTransaction (cfg : Config F) (mp : TxPool F) (tx : MsgTx)
    (isNew rateLimit rejectDupOrphans : Bool) :
    PoolGrows mp (mp.maybeAcceptTransaction c cfg tx isNew rateLimit rejectDupOrphans).1 := by
  have hend := maybeAcceptTransaction_outcome (c := c) cfg mp tx isNew rateLimit rejectDupOrphans
  generalize mp.maybeAcceptTransaction c cfg tx isNew rateLimit rejectDupOrphans = r at hend
  cases hend with
  | rejected same e => exact .of_eq same.pool
  | missing alone hashes => exact .of_eq rfl
  | accepted same alone utxoView height fee =>
    intro hash txD' hlookup
    have hne : hash ≠ tx.txHash c := by
      rintro rfl
      rw [(checkAlone_ok alone).1] at hlookup
      cases hlookup
    refine (AList.lookup_insert_ne hne).trans ?_
    rw [same.pool, hlookup]

/-! ### What the work on orphans is made of -/

section

variable {R : TxPool F → TxPool F → Prop} (hrefl : ∀ mp, R mp mp)
  (htrans : ∀ {mp₁ mp₂ mp₃}, R mp₁ mp₂ → R mp₂ mp₃ → R mp₁ mp₃)
  (haccept : ∀ mp tx, R mp (mp.maybeAcceptTransaction c cfg tx true true false).1)
  (hremove : ∀ mp tx removeRedeemers, R mp (mp.removeOrphan c tx removeRedeemers))

include hrefl htrans

omit [Float64 F] in
theorem rel_foldl {α : Type*} {f : TxPool F → α → TxPool F} (hf : ∀ mp a, R mp (f mp a)) (l : List α)
    (mp : TxPool F) : R mp (l.foldl f mp) :=
  List.foldlRecOn l f (hrefl mp) fun mp' h a _ => htrans h (hf mp' a)

include hremove

omit [Float64 F] in
theorem rel_removeOrphanDoubleSpends (mp : TxPool F) (tx : MsgTx) : R mp (mp.removeOrphanDoubleSpends c tx) :=
  rel_foldl hrefl htrans
    (fun mp _ => rel_foldl hrefl htrans (fun mp orphan => hremove mp orphan true) _ mp) _ mp

include haccept

theorem rel_tryOrphans (txs : List MsgTx) (mp : TxPool F) : R mp (tryOrphans c cfg txs mp).1 := by
  induction txs generalizing mp with
  | nil => exact hrefl mp
  | cons tx txs ih =>
    have hrel := haccept mp tx
    unfold tryOrphans
    cases hend : mp.maybeAcceptTransaction c cfg tx true true false with
    | mk mp₁ r =>
      rw [hend] at hrel
      cases r with
      | error e => exact htrans hrel (hremove mp₁ tx true)
      | ok verdict =>
        cases verdict with
        | missingParents hashes => exact htrans hrel (ih mp₁)
        | accepted txD => exact htrans hrel (hremove mp₁ tx false)

theorem rel_tryOutputs (prevOuts : List OutPoint) (mp : TxPool F) : R mp (tryOutputs c cfg prevOuts mp).1 := by
  induction prevOuts generalizing mp with
  | nil => exact hrefl mp
  | cons prevOut prevOuts ih => exact htrans (rel_tryOrphans hrefl htrans haccept hremove _ mp) (ih _)

theorem rel_processList (rounds : Nat) (txs : List MsgTx) (mp : TxPool F) :
    R mp (processList c cfg rounds txs mp).1 := by
  induction rounds generalizing txs mp with
  | zero => exact hrefl mp
  | succ rounds ih =>
    cases txs with
    | nil => exact hrefl mp
    | cons tx txs => exact htrans (rel_tryOutputs hrefl htrans haccept hremove _ mp) (ih _ _)

theorem rel_processOrphans (mp : TxPool F) (acceptedTx : MsgTx) : R mp (mp.processOrphans c cfg acceptedTx).1 := by
  have hspends := rel_removeOrphanDoubleSpends hrefl htrans hremove
  unfold processOrphans
  refine htrans (rel_processList hrefl htrans haccept hremove (mp.orphans.entries.length + 1) [acceptedTx] mp) ?_
  exact htrans (hspends _ acceptedTx) (rel_foldl hrefl htrans (fun mp (txD : TxDesc F) => hspends mp txD.tx) _ _)

end

theorem poolGrows_processOrphans (cfg : Config F) (mp : TxPool F) (acceptedTx : MsgTx) :
    PoolGrows mp (mp.processOrphans c cfg acceptedTx).1 :=
  rel_processOrphans (fun _ => .of_eq rfl) .trans
    (fun mp tx => poolGrows_maybeAcceptTransaction cfg mp tx true true false)
    (fun mp tx removeRedeemers => .of_eq (apart_pool.removeOrphan mp tx removeRedeemers)) mp acceptedTx

theorem pool_processTransaction {allowOrphan : Bool} {tag : UInt64} {r : Except TxError (List (TxDesc F))}
    (h : mp.processTransaction c cfg tx allowOrphan rateLimit tag = (mp', r)) :
    (∀ e, r = .error e → mp'.pool = mp.pool) ∧
      ∀ txD rest, r = .ok (txD :: rest) → txD.tx = tx ∧ mp.pool.lookup (tx.txHash c) = none ∧
        mp'.pool.lookup (tx.txHash c) = some txD := by
  unfold processTransaction at h
  cases haccept : mp.maybeAcceptTransaction c cfg tx true rateLimit true with
  | mk mp₁ r₁ =>
    have hpool := pool_maybeAcceptTransaction haccept
    rw [haccept] at h
    cases r₁ with
    | error e =>
      cases h
      exact ⟨fun _ _ => hpool, fun _ _ hr => (by cases hr)⟩
    | ok verdict =>
      cases verdict with
      | accepted txD =>
        cases h
        obtain ⟨htx, hnew, hinsert⟩ := hpool
        refine ⟨fun _ hr => (by cases hr), fun txD' rest hr => ?_⟩
        cases hr
        refine ⟨htx, hnew, poolGrows_processOrphans cfg mp₁ tx _ _ ?_⟩
        rw [hinsert, AList.lookup_insert]
      | missingParents hashes =>
        have hsame : mp₁.pool = mp.pool := congrArg TxPool.pool hpool
        cases allowOrphan with
        | false =>
          cases h
          exact ⟨fun _ _ => hsame, fun _ _ hr => (by cases hr)⟩
        | true =>
          by_cases hsize : cfg.policy.maxOrphanTxSize < tx.serializeSize
          · simp only [maybeAddOrphan, if_pos hsize, if_true] at h
            cases h
            exact ⟨fun _ _ => hsame, fun _ _ hr => (by cases hr)⟩
          · simp only [maybeAddOrphan, if_neg hsize, if_true] at h
            cases h
            exact ⟨fun _ hr => (by cases hr), fun _ _ hr => (by cases hr)⟩

theorem processTransaction_error_order {allowOrphan : Bool} {tag : UInt64} {e : TxError}
    (h : mp.processTransaction c cfg tx allowOrphan rateLimit tag = (mp', .error e)) (order : MapOrder) :
    mp.processTransaction c { cfg with order := order } tx allowOrphan rateLimit tag =
      (mp', .error e) := by
  unfold processTransaction at h ⊢
  have horder : mp.maybeAcceptTransaction c { cfg with order := order } tx true rateLimit true =
      mp.maybeAcceptTransaction c cfg tx true rateLimit true := rfl
  rw [horder]
  cases haccept : mp.maybeAcceptTransaction c cfg tx true rateLimit true with
  | mk mp₁ r₁ =>
    rw [haccept] at h
    cases r₁ with
    | error e => exact h
    | ok verdict =>
      cases verdict with
      | accepted txD => cases h
      | missingParents hashes =>
        cases allowOrphan with
        | false => exact h
        | true =>
          cases hadd : mp₁.maybeAddOrphan c cfg tx tag with
          | mk mp₂ r₂ =>
            simp only [if_true, hadd] at h
            cases r₂ with
            | error e' =>
              simp only [if_true, maybeAddOrphan_error_order hadd order]
              exact h
            | ok u => cases h

end TxPool

end Mempool

end Prova

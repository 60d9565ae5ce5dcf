import Prova.Mempool.Changes

/-!
# The orphans and their index

The orphan pool is indexed by the outputs its transactions spend. While an orphan is removed together
with what redeems its outputs, it is out of the index but still in the pool, so the relation between
the two is stated up to the orphans that are being removed.
-/

namespace Prova

namespace Mempool

namespace TxPool

open AList List

variable {F : Type}

variable {hash : Hash} {removing : Set Hash} {mp mp' : TxPool F}

def indexed (mp : TxPool F) (prevOut : OutPoint) (hash : Hash) : Option MsgTx :=
  (mp.orphansByPrev.lookup prevOut).bind fun orphans => orphans.lookup hash

def NoneEmpty (mp : TxPool F) : Prop :=
  ∀ prevOut orphans, mp.orphansByPrev.lookup prevOut = some orphans → orphans.entries ≠ []

/-- Orphans and index are the same transactions, up to the orphans that are being removed. -/
structure OrphansMatch (c : Crypto) (removing : Set Hash) (mp : TxPool F) : Prop where
  keyed : ∀ hash otx, mp.orphans.lookup hash = some otx → otx.tx.txHash c = hash
  listed : ∀ hash otx, mp.orphans.lookup hash = some otx → hash ∉ removing →
    ∀ prevOut ∈ otx.tx.prevOuts, mp.indexed prevOut hash = some otx.tx
  present : ∀ prevOut hash tx, mp.indexed prevOut hash = some tx → hash ∉ removing ∧
    prevOut ∈ tx.prevOuts ∧ ∃ otx, mp.orphans.lookup hash = some otx ∧ otx.tx = tx
  noneEmpty : mp.NoneEmpty

theorem OrphansMatch.congr {c : Crypto} (h : OrphansMatch c removing mp)
    (horphans : mp'.orphans = mp.orphans) (hprev : mp'.orphansByPrev = mp.orphansByPrev) :
    OrphansMatch c removing mp' := by
  have hindexed : mp'.indexed = mp.indexed := by
    unfold indexed
    rw [hprev]
  constructor
  · rw [horphans]
    exact h.keyed
  · rw [horphans, hindexed]
    exact h.listed
  · rw [horphans, hindexed]
    exact h.present
  · unfold NoneEmpty
    rw [hprev]
    exact h.noneEmpty

/-! ### References -/

section

variable {c : Crypto}

theorem entries_erase_eq_nil {m : AList fun _ : Hash => MsgTx} (h : (m.erase hash).entries = [])
    {k : Hash} (hne : k ≠ hash) : m.lookup k = none := by
  rw [← lookup_erase_ne hne]
  have hempty : m.erase hash = ∅ := AList.ext h
  rw [hempty]
  rfl

@[simp] theorem orphans_removePrevRef (txHash : Hash) (mp : TxPool F) (prevOut : OutPoint) :
    (removePrevRef txHash mp prevOut).orphans = mp.orphans := by
  unfold removePrevRef
  cases mp.orphansByPrev.lookup prevOut with
  | none => rfl
  | some orphans =>
    dsimp only
    split_ifs <;> rfl

theorem indexed_removePrevRef (txHash : Hash) (mp : TxPool F) (prevOut q : OutPoint) (k : Hash) :
    (removePrevRef txHash mp prevOut).indexed q k =
      if q = prevOut ∧ k = txHash then none else mp.indexed q k := by
  unfold removePrevRef
  by_cases hq : q = prevOut
  · subst hq
    cases hlookup : mp.orphansByPrev.lookup q with
    | none => simp [indexed, hlookup]
    | some orphans =>
      dsimp only
      by_cases hk : k = txHash
      · subst hk
        split_ifs
        · simp [indexed, lookup_erase]
        · simp_all
        · simp [indexed, lookup_insert, lookup_erase]
        · simp_all
      · split_ifs with hempty hboth
        · exact absurd hboth.2 hk
        · simp [indexed, lookup_erase, hlookup, entries_erase_eq_nil hempty hk]
        · simp_all
        · simp [indexed, lookup_insert, hlookup, lookup_erase_ne hk]
  · rw [if_neg fun h => hq h.1]
    cases mp.orphansByPrev.lookup prevOut with
    | none => rfl
    | some orphans =>
      dsimp only
      split_ifs
      · simp [indexed, lookup_erase_ne hq]
      · simp [indexed, lookup_insert_ne hq]

theorem NoneEmpty.removePrevRef (h : mp.NoneEmpty) (txHash : Hash) (prevOut : OutPoint) :
    (removePrevRef txHash mp prevOut).NoneEmpty := by
  unfold TxPool.removePrevRef
  cases mp.orphansByPrev.lookup prevOut with
  | none => exact h
  | some orphans =>
    dsimp only
    split_ifs with hempty
    · intro q orphans' hq
      by_cases heq : q = prevOut
      · subst heq
        simp [lookup_erase] at hq
      · dsimp only at hq
        rw [lookup_erase_ne heq] at hq
        exact h q orphans' hq
    · intro q orphans' hq
      dsimp only at hq
      by_cases heq : q = prevOut
      · subst heq
        rw [lookup_insert] at hq
        cases hq
        exact hempty
      · rw [lookup_insert_ne heq] at hq
        exact h q orphans' hq

theorem removePrevRefs (txHash : Hash) (prevOuts : List OutPoint) (mp : TxPool F) :
    (prevOuts.foldl (removePrevRef txHash) mp).orphans = mp.orphans ∧
      (∀ q k, (prevOuts.foldl (removePrevRef txHash) mp).indexed q k =
        if q ∈ prevOuts ∧ k = txHash then none else mp.indexed q k) ∧
      (mp.NoneEmpty → (prevOuts.foldl (removePrevRef txHash) mp).NoneEmpty) := by
  induction prevOuts generalizing mp with
  | nil => simp
  | cons prevOut prevOuts ih =>
    obtain ⟨horphans, hindexed, hempty⟩ := ih (removePrevRef txHash mp prevOut)
    rw [foldl_cons]
    refine ⟨horphans.trans (orphans_removePrevRef txHash mp prevOut), fun q k => ?_,
      fun h => hempty (h.removePrevRef txHash prevOut)⟩
    rw [hindexed, indexed_removePrevRef]
    by_cases hk : k = txHash <;> by_cases hq : q = prevOut <;> by_cases hmem : q ∈ prevOuts <;>
      simp [hk, hq, hmem]

theorem indexed_addPrevRef (tx : MsgTx) (mp : TxPool F) (prevOut q : OutPoint) (k : Hash) :
    (addPrevRef c tx mp prevOut).indexed q k =
      if q = prevOut ∧ k = tx.txHash c then some tx else mp.indexed q k := by
  unfold addPrevRef indexed
  dsimp only
  by_cases hq : q = prevOut
  · subst hq
    rw [lookup_insert, Option.bind_some]
    by_cases hk : k = tx.txHash c
    · rw [if_pos ⟨rfl, hk⟩, hk, lookup_insert]
    · rw [if_neg fun h => hk h.2, lookup_insert_ne hk]
      cases mp.orphansByPrev.lookup q <;> rfl
  · rw [if_neg fun h => hq h.1, lookup_insert_ne hq]

theorem NoneEmpty.addPrevRef (h : mp.NoneEmpty) (tx : MsgTx) (prevOut : OutPoint) :
    (addPrevRef c tx mp prevOut).NoneEmpty := by
  intro q orphans hq
  unfold TxPool.addPrevRef at hq
  dsimp only at hq
  by_cases heq : q = prevOut
  · subst heq
    rw [lookup_insert] at hq
    cases hq
    rw [entries_insert]
    exact cons_ne_nil _ _
  · rw [lookup_insert_ne heq] at hq
    exact h q orphans hq

theorem addPrevRefs (tx : MsgTx) (prevOuts : List OutPoint) (mp : TxPool F) :
    (prevOuts.foldl (addPrevRef c tx) mp).orphans = mp.orphans ∧
      (∀ q k, (prevOuts.foldl (addPrevRef c tx) mp).indexed q k =
        if q ∈ prevOuts ∧ k = tx.txHash c then some tx else mp.indexed q k) ∧
      (mp.NoneEmpty → (prevOuts.foldl (addPrevRef c tx) mp).NoneEmpty) := by
  induction prevOuts generalizing mp with
  | nil => simp
  | cons prevOut prevOuts ih =>
    obtain ⟨horphans, hindexed, hempty⟩ := ih (addPrevRef c tx mp prevOut)
    rw [foldl_cons]
    refine ⟨horphans, fun q k => ?_, fun h => hempty (h.addPrevRef tx prevOut)⟩
    rw [hindexed, indexed_addPrevRef]
    by_cases hk : k = tx.txHash c <;> by_cases hq : q = prevOut <;> by_cases hmem : q ∈ prevOuts <;>
      simp [hk, hq, hmem]

/-! ### Removing -/

theorem OrphansMatch.unref (h : OrphansMatch c removing mp) {otx : OrphanTx}
    (hotx : mp.orphans.lookup hash = some otx) :
    OrphansMatch c (insert hash removing) (otx.tx.prevOuts.foldl (removePrevRef hash) mp) := by
  obtain ⟨horphans, hindexed, hempty⟩ := removePrevRefs hash otx.tx.prevOuts mp
  constructor
  · rw [horphans]
    exact h.keyed
  · intro k otx' hk hnot prevOut hprev
    rw [horphans] at hk
    obtain ⟨hne, hnot⟩ := not_or.mp hnot
    rw [hindexed, if_neg fun hboth => hne hboth.2]
    exact h.listed k otx' hk hnot prevOut hprev
  · intro prevOut k tx hk
    rw [hindexed] at hk
    split_ifs at hk with hgone
    obtain ⟨hnot, hprev, otx', hotx', rfl⟩ := h.present prevOut k tx hk
    refine ⟨not_or.mpr ⟨?_, hnot⟩, hprev, otx', ?_, rfl⟩
    · rintro rfl
      rw [hotx] at hotx'
      cases hotx'
      exact hgone ⟨hprev, rfl⟩
    · rw [horphans]
      exact hotx'
  · exact hempty h.noneEmpty

theorem OrphansMatch.erase (h : OrphansMatch c (insert hash removing) mp) :
    OrphansMatch c removing { mp with orphans := mp.orphans.erase hash } := by
  have hother : ∀ {k otx}, (mp.orphans.erase hash).lookup k = some otx →
      k ≠ hash ∧ mp.orphans.lookup k = some otx := by
    intro k otx hk
    by_cases hne : k = hash
    · rw [hne, lookup_erase] at hk
      cases hk
    · rw [lookup_erase_ne hne] at hk
      exact ⟨hne, hk⟩
  constructor
  · exact fun k otx hk => h.keyed k otx (hother hk).2
  · intro k otx hk hnot
    obtain ⟨hne, hk⟩ := hother hk
    exact h.listed k otx hk (not_or.mpr ⟨hne, hnot⟩)
  · intro prevOut k tx hk
    obtain ⟨hnot, hprev, otx, hotx, htx⟩ := h.present prevOut k tx hk
    obtain ⟨hne, hnot⟩ := not_or.mp hnot
    refine ⟨hnot, hprev, otx, ?_, htx⟩
    dsimp only
    rw [lookup_erase_ne hne, hotx]
  · exact h.noneEmpty

theorem OrphansMatch.foldl {α : Type*} {f : TxPool F → α → TxPool F}
    (hf : ∀ mp a, OrphansMatch c removing mp → OrphansMatch c removing (f mp a)) (l : List α)
    (h : OrphansMatch c removing mp) : OrphansMatch c removing (l.foldl f mp) := by
  induction l generalizing mp with
  | nil => exact h
  | cons a l ih => exact ih (hf mp a h)

theorem OrphansMatch.removeOrphanTo (h : OrphansMatch c removing mp) (depth : Nat)
    (removeRedeemers : Bool) (tx : MsgTx) : OrphansMatch c removing (removeOrphanTo c depth removeRedeemers mp tx) := by
  induction depth generalizing removing removeRedeemers mp tx with
  | zero => exact h
  | succ depth ih =>
    unfold TxPool.removeOrphanTo
    cases hotx : mp.orphans.lookup (tx.txHash c) with
    | none => exact h
    | some otx =>
      refine OrphansMatch.erase ?_
      have hunref := h.unref hotx
      cases removeRedeemers with
      | false => exact hunref
      | true =>
        refine hunref.foldl (fun mp prevOut hmp => ?_) _
        exact hmp.foldl (fun mp orphan hmp => ih hmp true orphan) _

theorem OrphansMatch.removeOrphan (h : OrphansMatch c removing mp) (tx : MsgTx) (removeRedeemers : Bool) :
    OrphansMatch c removing (mp.removeOrphan c tx removeRedeemers) :=
  h.removeOrphanTo _ removeRedeemers tx

def FewerOrphans (mp mp' : TxPool F) : Prop := mp'.orphans.entries.Sublist mp.orphans.entries

theorem FewerOrphans.trans {mp₁ mp₂ mp₃ : TxPool F} (h₁ : FewerOrphans mp₁ mp₂)
    (h₂ : FewerOrphans mp₂ mp₃) : FewerOrphans mp₁ mp₃ := List.Sublist.trans h₂ h₁

theorem FewerOrphans.lookup (h : FewerOrphans mp mp') (hnone : mp.orphans.lookup hash = none) :
    mp'.orphans.lookup hash = none := by
  rw [lookup_eq_none] at hnone ⊢
  exact fun hmem => hnone ((h.map Sigma.fst).subset hmem)

theorem fewerOrphans_foldl {α : Type*} {f : TxPool F → α → TxPool F}
    (hf : ∀ mp a, FewerOrphans mp (f mp a)) (l : List α) (mp : TxPool F) : FewerOrphans mp (l.foldl f mp) := by
  induction l generalizing mp with
  | nil => exact List.Sublist.refl _
  | cons a l ih => exact (hf mp a).trans (ih (f mp a))

theorem fewerOrphans_removeOrphanTo (depth : Nat) (removeRedeemers : Bool) (mp : TxPool F)
    (tx : MsgTx) : FewerOrphans mp (removeOrphanTo c depth removeRedeemers mp tx) := by
  induction depth generalizing removeRedeemers mp tx with
  | zero => exact List.Sublist.refl _
  | succ depth ih =>
    unfold TxPool.removeOrphanTo
    cases mp.orphans.lookup (tx.txHash c) with
    | none => exact List.Sublist.refl _
    | some otx =>
      have hrefs : FewerOrphans mp (otx.tx.prevOuts.foldl (removePrevRef (tx.txHash c)) mp) := by
        unfold FewerOrphans
        rw [(removePrevRefs (tx.txHash c) otx.tx.prevOuts mp).1]
      refine (hrefs.trans ?_).trans (kerase_sublist (tx.txHash c) _)
      cases removeRedeemers with
      | false => exact List.Sublist.refl _
      | true => exact fewerOrphans_foldl (fun mp prevOut => fewerOrphans_foldl (ih true) _ mp) _ _

theorem fewerOrphans_removeOrphan (mp : TxPool F) (tx : MsgTx) (removeRedeemers : Bool) :
    FewerOrphans mp (mp.removeOrphan c tx removeRedeemers) := fewerOrphans_removeOrphanTo _ _ _ _

theorem length_erase_of_lookup {m : AList fun _ : Hash => OrphanTx} {otx : OrphanTx}
    (h : m.lookup hash = some otx) : (m.erase hash).entries.length + 1 = m.entries.length := by
  have hmem : hash ∈ m.keys := mem_keys.mp (lookup_isSome.mp (by rw [h]; rfl))
  have hkeys : (m.erase hash).keys.length + 1 = m.keys.length := by
    rw [keys_erase, length_erase_of_mem hmem]
    have hpos : 0 < m.keys.length := length_pos_of_mem hmem
    omega
  simpa only [AList.keys, List.keys, length_map] using hkeys

theorem length_removeOrphan {tx : MsgTx} {otx : OrphanTx} (h : mp.orphans.lookup (tx.txHash c) = some otx) :
    (mp.removeOrphan c tx false).orphans.entries.length + 1 = mp.orphans.entries.length := by
  unfold removeOrphan TxPool.removeOrphanTo
  simp only [h, Bool.false_eq_true, if_false]
  rw [(removePrevRefs (tx.txHash c) otx.tx.prevOuts mp).1]
  exact length_erase_of_lookup h

/-! ### Adding -/

theorem OrphansMatch.scanned (h : OrphansMatch c removing mp) (nextExpireScan : Int64) :
    OrphansMatch c removing { mp with nextExpireScan := nextExpireScan } := h.congr rfl rfl

theorem FewerOrphans.scanned (h : FewerOrphans mp mp') (nextExpireScan : Int64) :
    FewerOrphans mp { mp' with nextExpireScan := nextExpireScan } := h

theorem OrphansMatch.scan (h : OrphansMatch c ∅ mp) (expired : OrphanTx → Prop)
    [DecidablePred expired] (otxs : List OrphanTx) : OrphansMatch c ∅ (otxs.foldl
      (fun mp otx => if expired otx then mp.removeOrphan c otx.tx true else mp) mp) ∧
    FewerOrphans mp (otxs.foldl
      (fun mp otx => if expired otx then mp.removeOrphan c otx.tx true else mp) mp) := by
  constructor
  · refine h.foldl (fun mp otx hmp => ?_) _
    split_ifs
    · exact hmp.removeOrphan otx.tx true
    · exact hmp
  · refine fewerOrphans_foldl (fun mp otx => ?_) _ mp
    split_ifs
    · exact fewerOrphans_removeOrphan mp otx.tx true
    · exact List.Sublist.refl _

theorem OrphansMatch.expireOrphans (h : OrphansMatch c ∅ mp) (now : Int64) :
    OrphansMatch c ∅ (mp.expireOrphans c now) ∧ FewerOrphans mp (mp.expireOrphans c now) := by
  obtain ⟨hscan, hfewer⟩ := h.scan (fun otx => otx.expiration < now) (mp.orphans.entries.map (·.2))
  unfold TxPool.expireOrphans
  by_cases htime : mp.nextExpireScan < now
  · rw [if_pos htime]
    exact ⟨hscan.scanned _, hfewer.scanned _⟩
  · rw [if_neg htime]
    exact ⟨h, List.Sublist.refl _⟩

theorem OrphansMatch.limitNumOrphans (h : OrphansMatch c ∅ mp) (cfg : Config F) (hpos : 0 < cfg.policy.maxOrphanTxs)
    (hmax : (mp.orphans.entries.length : Int) ≤ cfg.policy.maxOrphanTxs) :
    OrphansMatch c ∅ (mp.limitNumOrphans c cfg) ∧ FewerOrphans mp (mp.limitNumOrphans c cfg) ∧
      ((mp.limitNumOrphans c cfg).orphans.entries.length : Int) + 1 ≤ cfg.policy.maxOrphanTxs := by
  obtain ⟨hexpired, hfewer⟩ := h.expireOrphans cfg.now
  have hlength := List.Sublist.length_le hfewer
  unfold TxPool.limitNumOrphans
  dsimp only
  split_ifs with hroom
  · exact ⟨hexpired, hfewer, hroom⟩
  · have hperm := cfg.order.perm (mp.expireOrphans c cfg.now).orphans.entries
    cases hhead : (cfg.order.arrange (mp.expireOrphans c cfg.now).orphans.entries).head? with
    | none =>
      -- an empty pool has room
      rw [head?_eq_none_iff] at hhead
      rw [hhead] at hperm
      have hzero : (mp.expireOrphans c cfg.now).orphans.entries.length = 0 := hperm.length_eq.symm
      omega
    | some otx =>
      have hmem : otx ∈ (mp.expireOrphans c cfg.now).orphans.entries :=
        hperm.subset (mem_of_head? hhead)
      have hlookup : (mp.expireOrphans c cfg.now).orphans.lookup otx.1 = some otx.2 :=
        mem_lookup_iff.mpr hmem
      have hkey := hexpired.keyed otx.1 otx.2 hlookup
      rw [← hkey] at hlookup
      have hsmaller := length_removeOrphan hlookup
      refine ⟨hexpired.removeOrphan otx.2.tx false, hfewer.trans (fewerOrphans_removeOrphan _ _ _), ?_⟩
      dsimp only
      omega

theorem OrphansMatch.insert (h : OrphansMatch c ∅ mp) {tx : MsgTx}
    (hnew : mp.orphans.lookup (tx.txHash c) = none) (tag : UInt64) (expiration : Int64) :
    OrphansMatch c ∅ (tx.prevOuts.foldl (addPrevRef c tx)
      { mp with orphans := mp.orphans.insert (tx.txHash c) ⟨tx, tag, expiration⟩ }) := by
  obtain ⟨horphans, hindexed, hempty⟩ := addPrevRefs (c := c) tx tx.prevOuts
    { mp with orphans := mp.orphans.insert (tx.txHash c) ⟨tx, tag, expiration⟩ }
  have hold : ∀ prevOut, mp.indexed prevOut (tx.txHash c) = none := by
    intro prevOut
    cases hk : mp.indexed prevOut (tx.txHash c) with
    | none => rfl
    | some tx' =>
      obtain ⟨-, -, otx, hotx, -⟩ := h.present prevOut _ tx' hk
      rw [hnew] at hotx
      cases hotx
  constructor
  · intro k otx hk
    rw [horphans] at hk
    dsimp only at hk
    by_cases hne : k = tx.txHash c
    · rw [hne, lookup_insert] at hk
      cases hk
      exact hne.symm
    · rw [lookup_insert_ne hne] at hk
      exact h.keyed k otx hk
  · intro k otx hk hnot prevOut hprev
    rw [horphans] at hk
    dsimp only at hk
    rw [hindexed]
    by_cases hne : k = tx.txHash c
    · rw [hne, lookup_insert] at hk
      cases hk
      exact if_pos ⟨hprev, hne⟩
    · rw [lookup_insert_ne hne] at hk
      rw [if_neg fun hboth => hne hboth.2]
      exact h.listed k otx hk hnot prevOut hprev
  · intro prevOut k tx' hk
    rw [hindexed] at hk
    rw [horphans]
    dsimp only
    split_ifs at hk with hadded
    · cases hk
      exact ⟨not_false, hadded.1, _, by rw [hadded.2, lookup_insert], rfl⟩
    · have hne : k ≠ tx.txHash c := by
        rintro rfl
        change mp.indexed prevOut (tx.txHash c) = some tx' at hk
        rw [hold] at hk
        cases hk
      rw [lookup_insert_ne hne]
      exact h.present prevOut k tx' hk
  · exact hempty h.noneEmpty

end

/-! ### Runs -/

/-- What every pool has: orphans and index match, and there are no more orphans than allowed. -/
structure OrphansOk (c : Crypto) (policy : Policy F) (mp : TxPool F) : Prop where
  agree : OrphansMatch c ∅ mp
  limit : (mp.orphans.entries.length : Int) ≤ max 0 policy.maxOrphanTxs

variable {c : Crypto} {policy : Policy F}

theorem OrphansOk.congr (h : OrphansOk c policy mp) (horphans : mp'.orphans = mp.orphans)
    (hprev : mp'.orphansByPrev = mp.orphansByPrev) : OrphansOk c policy mp' := by
  refine ⟨h.agree.congr horphans hprev, ?_⟩
  rw [horphans]
  exact h.limit

theorem OrphansOk.addOrphan (h : OrphansOk c policy mp) {cfg : Config F}
    (hcfg : cfg.policy = policy) {tx : MsgTx} {tag : UInt64} (hnew : mp.orphans.lookup (tx.txHash c) = none) :
    OrphansOk c policy (mp.addOrphan c cfg tx tag) := by
  unfold TxPool.addOrphan
  split_ifs with hnone
  · exact h
  · have hlimit := h.limit
    rw [← hcfg] at hlimit
    obtain ⟨hagree, hfewer, hroom⟩ := h.agree.limitNumOrphans cfg (by omega) (by omega)
    refine ⟨hagree.insert (hfewer.lookup hnew) tag _, ?_⟩
    rw [(addPrevRefs tx tx.prevOuts _).1]
    dsimp only
    rw [entries_insert_of_notMem (lookup_eq_none.mp (hfewer.lookup hnew)), ← hcfg, length_cons]
    omega

variable [Float64 F]

theorem OrphansOk.change (hchange : Change c policy mp mp') (h : OrphansOk c policy mp) : OrphansOk c policy mp' := by
  cases hchange with
  | counters _ _ horphans hprev => exact h.congr horphans hprev
  | add cfg utxoView tx height fee _ _ => exact h.congr rfl rfl
  | drop txHash =>
    refine h.congr ?_ ?_
    · unfold dropTransaction
      cases mp.pool.lookup txHash <;> rfl
    · unfold dropTransaction
      cases mp.pool.lookup txHash <;> rfl
  | addOrphan cfg tx tag hcfg hnew => exact h.addOrphan hcfg hnew
  | removeOrphan tx removeRedeemers =>
    have hlength := List.Sublist.length_le (fewerOrphans_removeOrphan (c := c) mp tx removeRedeemers)
    have hlimit := h.limit
    exact ⟨h.agree.removeOrphan tx removeRedeemers, by omega⟩

theorem orphansOk_new (nextExpireScan : Int64) : OrphansOk c policy (new nextExpireScan : TxPool F) := by
  refine ⟨⟨?_, ?_, ?_, ?_⟩, ?_⟩
  · intro hash otx hmem
    cases hmem
  · intro hash otx hmem
    cases hmem
  · intro prevOut hash tx hmem
    cases hmem
  · intro prevOut orphans hmem
    cases hmem
  · exact le_max_left 0 _

/-- After every run of operations each orphan is in the index under every one of its inputs, the index
has nothing else and no empty entries, and there are no more orphans than the policy allows. -/
theorem orphans_run (c : Crypto) (policy : Policy F) (nextExpireScan : Int64) (ops : List Op) :
    (∀ hash otx, (run c policy nextExpireScan ops).orphans.lookup hash = some otx →
      ∀ prevOut ∈ otx.tx.prevOuts, ∃ orphans,
        (run c policy nextExpireScan ops).orphansByPrev.lookup prevOut = some orphans ∧
          orphans.lookup hash = some otx.tx) ∧ (∀ prevOut orphans,
      (run c policy nextExpireScan ops).orphansByPrev.lookup prevOut = some orphans →
        orphans.entries ≠ [] ∧ ∀ hash tx, orphans.lookup hash = some tx → prevOut ∈ tx.prevOuts ∧
          ∃ otx, (run c policy nextExpireScan ops).orphans.lookup hash = some otx ∧ otx.tx = tx) ∧
    ((run c policy nextExpireScan ops).orphans.entries.length : Int) ≤ max 0 policy.maxOrphanTxs := by
  have h : OrphansOk c policy (run c policy nextExpireScan ops) :=
    run_invariant (orphansOk_new nextExpireScan) (fun _ _ => .change) ops
  refine ⟨fun hash otx hotx prevOut hprev => ?_, fun prevOut orphans hprev => ⟨?_, ?_⟩, h.limit⟩
  · exact Option.bind_eq_some_iff.mp (h.agree.listed hash otx hotx not_false prevOut hprev)
  · exact h.agree.noneEmpty prevOut orphans hprev
  · intro hash tx htx
    exact (h.agree.present prevOut hash tx (Option.bind_eq_some_iff.mpr ⟨orphans, hprev, htx⟩)).2

end TxPool

end Mempool

end Prova

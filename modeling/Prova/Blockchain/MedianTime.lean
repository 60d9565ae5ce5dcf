import Prova.Blockchain.Validate
import Prova.Chaincfg.SampleBlocks

/-!
# The median time of a chain (`calcPastMedianTime` of `chain.go`)

A header that is checked is later than the median of the blocks before it, so the median never goes
back, whatever the times of single blocks do. The time between two medians is a number of nanoseconds in
64 bits, which is enough for 292 years. Nothing keeps a header from being dated later than that.
-/

namespace Prova

open List

/-! ### The middle of a list of times -/

variable {times : List Int64} {t m : Int64} {n : Nat}

def median (times : List Int64) : Int64 :=
  (times.insertionSort (· ≤ ·)).getD ((times.insertionSort (· ≤ ·)).length / 2) 0

theorem median_eq_getElem (hne : times ≠ []) :
    ∃ hlt : times.length / 2 < (times.insertionSort (· ≤ ·)).length,
      median times = (times.insertionSort (· ≤ ·))[times.length / 2] := by
  have hlen : (times.insertionSort (· ≤ ·)).length = times.length := length_insertionSort ..
  have hpos := length_pos_iff.mpr hne
  have hlt : times.length / 2 < (times.insertionSort (· ≤ ·)).length := by omega
  refine ⟨hlt, ?_⟩
  unfold median
  simp only [hlen, getD_eq_getElem?_getD, getElem?_eq_getElem hlt, Option.getD_some]

theorem median_mem (hne : times ≠ []) : median times ∈ times := by
  obtain ⟨hlt, hmedian⟩ := median_eq_getElem hne
  rw [hmedian, ← mem_insertionSort (· ≤ ·)]
  exact getElem_mem hlt

theorem pairwise_sorted (times : List Int64) : (times.insertionSort (· ≤ ·)).Pairwise (· ≤ ·) := by
  have : Std.Total (α := Int64) (· ≤ ·) := ⟨Int64.le_total⟩
  have : IsTrans Int64 (· ≤ ·) := ⟨fun _ _ _ => Int64.le_trans⟩
  exact pairwise_insertionSort _ times

theorem countP_lt_median (hne : times ≠ []) : times.countP (· < median times) ≤ times.length / 2 := by
  obtain ⟨hlt, hmedian⟩ := median_eq_getElem hne
  have hsorted := pairwise_sorted times
  rw [← (perm_insertionSort (· ≤ ·) times).countP_eq, hmedian]
  generalize times.insertionSort (· ≤ ·) = sorted at hlt hsorted ⊢
  generalize times.length / 2 = k at hlt ⊢
  -- from the middle on nothing is smaller than the middle
  have hdrop : (sorted.drop k).countP (· < sorted[k]) = 0 := by
    have hpairwise := hsorted.drop (i := k)
    have hge : ∀ a ∈ sorted.drop k, sorted[k] ≤ a := by
      rw [drop_eq_getElem_cons hlt] at hpairwise ⊢
      exact forall_mem_cons.mpr ⟨Int64.le_refl _, (pairwise_cons.mp hpairwise).1⟩
    rw [countP_eq_zero]
    intro a ha
    simpa using hge a ha
  calc sorted.countP (· < sorted[k])
      = (sorted.take k).countP (· < sorted[k]) + (sorted.drop k).countP (· < sorted[k]) := by
        rw [← countP_append, take_append_drop]
    _ ≤ k := by
        rw [hdrop]
        exact countP_le_length.trans (length_take_le k sorted)

theorem le_median (hne : times ≠ []) (hcount : times.countP (· < m) ≤ times.length / 2) : m ≤ median times := by
  obtain ⟨hlt, hmedian⟩ := median_eq_getElem hne
  have hsorted := pairwise_sorted times
  rw [← (perm_insertionSort (· ≤ ·) times).countP_eq] at hcount
  rw [hmedian, ← Int64.not_lt]
  intro hless
  generalize times.insertionSort (· ≤ ·) = sorted at hlt hsorted hcount hless
  generalize times.length / 2 = k at hlt hcount hless
  have htake : (sorted.take (k + 1)).countP (· < m) = k + 1 := by
    have hsplit : sorted.take (k + 1) = sorted.take k ++ [sorted[k]] := take_succ_eq_append_getElem hlt
    have hpairwise := hsorted.take (i := k + 1)
    rw [hsplit, pairwise_append] at hpairwise
    rw [hsplit, countP_append, countP_eq_length.mpr, length_take, countP_singleton, if_pos (decide_eq_true hless)]
    · omega
    · intro a ha
      exact decide_eq_true (Int64.lt_of_le_of_lt (hpairwise.2.2 a ha _ (mem_singleton_self _)) hless)
  have hle := (take_sublist (k + 1) sorted).countP_le (p := (· < m))
  omega

theorem median_take_le_cons (hn : 0 < n) (hne : times ≠ []) (ht : median (times.take n) < t) :
    median (times.take n) ≤ median ((t :: times).take n) := by
  obtain ⟨n, rfl⟩ : ∃ k, n = k + 1 := Nat.exists_eq_succ_of_ne_zero hn.ne'
  have hpos := length_pos_iff.mpr hne
  have hwindow : times.take (n + 1) ≠ [] := by
    rw [← length_pos_iff, length_take]
    omega
  have hold := countP_lt_median hwindow
  have hfewer : (times.take n).countP (· < median (times.take (n + 1))) ≤
      (times.take (n + 1)).countP (· < median (times.take (n + 1))) :=
    (take_sublist_take_left (Nat.le_succ n)).countP_le
  rw [take_succ_cons]
  refine le_median (cons_ne_nil _ _) ?_
  rw [countP_cons_of_neg (by simpa using Int64.le_of_lt ht), length_cons, length_take]
  rw [length_take] at hold
  omega

/-! ### Chains of checked headers -/

theorem calcPastMedianTime_eq (chain : List NodeData) :
    calcPastMedianTime chain = median ((chain.map (·.timestamp)).take medianTimeBlocks) := by
  rw [calcPastMedianTime, median, map_take]

/-- A chain on the genesis block in which every header was checked by `checkBlockHeaderContext` and not added
fast. -/
inductive CheckedChain (c : Crypto) (params : Params) : BlockNode → Prop
  | genesis : CheckedChain c params (newBlockNode c params.genesisBlock.header none)
  | extend {node : BlockNode} {header : BlockHeader} {checkpointHeight : Option UInt32} {flags : BehaviorFlags} :
      CheckedChain c params node → flags.fastAdd = false →
      checkBlockHeaderContext c params checkpointHeight header node flags = .ok () →
        CheckedChain c params (newBlockNode c header (some node))

variable {c : Crypto} {params : Params} {node : BlockNode}

theorem checkBlockHeaderContext_time {header : BlockHeader} {checkpointHeight : Option UInt32}
    {flags : BehaviorFlags} (hfast : flags.fastAdd = false)
    (h : checkBlockHeaderContext c params checkpointHeight header node flags = .ok ()) :
    calcPastMedianTime node.chain < header.timestamp := by
  unfold checkBlockHeaderContext at h
  simp only [hfast, Bool.false_eq_true, if_false] at h
  obtain ⟨hsigned, -⟩ := bind_unit_eq_ok.mp h
  unfold checkHeaderSigned at hsigned
  obtain ⟨-, hsigned⟩ := bind_unit_eq_ok.mp hsigned
  obtain ⟨htime, -⟩ := bind_unit_eq_ok.mp hsigned
  exact Int64.not_le.mp (ruleError_eq_ok.mp htime)

theorem calcPastMedianTime_mem (node : BlockNode) :
    ∃ data ∈ node.chain, calcPastMedianTime node.chain = data.timestamp := by
  have hne : (node.chain.map (·.timestamp)).take medianTimeBlocks ≠ [] := by simp [medianTimeBlocks, BlockNode.chain]
  have hmem := median_mem hne
  rw [← calcPastMedianTime_eq] at hmem
  obtain ⟨data, hdata, htime⟩ := mem_map.mp (mem_of_mem_take hmem)
  exact ⟨data, hdata, htime.symm⟩

theorem calcPastMedianTime_le_extend {header : BlockHeader} (ht : calcPastMedianTime node.chain < header.timestamp) :
    calcPastMedianTime node.chain ≤ calcPastMedianTime (newBlockNode c header (some node)).chain := by
  rw [calcPastMedianTime_eq] at ht ⊢
  rw [calcPastMedianTime_eq]
  exact median_take_le_cons (by decide) (by simp [BlockNode.chain]) ht

theorem CheckedChain.genesis_le (h : CheckedChain c params node) :
    params.genesisBlock.header.timestamp ≤ calcPastMedianTime node.chain := by
  induction h with
  | genesis =>
    obtain ⟨data, hdata, htime⟩ := calcPastMedianTime_mem (newBlockNode c params.genesisBlock.header none)
    rw [htime, mem_singleton.mp hdata]
    exact Int64.le_refl _
  | extend _ hfast hcheck ih =>
    exact Int64.le_trans ih (calcPastMedianTime_le_extend (checkBlockHeaderContext_time hfast hcheck))

theorem CheckedChain.median_mono (h : CheckedChain c params node) {k : Nat} (hk : k < node.chain.length) :
    ∃ first, CheckedChain c params first ∧ first.chain = node.chain.drop k ∧
      calcPastMedianTime first.chain ≤ calcPastMedianTime node.chain := by
  induction h generalizing k with
  | genesis =>
    obtain rfl : k = 0 := Nat.lt_one_iff.mp hk
    exact ⟨_, .genesis, rfl, Int64.le_refl _⟩
  | @extend prev _ _ _ hprev hfast hcheck ih =>
    cases k with
    | zero => exact ⟨_, .extend hprev hfast hcheck, rfl, Int64.le_refl _⟩
    | succ k =>
      obtain ⟨first, hfirst, hchain, hle⟩ := ih (Nat.lt_of_succ_lt_succ hk)
      exact ⟨first, hfirst, hchain,
        Int64.le_trans hle (calcPastMedianTime_le_extend (checkBlockHeaderContext_time hfast hcheck))⟩

theorem timespan_nonneg {first last : Int64} (hle : first ≤ last) (hspan : last.toInt ≤ first.toInt + 9223372036) :
    0 ≤ last * 1000000000 - first * 1000000000 := by
  rw [Int64.le_iff_toInt_le] at hle ⊢
  rw [Int64.toInt_sub, Int64.toInt_mul, Int64.toInt_mul, Int.sub_bmod_bmod, Int.bmod_sub_bmod]
  change 0 ≤ (last.toInt * 1000000000 - first.toInt * 1000000000).bmod (2 ^ 64)
  rw [Int.bmod_eq_of_le (by omega) (by omega)]
  omega

/-- The median never goes back. The time between two medians is not negative if no block is dated more than
9223372036 seconds after genesis. -/
theorem CheckedChain.medianTime_nonneg (h : CheckedChain c params node) {k : Nat} (hk : k < node.chain.length) :
    calcPastMedianTime (node.chain.drop k) ≤ calcPastMedianTime node.chain ∧
      ((∀ data ∈ node.chain, data.timestamp.toInt ≤ params.genesisBlock.header.timestamp.toInt + 9223372036) →
        0 ≤ calcPastMedianTime node.chain * 1000000000 - calcPastMedianTime (node.chain.drop k) * 1000000000) := by
  obtain ⟨first, hfirst, hchain, hle⟩ := h.median_mono hk
  rw [← hchain]
  refine ⟨hle, fun hdated => timespan_nonneg hle ?_⟩
  obtain ⟨data, hdata, htime⟩ := calcPastMedianTime_mem node
  have hlate := hdated data hdata
  have hearly := Int64.le_iff_toInt_le.mp hfirst.genesis_le
  rw [htime]
  omega

theorem CheckedChain.medianTime_plainBlock :
    let node := newBlockNode Sample.crypto Sample.plainBlock.header
      (some (newBlockNode Sample.crypto Sample.params.genesisBlock.header none))
    0 ≤ calcPastMedianTime node.chain * 1000000000 - calcPastMedianTime (node.chain.drop 1) * 1000000000 := by
  intro node
  have hchecked : CheckedChain Sample.crypto Sample.params node :=
    @CheckedChain.extend _ _ _ _ none bfNone .genesis rfl (by decide +kernel)
  exact (hchecked.medianTime_nonneg (k := 1) (by decide)).2 (by decide)

namespace LateSample

/-- Takes one signature for valid. -/
def crypto : Crypto := { Sample.crypto with ecdsaVerify := fun _ _ r s => r == 1 && s == 1 }

/-- A header dated 16 years after its parent. -/
def header (parent : BlockNode) : BlockHeader where
  version := 4
  prevBlock := parent.hash
  merkleRoot := 0
  timestamp := parent.timestamp + 500000000
  bits := 0x200f0f0f
  height := parent.height + 1
  size := 0
  nonce := 0
  validatingPubKey := Sample.plainBlock.header.validatingPubKey
  signature := ⟨[0x30, 0x06, 0x02, 0x01, 0x01, 0x02, 0x01, 0x01] ++ List.replicate 72 0, rfl⟩

def chain : Nat → BlockNode
  | 0 => newBlockNode crypto RegTest.regressionNetParams.genesisBlock.header none
  | n + 1 => newBlockNode crypto (header (chain n)) (some (chain n))

theorem checkBlockHeaderContext_header : ∀ n < 31,
    checkBlockHeaderContext crypto RegTest.regressionNetParams none (header (chain n)) (chain n) bfNone = .ok () := by
  decide +kernel

theorem checkedChain {n : Nat} (hn : n ≤ 31) : CheckedChain crypto RegTest.regressionNetParams (chain n) := by
  induction n with
  | zero => exact .genesis
  | succ n ih => exact .extend (ih (by omega)) rfl (checkBlockHeaderContext_header n hn)

/-- The first difficulty that is computed from medians: they are more than 292 years apart. -/
theorem timespan_negative : CheckedChain crypto RegTest.regressionNetParams (chain 31) ∧
      calcPastMedianTime (chain 31).chain * 1000000000 -
        calcPastMedianTime ((chain 31).chain.drop RegTest.regressionNetParams.powAveragingWindow) * 1000000000 < 0 :=
  ⟨checkedChain le_rfl, by decide⟩

end LateSample

end Prova

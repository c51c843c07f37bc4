import WiotaDev.BlankedLists
import WiotaDev.GatewayApp

/-! # The pairs that the gateway app scans and tries

`gateway_get_freq_list` leaves a frequency at its place in the stored list and counts it; only as many
places as it has counted are used afterwards. -/

namespace WiotaDev.GatewayApp
open BlankedLists WordBytes

/-- A call of `uc_wiota_scan_freq` and the subsystem that is configured for it. -/
structure ScanRequest where
  subsystemid : BitVec 32
  freqs : List Byte
  deriving DecidableEq, Repr

/-- The calls that `gateway_scan_freq` makes for `gateway_handle_scan_freq_msg`. -/
def gatewayScanRequests (a : Answers) : List ScanRequest :=
  (gatewayGetSubsystemidList a.subsystemidList).map fun subsystemid =>
    ⟨subsystemid, gatewayGetFreqList a.freqList⟩

def requestedPairs (a : Answers) : List Pair :=
  (gatewayScanRequests a).flatMap fun r => r.freqs.map fun freq => (r.subsystemid, freq)

/-- The pairs of the two loops, up to the first that can be synchronised with. -/
def triedPairs (syncs : ℕ → Bool) : ℕ → List Pair → List Pair
  | _, [] => []
  | k, pair :: pairs => pair :: if syncs k then [] else triedPairs syncs (k + 1) pairs

/-- The pairs that `gateway_handle_sync_to_ap_msg` sets one after the other. -/
def syncAttempts (a : Answers) (app : App) : List Pair :=
  match (gatewayChooseOneFreqInfo app.syncInfo).1 with
  | some freqInfo => [freqInfo.pair]
  | none => triedPairs a.syncs 0 (storedPairs a)

def inRange (freq : Byte) : Bool := freq.toNat ≤ 200

/-- The entries before the terminator. -/
def listedFreqs (stored : List Byte) : List Byte := (stored.take 16).takeWhile (· ≠ 0xFF)

/-- The listed frequencies that are in range, or the default one. -/
def wantedFreqs (stored : List Byte) : List Byte :=
  if (listedFreqs stored).filter inRange = [] then [160] else (listedFreqs stored).filter inRange

/-- The leading valid ids, or the default one. -/
def wantedIds (stored : List (BitVec 32)) : List (BitVec 32) :=
  let ids := (stored.take 8).takeWhile fun id => id ≠ 0 ∧ id ≠ BitVec.allOnes 32
  if ids = [] then [0x21456981] else ids

/-- A pair for each wanted id and each wanted frequency. -/
def wantedPairs (a : Answers) : List Pair :=
  wantedIds a.subsystemidList ×ˢ wantedFreqs a.freqList

/-- The pairs are tried in order, until one can be synchronised with or all have been tried. -/
structure TriesUntilSync (syncs : ℕ → Bool) (order tried : List Pair) : Prop where
  inOrder : tried <+: order
  goesOn : ∀ k, k + 1 < tried.length → syncs k = false
  ends : tried = order ∨ ∃ k, k + 1 = tried.length ∧ syncs k = true

/-- Without a candidate the attempts follow the order, whatever can be synchronised with. -/
def FallbackFollows (a : Answers) (order : List Pair) : Prop :=
  ∀ syncs app, (gatewayChooseOneFreqInfo app.syncInfo).1 = none →
    TriesUntilSync syncs order (syncAttempts { a with syncs } app)

/-- One scan and one attempt for each pair of entries. -/
structure CoversEntries (a : Answers) : Prop where
  scans : (requestedPairs a).Perm (wantedPairs a)
  fallback : ∃ order, order.Perm (wantedPairs a) ∧ FallbackFollows a order

/-- Scans of exactly the wanted pairs, and an attempt with each of them once. -/
structure CoversOnce (a : Answers) : Prop where
  scans : ∀ pair, pair ∈ requestedPairs a ↔ pair ∈ wantedPairs a
  fallback : ∃ order : List Pair, order.Nodup ∧ (∀ pair, pair ∈ order ↔ pair ∈ wantedPairs a) ∧
    FallbackFollows a order

/-- Of the frequencies in range only the frequency 0 stands behind as many entries as there are
frequencies in range. -/
def FreqsKept (stored : List Byte) : Prop :=
  ∀ freq ∈ (listedFreqs stored).drop ((listedFreqs stored).countP inRange),
    inRange freq = true → freq = 0

theorem storedPairs_eq (a : Answers) :
    storedPairs a = wantedIds a.subsystemidList ×ˢ gatewayGetFreqList a.freqList := rfl

theorem requestedPairs_eq (a : Answers) : requestedPairs a = storedPairs a := by
  rw [requestedPairs, gatewayScanRequests, List.flatMap_map]
  rfl

theorem wantedIds_ne_nil (stored : List (BitVec 32)) : wantedIds stored ≠ [] := by
  simp only [wantedIds]
  split_ifs with h
  · exact List.cons_ne_nil _ _
  · exact h

theorem wantedFreqs_ne_nil (stored : List Byte) : wantedFreqs stored ≠ [] := by
  rw [wantedFreqs]
  split_ifs with h
  · exact List.cons_ne_nil _ _
  · exact h

theorem filter_eq_nil_iff_count {stored : List Byte} :
    (listedFreqs stored).filter inRange = [] ↔ (listedFreqs stored).countP inRange = 0 := by
  rw [List.countP_eq_length_filter, List.length_eq_zero_iff]

theorem gatewayGetFreqList_of_none {stored : List Byte}
    (h : (listedFreqs stored).countP inRange = 0) : gatewayGetFreqList stored = [160] := if_pos h

theorem gatewayGetFreqList_of_some {stored : List Byte}
    (h : (listedFreqs stored).countP inRange ≠ 0) :
    gatewayGetFreqList stored =
      (blanked inRange 0 (listedFreqs stored)).take ((listedFreqs stored).countP inRange) := by
  have hblanked : ((listedFreqs stored).map fun f => if f.toNat ≤ 200 then f else 0) =
      blanked inRange 0 (listedFreqs stored) := by
    apply List.map_congr_left
    intro f _
    simp only [inRange, decide_eq_true_eq]
  rw [← hblanked]
  exact if_neg h

/-- The frequencies that are used are the wanted ones exactly when none has been lost. -/
theorem gatewayGetFreqList_perm_iff (stored : List Byte) :
    (gatewayGetFreqList stored).Perm (wantedFreqs stored) ↔ FreqsKept stored := by
  by_cases h : (listedFreqs stored).countP inRange = 0
  · rw [gatewayGetFreqList_of_none h, wantedFreqs, if_pos (filter_eq_nil_iff_count.mpr h)]
    refine iff_of_true (List.Perm.refl _) fun freq hfreq hin => ?_
    exact absurd hin (List.countP_eq_zero.mp h freq (List.mem_of_mem_drop hfreq))
  · rw [gatewayGetFreqList_of_some h, wantedFreqs, if_neg (mt filter_eq_nil_iff_count.mp h)]
    exact take_blanked_perm_iff _

/-- As many frequencies are used as are wanted. -/
theorem gatewayGetFreqList_length (stored : List Byte) :
    (gatewayGetFreqList stored).length = (wantedFreqs stored).length := by
  by_cases h : (listedFreqs stored).countP inRange = 0
  · rw [gatewayGetFreqList_of_none h, wantedFreqs, if_pos (filter_eq_nil_iff_count.mpr h)]
  · rw [gatewayGetFreqList_of_some h, wantedFreqs, if_neg (mt filter_eq_nil_iff_count.mp h),
      ← List.countP_eq_length_filter, blanked, ← List.map_take, List.length_map]
    exact List.length_take_of_le List.countP_le_length

theorem triedPairs_follows (syncs : ℕ → Bool) (pairs : List Pair) :
    TriesUntilSync syncs pairs (triedPairs syncs 0 pairs) := by
  have hfrom : ∀ k, triedPairs syncs k pairs <+: pairs ∧
      (∀ j, j + 1 < (triedPairs syncs k pairs).length → syncs (k + j) = false) ∧
      (triedPairs syncs k pairs = pairs ∨
        ∃ j, j + 1 = (triedPairs syncs k pairs).length ∧ syncs (k + j) = true) := by
    induction pairs with
    | nil => exact fun k => ⟨List.prefix_rfl, fun j hj => absurd hj (Nat.not_lt_zero _), Or.inl rfl⟩
    | cons pair pairs ih =>
      intro k
      rw [triedPairs]
      by_cases hs : syncs k = true
      · rw [if_pos hs]
        refine ⟨⟨pairs, rfl⟩, fun j hj => ?_, Or.inr ⟨0, rfl, hs⟩⟩
        rw [List.length_singleton] at hj
        omega
      · obtain ⟨hpre, hgo, hend⟩ := ih (k + 1)
        rw [if_neg hs]
        refine ⟨List.cons_prefix_cons.mpr ⟨rfl, hpre⟩, fun j hj => ?_, ?_⟩
        · rw [List.length_cons] at hj
          cases j with
          | zero => exact Bool.not_eq_true _ |>.mp hs
          | succ j =>
            have hnext := hgo j (by omega)
            rwa [Nat.add_assoc, Nat.add_comm 1 j] at hnext
        · rcases hend with hall | ⟨j, hj, hlast⟩
          · rw [hall]
            exact Or.inl rfl
          · refine Or.inr ⟨j + 1, by rw [List.length_cons, hj], ?_⟩
            rwa [Nat.add_assoc, Nat.add_comm 1 j] at hlast
  obtain ⟨hpre, hgo, hend⟩ := hfrom 0
  simp only [Nat.zero_add] at hgo hend
  exact ⟨hpre, hgo, hend⟩

theorem triedPairs_never (k : ℕ) (pairs : List Pair) :
    triedPairs (fun _ => false) k pairs = pairs := by
  induction pairs generalizing k with
  | nil => rfl
  | cons pair pairs ih => rw [triedPairs, if_neg Bool.false_ne_true, ih]

/-- The order of the fallback is fixed: it is the order of the two loops. -/
theorem fallbackFollows_iff (a : Answers) (order : List Pair) :
    FallbackFollows a order ↔ order = storedPairs a := by
  constructor
  · intro h
    have hnone : (gatewayChooseOneFreqInfo gatewayClearFreqInfoList).1 = none := rfl
    have hall := h (fun _ => false) ⟨gatewayClearFreqInfoList, [], (0, 0)⟩ hnone
    have htried : syncAttempts { a with syncs := fun _ => false }
        ⟨gatewayClearFreqInfoList, [], (0, 0)⟩ = storedPairs a := triedPairs_never 0 (storedPairs a)
    rw [htried] at hall
    rcases hall.ends with heq | ⟨k, -, hk⟩
    · exact heq.symm
    · exact absurd hk Bool.false_ne_true
  · rintro rfl syncs app hnone
    rw [syncAttempts, hnone]
    exact triedPairs_follows syncs (storedPairs a)

theorem coversEntries_iff (a : Answers) : CoversEntries a ↔ FreqsKept a.freqList := by
  rw [← gatewayGetFreqList_perm_iff, ← product_perm_iff (wantedIds_ne_nil a.subsystemidList),
    ← storedPairs_eq]
  constructor
  · intro h
    rw [← requestedPairs_eq]
    exact h.scans
  · intro h
    refine ⟨?_, storedPairs a, h, (fallbackFollows_iff a _).mpr rfl⟩
    rw [requestedPairs_eq]
    exact h

theorem coversOnce_iff (a : Answers) :
    CoversOnce a ↔ FreqsKept a.freqList ∧ (wantedIds a.subsystemidList).Nodup ∧
      (wantedFreqs a.freqList).Nodup := by
  have hids := wantedIds_ne_nil a.subsystemidList
  have hfreqs : gatewayGetFreqList a.freqList ≠ [] := by
    intro hnil
    have hlen := gatewayGetFreqList_length a.freqList
    rw [hnil, List.length_nil, eq_comm, List.length_eq_zero_iff] at hlen
    exact wantedFreqs_ne_nil a.freqList hlen
  rw [← gatewayGetFreqList_perm_iff]
  constructor
  · intro h
    obtain ⟨order, hnodup, -, hfollows⟩ := h.fallback
    rw [(fallbackFollows_iff a order).mp hfollows, storedPairs_eq,
      nodup_product_iff hids hfreqs] at hnodup
    obtain ⟨hidsNodup, hfreqsNodup⟩ := hnodup
    obtain ⟨id, hid⟩ := List.exists_mem_of_ne_nil _ hids
    have hsub : gatewayGetFreqList a.freqList ⊆ wantedFreqs a.freqList := by
      intro freq hfreq
      have hmem := (h.scans (id, freq)).mp (by
        rw [requestedPairs_eq, storedPairs_eq]
        exact List.mem_product.mpr ⟨hid, hfreq⟩)
      exact (List.mem_product.mp hmem).2
    have hperm : (gatewayGetFreqList a.freqList).Perm (wantedFreqs a.freqList) :=
      (List.subperm_of_subset hfreqsNodup hsub).perm_of_length_le
        (gatewayGetFreqList_length a.freqList).ge
    exact ⟨hperm, hidsNodup, hperm.nodup_iff.mp hfreqsNodup⟩
  · rintro ⟨hperm, hidsNodup, hfreqsNodup⟩
    have hpairs : (storedPairs a).Perm (wantedPairs a) := (product_perm_iff hids).mpr hperm
    refine ⟨fun pair => ?_, storedPairs a, ?_, fun pair => hpairs.mem_iff,
      (fallbackFollows_iff a _).mpr rfl⟩
    · rw [requestedPairs_eq]
      exact hpairs.mem_iff
    · exact hidsNodup.product (hperm.nodup_iff.mpr hfreqsNodup)

/-- The frequency 201 before the frequency 5. -/
def outOfRangeFirst : Answers where
  freqList := [201#8, 5#8] ++ List.replicate 14 255#8
  subsystemidList := [1#32] ++ List.replicate 7 0#32
  scans := fun _ => none
  syncs := fun _ => false
  start := .otherFail

end WiotaDev.GatewayApp

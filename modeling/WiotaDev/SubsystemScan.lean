import WiotaDev.AutoManagerTask
import Mathlib.Data.List.GetD
import Mathlib.Data.List.Rotate
import Mathlib.Data.List.TakeWhile

/-! # The subsystems that the auto manager scans

The ids are stored in a list of eight words. What follows them in the memory of the caller is not
known. -/

namespace WiotaDev.AutoManager
open WordBytes

/-- What `uc_wiota_get_system_config` returns of the subsystems. -/
structure SubSystemConfig where
  subsystemidList : Vector (BitVec 32) 8
  subsystemid : BitVec 32

/-- Neither `~0` nor `0`. -/
def Usable (id : BitVec 32) : Prop := id ≠ BitVec.allOnes 32 ∧ id ≠ 0

instance (id : BitVec 32) : Decidable (Usable id) := inferInstanceAs (Decidable (_ ∧ _))

/-- The memory from the buffer of the caller on, after `rt_memcpy`. -/
def copied (config : SubSystemConfig) (behind : ℕ → BitVec 32) : ℕ → BitVec 32 := fun k =>
  if k < 8 then config.subsystemidList.toList.getD k 0 else behind (k - 8)

/-- The loop from `num` on, for at most `fuel` turns: where it ends and the words it reads. -/
def countIds (list : ℕ → BitVec 32) : ℕ → ℕ → ℕ × List ℕ
  | 0, num => (num, [])
  | fuel + 1, num =>
    if list num = BitVec.allOnes 32 ∨ list num = 0 then (num, [num])
    else ((countIds list fuel (num + 1)).1, num :: (countIds list fuel (num + 1)).2)

/-- What the function returns, the memory from the buffer on, and the words of it that it has read or
written. -/
structure IdList where
  num : ℕ
  list : ℕ → BitVec 32
  touched : List ℕ

/-- `sizeof(config.subsystemid_list)`, in bytes. -/
def sizeofSubsystemidList : ℕ := 32

/-- `at_wiota_get_subsystem_id_list` with the memory that it works on. -/
def getSubsystemIdList (config : SubSystemConfig) (behind : ℕ → BitVec 32) : IdList :=
  let list := copied config behind
  let counted := countIds list sizeofSubsystemidList 0
  if counted.1 = 0 then
    let list := Function.update list 0 config.subsystemid
    ⟨if list 0 ≠ BitVec.allOnes 32 ∧ list 0 ≠ 0 then 1 else 0, list,
      List.range 8 ++ counted.2 ++ [0]⟩
  else
    ⟨counted.1, list, List.range 8 ++ counted.2⟩

/-- What the scan of the manager works with: the words from its buffer on are the stored ones and
those behind them. -/
def scanSetting (config : SubSystemConfig) (behind : ℕ → BitVec 32) (freqList : Vector Byte 16)
    (userid : ℕ) (results : ℕ → ScanBack) (malloc : Bool) : ScanSetting where
  freqList := freqList.toList
  subsystemIds := (List.range sizeofSubsystemidList).map (copied config behind)
  subsystemid := config.subsystemid
  userid
  results
  malloc

/-- A call of `uc_wiota_scan_freq` and the subsystem that is configured for it. -/
structure ScanRequest where
  subsystemid : BitVec 32
  freqs : List Byte
  deriving DecidableEq, Repr

def strategy (c : ScanSetting) : ℕ :=
  (atWiotaGetStaticFreq c.freqList).length *
    (atWiotaGetSubsystemIdList c.subsystemIds c.subsystemid).length % 256

/-- The scans of `at_wiota_manager_scan`, branch by branch. -/
def scanRequests (c : ScanSetting) : List ScanRequest :=
  let freqList := atWiotaGetStaticFreq c.freqList
  let ids := atWiotaGetSubsystemIdList c.subsystemIds c.subsystemid
  if strategy c = 0 then
    [⟨c.subsystemid, []⟩]
  else if strategy c = 1 then
    []
  else
    (List.range ids.length).map fun j =>
      let i := c.userid % ids.length + j
      ⟨ids.getD (i % ids.length) 0, freqList⟩

/-- The stored ids up to the first that is not usable, or else the configured one. -/
def storedIds (config : SubSystemConfig) : List (BitVec 32) :=
  let leading := config.subsystemidList.toList.takeWhile fun id => Usable id
  if leading = [] then if Usable config.subsystemid then [config.subsystemid] else [] else leading

/-- The scan returned no result that synchronised. -/
def FoundNothing (result : ScanBack) : Prop :=
  ∀ entries ∈ result, ∀ entry ∈ entries, entry.1.isSynced = 0

instance (result : ScanBack) : Decidable (FoundNothing result) :=
  inferInstanceAs (Decidable (∀ entries ∈ result, ∀ entry ∈ entries, entry.1.isSynced = 0))

/-- The stored ids are returned and counted without leaving the eight words, and the default branch
scans each of them once, in cyclic order from the one that the user id selects, and fails when every
scan found nothing. -/
structure ScansInOrder (config : SubSystemConfig) (got : IdList) (c : ScanSetting) (m : Manager) :
    Prop where
  num : got.num = (storedIds config).length
  atMost : got.num ≤ 8
  list : ∀ k < got.num, got.list k = (storedIds config).getD k 0
  touched : ∀ k ∈ got.touched, k < 8
  scans : strategy c ≠ 0 → strategy c ≠ 1 →
    scanRequests c = ((storedIds config).rotate (c.userid % got.num)).map fun id =>
      ⟨id, atWiotaGetStaticFreq c.freqList⟩
  fails : strategy c ≠ 0 → strategy c ≠ 1 →
    ((atWiotaManagerScan c m).1 = true ↔ ∀ j < got.num, FoundNothing (c.results j))

theorem not_usable_iff {id : BitVec 32} : ¬ Usable id ↔ id = BitVec.allOnes 32 ∨ id = 0 := by
  rw [Usable, not_and_or, not_not, not_not]

theorem storedIds_length_le (config : SubSystemConfig) : (storedIds config).length ≤ 8 := by
  have hleading := (List.takeWhile_prefix (l := config.subsystemidList.toList)
    fun id => decide (Usable id)).length_le
  rw [Vector.length_toList] at hleading
  simp only [storedIds]
  split_ifs
  · exact Nat.le_add_left 1 7
  · exact Nat.zero_le 8
  · exact hleading

theorem countIds_num (list : ℕ → BitVec 32) (fuel num : ℕ) : (countIds list fuel num).1 =
    num + (((List.range' num fuel).map list).takeWhile fun id => Usable id).length := by
  induction fuel generalizing num with
  | zero => rfl
  | succ fuel ih =>
    rw [List.range'_succ, List.map_cons, countIds]
    by_cases h : list num = BitVec.allOnes 32 ∨ list num = 0
    · have hnot : ¬ decide (Usable (list num)) = true := by simpa using not_usable_iff.mpr h
      rw [if_pos h, List.takeWhile_cons, if_neg hnot]
      rfl
    · have huse : decide (Usable (list num)) = true := by
        simpa using (not_iff_comm.mp not_usable_iff).mp h
      rw [if_neg h, List.takeWhile_cons, if_pos huse, List.length_cons]
      exact (ih (num + 1)).trans (by omega)

/-- A word is read when all words before it are usable. -/
theorem mem_countIds {list : ℕ → BitVec 32} {fuel num k : ℕ} : k ∈ (countIds list fuel num).2 ↔
    num ≤ k ∧ k < num + fuel ∧ ∀ j, num ≤ j → j < k → Usable (list j) := by
  induction fuel generalizing num with
  | zero =>
    rw [countIds]
    constructor
    · intro h
      exact absurd h List.not_mem_nil
    · rintro ⟨hlo, hhi, -⟩
      omega
  | succ fuel ih =>
    rw [countIds]
    by_cases h : list num = BitVec.allOnes 32 ∨ list num = 0
    · rw [if_pos h, List.mem_singleton]
      constructor
      · rintro rfl
        exact ⟨le_rfl, by omega, fun j hlo hhi => by omega⟩
      · rintro ⟨hlo, -, hall⟩
        by_contra hne
        exact not_usable_iff.mpr h (hall num le_rfl (by omega))
    · have huse : Usable (list num) := (not_iff_comm.mp not_usable_iff).mp h
      rw [if_neg h, List.mem_cons, ih]
      constructor
      · rintro (rfl | ⟨hlo, hhi, hall⟩)
        · exact ⟨le_rfl, by omega, fun j hlo hhi => by omega⟩
        · refine ⟨by omega, by omega, fun j hjlo hjhi => ?_⟩
          rcases Nat.eq_or_lt_of_le hjlo with rfl | hjlt
          · exact huse
          · exact hall j hjlt hjhi
      · rintro ⟨hlo, hhi, hall⟩
        rcases Nat.eq_or_lt_of_le hlo with rfl | hlt
        · exact Or.inl rfl
        · exact Or.inr ⟨hlt, by omega, fun j hjlo hjhi => hall j (by omega) hjhi⟩

theorem map_copied (config : SubSystemConfig) (behind : ℕ → BitVec 32) :
    (List.range sizeofSubsystemidList).map (copied config behind) =
      config.subsystemidList.toList ++ (List.range 24).map behind := by
  have hsize : sizeofSubsystemidList = 8 + 24 := rfl
  have hlist : (List.range 8).map (copied config behind) = config.subsystemidList.toList := by
    apply List.ext_getElem
    · rw [List.length_map, List.length_range, Vector.length_toList]
    · intro k hk hk'
      rw [List.length_map, List.length_range] at hk
      rw [List.getElem_map, List.getElem_range, copied, if_pos hk, List.getD_eq_getElem _ _ hk']
  have hbehind : (copied config behind) ∘ (fun k => 8 + k) = behind := by
    funext k
    have hge : ¬ 8 + k < 8 := by omega
    rw [Function.comp_apply, copied, if_neg hge, Nat.add_sub_cancel_left]
  rw [hsize, List.range_add, List.map_append, hlist, List.map_map, hbehind]

/-- The leading usable words of the memory. -/
def leading (config : SubSystemConfig) (behind : ℕ → BitVec 32) : List (BitVec 32) :=
  (config.subsystemidList.toList ++ (List.range 24).map behind).takeWhile fun id => Usable id

theorem countIds_copied (config : SubSystemConfig) (behind : ℕ → BitVec 32) :
    (countIds (copied config behind) sizeofSubsystemidList 0).1 = (leading config behind).length := by
  rw [countIds_num, ← List.range_eq_range', map_copied, Nat.zero_add]
  rfl

/-- The ids that the function leaves are those that the scan works with. -/
theorem ids_eq (config : SubSystemConfig) (behind : ℕ → BitVec 32) :
    atWiotaGetSubsystemIdList ((List.range sizeofSubsystemidList).map (copied config behind))
        config.subsystemid =
      if leading config behind = [] then
        if Usable config.subsystemid then [config.subsystemid] else []
      else leading config behind := by
  have hlen : ((List.range sizeofSubsystemidList).map (copied config behind)).length ≤ 32 := by
    rw [List.length_map, List.length_range]
    rfl
  rw [atWiotaGetSubsystemIdList, List.take_of_length_le hlen, map_copied]
  rfl

theorem length_eight (config : SubSystemConfig) : config.subsystemidList.toList.length = 8 :=
  Vector.length_toList

/-- An unusable word among the eight stops the loop before it leaves them. -/
theorem leading_of_unusable {config : SubSystemConfig}
    (h : ∃ id ∈ config.subsystemidList.toList, ¬ Usable id) (behind : ℕ → BitVec 32) :
    leading config behind = config.subsystemidList.toList.takeWhile fun id => Usable id := by
  obtain ⟨id, hid, hnot⟩ := h
  rw [leading, List.takeWhile_append, if_neg]
  intro hfull
  have hall := List.takeWhile_eq_self_iff.mp
    ((List.takeWhile_prefix fun id => decide (Usable id)).eq_of_length hfull)
  exact hnot (of_decide_eq_true (hall id hid))

theorem copied_of_lt {config : SubSystemConfig} {behind : ℕ → BitVec 32} {k : ℕ} (hk : k < 8) :
    copied config behind k = config.subsystemidList.toList.getD k 0 := if_pos hk

/-- Without an unusable word among the eight the word behind them is read. -/
theorem eight_mem_countIds (config : SubSystemConfig) (behind : ℕ → BitVec 32) :
    8 ∈ (countIds (copied config behind) sizeofSubsystemidList 0).2 ↔
      ∀ id ∈ config.subsystemidList.toList, Usable id := by
  rw [mem_countIds]
  constructor
  · rintro ⟨-, -, hall⟩ id hid
    obtain ⟨k, hk, rfl⟩ := List.mem_iff_getElem.mp hid
    have hlt : k < 8 := by rwa [length_eight] at hk
    have huse := hall k (Nat.zero_le k) hlt
    rwa [copied_of_lt hlt, List.getD_eq_getElem _ _ hk] at huse
  · intro hall
    refine ⟨Nat.zero_le 8, by decide, fun k _ hk => ?_⟩
    have hk' : k < config.subsystemidList.toList.length := by rwa [length_eight]
    rw [copied_of_lt hk, List.getD_eq_getElem _ _ hk']
    exact hall _ (List.getElem_mem hk')

/-- Reading stays within the eight words when one of them is not usable. -/
theorem countIds_reads {config : SubSystemConfig} (behind : ℕ → BitVec 32)
    (h : ∃ id ∈ config.subsystemidList.toList, ¬ Usable id) :
    ∀ k ∈ (countIds (copied config behind) sizeofSubsystemidList 0).2, k < 8 := by
  intro k hk
  by_contra hge
  obtain ⟨-, hhi, hall⟩ := mem_countIds.mp hk
  have height : 8 ∈ (countIds (copied config behind) sizeofSubsystemidList 0).2 :=
    mem_countIds.mpr ⟨Nat.zero_le 8, by decide, fun j hlo hj => hall j hlo (by omega)⟩
  obtain ⟨id, hid, hnot⟩ := h
  exact hnot ((eight_mem_countIds config behind).mp height id hid)

theorem storedIds_eq {config : SubSystemConfig}
    (h : ∃ id ∈ config.subsystemidList.toList, ¬ Usable id) (behind : ℕ → BitVec 32) :
    storedIds config =
      if leading config behind = [] then
        if Usable config.subsystemid then [config.subsystemid] else []
      else leading config behind := by
  rw [leading_of_unusable h]
  rfl

theorem leading_getD {config : SubSystemConfig} {behind : ℕ → BitVec 32}
    (h : ∃ id ∈ config.subsystemidList.toList, ¬ Usable id) {k : ℕ}
    (hk : k < (leading config behind).length) :
    copied config behind k = (leading config behind).getD k 0 := by
  rw [leading_of_unusable h] at hk ⊢
  have hpre := List.takeWhile_prefix (l := config.subsystemidList.toList)
    fun id => decide (Usable id)
  have hk' : k < config.subsystemidList.toList.length := hk.trans_le hpre.length_le
  rw [copied_of_lt (by rwa [length_eight] at hk'), List.getD_eq_getElem _ _ hk,
    List.getD_eq_getElem _ _ hk']
  exact (hpre.getElem hk).symm

/-- What the function returns when one of the eight words is not usable. -/
theorem getSubsystemIdList_spec {config : SubSystemConfig}
    (h : ∃ id ∈ config.subsystemidList.toList, ¬ Usable id) (behind : ℕ → BitVec 32) :
    (getSubsystemIdList config behind).num = (storedIds config).length ∧
      (∀ k < (getSubsystemIdList config behind).num,
        (getSubsystemIdList config behind).list k = (storedIds config).getD k 0) ∧
      ∀ k ∈ (getSubsystemIdList config behind).touched, k < 8 := by
  have hreads := countIds_reads behind h
  rw [storedIds_eq h behind, getSubsystemIdList]
  have husable : (config.subsystemid ≠ BitVec.allOnes 32 ∧ config.subsystemid ≠ 0) =
      Usable config.subsystemid := rfl
  simp only [countIds_copied, List.length_eq_zero_iff]
  by_cases hnil : leading config behind = []
  · simp only [if_pos hnil, Function.update_self, husable]
    refine ⟨?_, fun k hk => ?_, fun k hk => ?_⟩
    · by_cases huse : Usable config.subsystemid
      · rw [if_pos huse, if_pos huse]
        rfl
      · rw [if_neg huse, if_neg huse]
        rfl
    · by_cases huse : Usable config.subsystemid
      · rw [if_pos huse] at hk
        obtain rfl : k = 0 := by omega
        rw [Function.update_self, if_pos huse]
        rfl
      · rw [if_neg huse] at hk
        exact absurd hk (Nat.not_lt_zero k)
    · rcases List.mem_append.mp hk with hk | hk
      · exact (List.mem_append.mp hk).elim List.mem_range.mp (hreads k)
      · rw [List.mem_singleton.mp hk]
        decide
  · simp only [if_neg hnil]
    refine ⟨trivial, fun k hk => leading_getD h hk, fun k hk => ?_⟩
    exact (List.mem_append.mp hk).elim List.mem_range.mp (hreads k)

theorem manage_fst (subsystemId : BitVec 32) (entries : List (FreqScanResult × Bool))
    (acc : ℕ × List Node) : (entries.foldl (manageResult subsystemId) acc).1 =
      if ∀ entry ∈ entries, entry.1.isSynced = 0 then acc.1 else 0 := by
  induction entries generalizing acc with
  | nil => simp
  | cons entry entries ih =>
    rw [List.foldl_cons, ih, manageResult]
    simp only [List.forall_mem_cons]
    by_cases hs : entry.1.isSynced = 0
    · simp only [hs, ne_eq, not_true_eq_false, if_false, true_and]
    · simp only [hs, ne_eq, not_false_eq_true, if_true, false_and, if_false, ite_self]

theorem freqManager_ne_zero_iff (subsystemId : BitVec 32) (result : ScanBack) (list : List Node) :
    (atWiotaFreqManager subsystemId result list).1 ≠ 0 ↔ FoundNothing result := by
  cases result with
  | none => simp [atWiotaFreqManager, FoundNothing]
  | some entries =>
    simp only [atWiotaFreqManager, manage_fst, FoundNothing, Option.mem_some_iff, forall_eq']
    split_ifs with h
    · exact iff_of_true Nat.one_ne_zero h
    · exact iff_of_false (not_not.mpr rfl) h

/-- `flag` counts the scans that found nothing. -/
theorem flag_eq (c : ScanSetting) (ids : List (BitVec 32)) (js : List ℕ) (acc : ℕ × List Node) :
    (js.foldl (scanSubsystem c ids) acc).1 =
      acc.1 + js.countP fun j => FoundNothing (c.results j) := by
  induction js generalizing acc with
  | nil => rfl
  | cons j js ih =>
    rw [List.foldl_cons, ih, scanSubsystem, List.countP_cons]
    simp only [freqManager_ne_zero_iff, decide_eq_true_eq]
    split_ifs <;> omega

/-- The default branch fails when every scan found nothing. -/
theorem scan_fails_iff {c : ScanSetting} (m : Manager) (hzero : strategy c ≠ 0)
    (hone : strategy c ≠ 1) :
    (atWiotaManagerScan c m).1 = true ↔
      ∀ j < (atWiotaGetSubsystemIdList c.subsystemIds c.subsystemid).length,
        FoundNothing (c.results j) := by
  rw [strategy] at hzero hone
  simp only [atWiotaManagerScan, if_neg hzero, if_neg hone, decide_eq_true_eq, flag_eq, Nat.zero_add]
  have hcount := List.countP_eq_length
    (l := List.range (atWiotaGetSubsystemIdList c.subsystemIds c.subsystemid).length)
    (p := fun j => decide (FoundNothing (c.results j)))
  rw [List.length_range] at hcount
  rw [hcount]
  simp only [List.mem_range, decide_eq_true_eq]

theorem cyclic_eq_rotate (ids : List (BitVec 32)) (userid : ℕ) :
    ((List.range ids.length).map fun j => ids.getD ((userid % ids.length + j) % ids.length) 0) =
      ids.rotate (userid % ids.length) := by
  apply List.ext_getElem
  · rw [List.length_map, List.length_range, List.length_rotate]
  · intro k hk hk'
    rw [List.length_map, List.length_range] at hk
    have hmod : (userid % ids.length + k) % ids.length < ids.length :=
      Nat.mod_lt _ (Nat.zero_lt_of_lt hk)
    rw [List.getElem_map, List.getElem_range, List.getD_eq_getElem _ _ hmod, List.getElem_rotate]
    simp only [Nat.add_comm]

/-- The default branch scans the ids in cyclic order, one scan for each. -/
theorem scanRequests_default {c : ScanSetting} (hzero : strategy c ≠ 0) (hone : strategy c ≠ 1) :
    scanRequests c =
      ((atWiotaGetSubsystemIdList c.subsystemIds c.subsystemid).rotate
        (c.userid % (atWiotaGetSubsystemIdList c.subsystemIds c.subsystemid).length)).map fun id =>
          ⟨id, atWiotaGetStaticFreq c.freqList⟩ := by
  simp only [scanRequests, if_neg hzero, if_neg hone, ← cyclic_eq_rotate, List.map_map]
  rfl

/-- The loop that counts the ids runs to the size of the list in bytes. It leaves the eight words
exactly when all of them are usable. -/
theorem subsystemScan_inOrder_iff (config : SubSystemConfig) (behind : ℕ → BitVec 32)
    (freqList : Vector Byte 16) (userid : ℕ) (results : ℕ → ScanBack) (malloc : Bool) (m : Manager) :
    ScansInOrder config (getSubsystemIdList config behind)
        (scanSetting config behind freqList userid results malloc) m ↔
      ∃ id ∈ config.subsystemidList.toList, ¬ Usable id := by
  constructor
  · intro hscans
    by_contra hnone
    have hall : ∀ id ∈ config.subsystemidList.toList, Usable id := by
      intro id hid
      by_contra hnot
      exact hnone ⟨id, hid, hnot⟩
    have height := (eight_mem_countIds config behind).mpr hall
    have htouched : 8 ∈ (getSubsystemIdList config behind).touched := by
      rw [getSubsystemIdList]
      by_cases hzero : (countIds (copied config behind) sizeofSubsystemidList 0).1 = 0
      · rw [if_pos hzero]
        exact List.mem_append_left _ (List.mem_append_right _ height)
      · rw [if_neg hzero]
        exact List.mem_append_right _ height
    exact absurd (hscans.touched 8 htouched) (by decide)
  · intro h
    obtain ⟨hnum, hlist, htouched⟩ := getSubsystemIdList_spec h behind
    have hids : atWiotaGetSubsystemIdList
        (scanSetting config behind freqList userid results malloc).subsystemIds
        (scanSetting config behind freqList userid results malloc).subsystemid =
          storedIds config := by
      rw [storedIds_eq h behind]
      exact ids_eq config behind
    refine ⟨hnum, hnum.trans_le (storedIds_length_le config), hlist, htouched, fun hzero hone => ?_, fun hzero hone => ?_⟩
    · rw [scanRequests_default hzero hone, hids, hnum]
    · rw [scan_fails_iff m hzero hone, hids, hnum]

/-- Eight usable ids. -/
def fullList : SubSystemConfig := ⟨Vector.replicate 8 7#32, 9#32⟩

theorem subsystemScan_full_list :
    ¬ ∀ config behind freqList userid results malloc m,
      ScansInOrder config (getSubsystemIdList config behind)
        (scanSetting config behind freqList userid results malloc) m := by
  intro h
  have hscans := h fullList (fun _ => 0#32) (Vector.replicate 16 0xFF) 0 (fun _ => none) true
    Manager.start
  exact absurd (hscans.touched 8 (by decide)) (by decide)

end WiotaDev.AutoManager

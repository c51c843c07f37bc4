import WiotaDev.OverwritingRing
import WiotaDev.ResourceLedger
import WiotaDev.WordBytes

/-! # Downlink data stored for a later query

In the mode that does not print received data at once, `wiota_data_insert` keeps the last packets and
`wiota_data_show` prints and releases them. -/

namespace WiotaDev.StoredData
open OverwritingRing ResourceLedger WordBytes

/-- An allocated buffer and what it contains. -/
structure Buffer where
  handle : ℕ
  bytes : List Byte
deriving DecidableEq

/-- `uc_recv_back_t`; a null pointer is `none`. -/
structure RecvBack where
  result : Byte
  type : Byte
  dataLen : BitVec 16
  data : Option Buffer
deriving DecidableEq

def RecvBack.zero : RecvBack := ⟨0, 0, 0, none⟩

/-- What is printed behind `+WIOTARECV` for one packet. -/
structure RecvLine where
  type : ℕ
  dataLen : ℕ
  data : List Byte
deriving DecidableEq

/-- `wiota_save_index`, `wiota_save_data` and the buffers that have been allocated. -/
structure Store where
  saveIndex : ℤ
  saveData : Fin 5 → RecvBack
  ledger : Ledger

/-- `at_wiota_gpio_report_init`, which leaves nothing of what was stored before. -/
def atWiotaGpioReportInit (s : Store) : Store :=
  { s with saveIndex := -1, saveData := fun _ => .zero }

/-- `wiota_data_insert`. -/
def wiotaDataInsert (data : Option RecvBack) (s : Store) : Store :=
  match data with
  | none => s
  | some packet =>
    if packet.data = none then s
    else
      let saveIndex := (if s.saveIndex + 1 ≥ 5 then -1 else s.saveIndex) + 1
      let slot := cell 5 saveIndex.toNat
      { saveIndex
        saveData := Function.update s.saveData slot packet
        ledger := s.ledger.freePtr ((s.saveData slot).data.map Buffer.handle) }

/-- One turn of the loop in `wiota_data_show`. -/
def showSlot (slot : Fin 5) (s : Store) : List RecvLine × Store :=
  let packet := s.saveData slot
  let shown : List RecvLine × Ledger :=
    match packet.data with
    | some buffer =>
      if packet.dataLen.toNat > 0 then
        ([⟨packet.type.toNat, packet.dataLen.toNat, buffer.bytes.take packet.dataLen.toNat⟩],
          (s.ledger.use buffer.handle).free buffer.handle)
      else ([], s.ledger)
    | none => ([], s.ledger)
  (shown.1,
    { s with
      saveData := Function.update s.saveData slot { packet with data := none, dataLen := 0 }
      ledger := shown.2 })

def showSlots : List (Fin 5) → Store → List RecvLine × Store
  | [], s => ([], s)
  | slot :: slots, s =>
    let first := showSlot slot s
    let rest := showSlots slots first.2
    (first.1 ++ rest.1, rest.2)

/-- The slots that `wiota_data_show` goes through: `i % WIOTA_DATA_NUM` for `i` below `max`. -/
def showOrder (saveIndex : ℤ) : List (Fin 5) :=
  let i := if saveIndex + 1 ≥ 5 then 0 else (saveIndex + 1).toNat
  let max := if saveIndex + 1 ≥ 5 then 5 else i + 5
  (List.range' i (max - i)).map (cell 5)

/-- `wiota_data_show`: what it prints and what it leaves. -/
def wiotaDataShow (s : Store) : List RecvLine × Store :=
  if s.saveIndex = -1 then ([], s)
  else
    let shown := showSlots (showOrder s.saveIndex) s
    (shown.1, { shown.2 with saveIndex := -1 })

/-- A received packet: `data` is not null and `data_len` is not 0. -/
structure Packet where
  result : Byte
  type : Byte
  dataLen : BitVec 16
  bytes : List Byte
  dataLen_pos : 0 < dataLen.toNat

/-- The packet in the buffer that it was received in. -/
def Packet.recvBack (p : Packet) (handle : ℕ) : RecvBack :=
  ⟨p.result, p.type, p.dataLen, some ⟨handle, p.bytes⟩⟩

inductive Call where
  | insert (packet : Packet)
  | query

/-- A packet comes in a newly allocated buffer, which the store takes over. -/
def call (s : Store) : Call → Store
  | .insert packet =>
    wiotaDataInsert (some (packet.recvBack s.ledger.next)) { s with ledger := s.ledger.create }
  | .query => (wiotaDataShow s).2

/-- What has been stored when the calls have returned. -/
def after (s : Store) (calls : List Call) : Store := calls.foldl call s

/-- What the calls ask for: the packets since the last query, each with its number. -/
structure History where
  count : ℕ
  pending : List (ℕ × Packet)

def History.empty : History := ⟨0, []⟩

def History.call (h : History) : Call → History
  | .insert packet => ⟨h.count + 1, h.pending ++ [(h.count, packet)]⟩
  | .query => ⟨h.count, []⟩

def history (calls : List Call) : History := calls.foldl History.call .empty

/-- The line that a packet is to be printed as. -/
def Packet.line (p : Packet) : RecvLine :=
  ⟨p.type.toNat, p.dataLen.toNat, p.bytes.take p.dataLen.toNat⟩

/-- A slot with the packet of the given number, or without a buffer. -/
def Represents (slot : RecvBack) : Option (ℕ × Packet) → Prop
  | none => slot.data = none
  | some (number, packet) => slot = packet.recvBack number

/-- The store and the packets that the calls have left in it. -/
structure Refines (s : Store) (h : History) : Prop where
  index : s.saveIndex = if h.pending.length = 0 then -1 else ((h.pending.length - 1) % 5 : ℤ)
  slots : ∃ cells : Fin 5 → Option (ℕ × Packet),
    Holds cells h.pending ∧ ∀ j, Represents (s.saveData j) (cells j)
  owns : s.ledger.Owns ((latest 5 h.pending).map Prod.fst)
  count : s.ledger.next = h.count

theorem init_refines (s : Store) (hs : s.ledger = .empty) :
    Refines (atWiotaGpioReportInit s) .empty where
  index := rfl
  slots := ⟨fun _ => none, holds_nil fun _ => rfl, fun _ => rfl⟩
  owns := by
    show s.ledger.Owns []
    rw [hs]
    exact Ledger.empty_owns
  count := by
    show s.ledger.next = 0
    rw [hs]
    rfl

section Show

variable {cells : Fin 5 → Option (ℕ × Packet)} {slot : Fin 5} {slots : List (Fin 5)} {s : Store}

/-- A stored packet is printed, and its buffer is released. -/
theorem showSlot_some {number : ℕ} {packet : Packet} {hs : List ℕ}
    (hr : s.saveData slot = packet.recvBack number) (ho : s.ledger.Owns (number :: hs)) :
    (showSlot slot s).1 = [packet.line] ∧ (showSlot slot s).2.ledger.Owns hs ∧
      (showSlot slot s).2.ledger.next = s.ledger.next := by
  have hlive : number ∈ s.ledger.live := (ho.mem number).mpr List.mem_cons_self
  have hpos : packet.dataLen.toNat > 0 := packet.dataLen_pos
  simp only [showSlot, hr, Packet.recvBack, if_pos hpos, Ledger.use_of_mem hlive]
  exact ⟨rfl, ho.free, Ledger.free_next⟩

theorem showSlot_none (hr : (s.saveData slot).data = none) :
    (showSlot slot s).1 = [] ∧ (showSlot slot s).2.ledger = s.ledger := by
  simp only [showSlot, hr, and_self]

theorem showSlot_saveData (j : Fin 5) : ((showSlot slot s).2.saveData j).data =
    if j = slot then none else (s.saveData j).data := by
  simp only [showSlot]
  rcases eq_or_ne j slot with rfl | hne
  · rw [Function.update_self, if_pos rfl]
  · rw [Function.update_of_ne hne, if_neg hne]

theorem showSlot_saveData_of_ne {j : Fin 5} (h : j ≠ slot) :
    (showSlot slot s).2.saveData j = s.saveData j :=
  Function.update_of_ne h _ _

/-- The loop prints the stored packets in the order of its slots and leaves these empty. -/
theorem showSlots_spec (hnodup : slots.Nodup)
    (hrep : ∀ j ∈ slots, Represents (s.saveData j) (cells j))
    (ho : s.ledger.Owns ((slots.filterMap cells).map Prod.fst)) :
    (showSlots slots s).1 = (slots.filterMap cells).map (fun p => p.2.line) ∧
      (showSlots slots s).2.ledger.Owns [] ∧
      (showSlots slots s).2.ledger.next = s.ledger.next ∧
      ∀ j, j ∈ slots ∨ (s.saveData j).data = none →
        ((showSlots slots s).2.saveData j).data = none := by
  induction slots generalizing s with
  | nil => exact ⟨rfl, ho, rfl, fun j hj => hj.resolve_left List.not_mem_nil⟩
  | cons slot slots ih =>
    obtain ⟨hnot, hnodup⟩ := List.nodup_cons.mp hnodup
    have hrest : ∀ j ∈ slots, Represents ((showSlot slot s).2.saveData j) (cells j) := by
      intro j hj
      rw [showSlot_saveData_of_ne (ne_of_mem_of_not_mem hj hnot)]
      exact hrep j (List.mem_cons_of_mem _ hj)
    have hfirst := hrep slot List.mem_cons_self
    have hdata : ∀ j, j ∈ slot :: slots ∨ (s.saveData j).data = none →
        j ∈ slots ∨ ((showSlot slot s).2.saveData j).data = none := by
      intro j hj
      rw [showSlot_saveData]
      split
      · exact .inr rfl
      · rename_i hne
        rcases hj with hj | hj
        · exact .inl ((List.mem_cons.mp hj).resolve_left hne)
        · exact .inr hj
    cases hc : cells slot with
    | none =>
      rw [hc] at hfirst
      obtain ⟨hout, hledger⟩ := showSlot_none hfirst
      rw [List.filterMap_cons_none hc] at ho ⊢
      obtain ⟨h1, h2, h3, h4⟩ := ih hnodup hrest (hledger ▸ ho)
      refine ⟨?_, h2, h3.trans (congrArg Ledger.next hledger), fun j hj => h4 j (hdata j hj)⟩
      rw [← h1]
      show (showSlot slot s).1 ++ _ = _
      rw [hout, List.nil_append]
    | some p =>
      obtain ⟨number, packet⟩ := p
      rw [hc] at hfirst
      rw [List.filterMap_cons_some hc] at ho ⊢
      obtain ⟨hout, howns, hnext⟩ := showSlot_some hfirst ho
      obtain ⟨h1, h2, h3, h4⟩ := ih hnodup hrest howns
      refine ⟨?_, h2, h3.trans hnext, fun j hj => h4 j (hdata j hj)⟩
      rw [List.map_cons, ← h1]
      show (showSlot slot s).1 ++ _ = _
      rw [hout]
      rfl

end Show

section Calls

variable {s : Store} {h : History}

/-- The slots of a query are one round, from the oldest packet on. -/
theorem showOrder_eq (k : ℕ) : showOrder ((k - 1) % 5) = round 5 k := by
  have hi : (if ((k : ℤ) - 1) % 5 + 1 ≥ 5 then 0 else (((k : ℤ) - 1) % 5 + 1).toNat) = k % 5 := by
    split <;> omega
  have hmax : ∀ i : ℕ, (((k : ℤ) - 1) % 5 + 1 ≥ 5 → i = 0) →
      (if ((k : ℤ) - 1) % 5 + 1 ≥ 5 then 5 else i + 5) - i = 5 := by
    intro i hi
    split <;> omega
  rw [showOrder, hi, hmax (k % 5) (by omega), List.range'_eq_map_range, List.map_map,
    ← round_congr (cell_mod k)]
  rfl

theorem query_refines (hr : Refines s h) :
    (wiotaDataShow s).1 = (latest 5 h.pending).map (fun p => p.2.line) ∧
      Refines (wiotaDataShow s).2 (h.call .query) := by
  have hindex := hr.index
  obtain ⟨cells, hcells, hrep⟩ := hr.slots
  by_cases hk : h.pending.length = 0
  · have hnil : h.pending = [] := List.length_eq_zero_iff.mp hk
    rw [if_pos hk] at hindex
    rw [wiotaDataShow, if_pos hindex, hnil]
    have hcall : h.call .query = h := by rw [History.call, ← hnil]
    exact ⟨rfl, hcall.symm ▸ hr⟩
  · rw [if_neg hk] at hindex
    have hread := hcells.readOut
    have howns := hr.owns
    rw [← hread] at howns
    obtain ⟨h1, h2, h3, h4⟩ := showSlots_spec (round_nodup h.pending.length)
      (fun j _ => hrep j) howns
    rw [wiotaDataShow, if_neg (by omega), hindex, showOrder_eq]
    refine ⟨by rw [← hread]; exact h1, rfl, ?_, h2, h3.trans hr.count⟩
    exact ⟨fun _ => none, holds_nil fun _ => rfl, fun j => h4 j (.inl (mem_round _ j))⟩

theorem represents_handle {slot : RecvBack} {c : Option (ℕ × Packet)} (hr : Represents slot c) :
    slot.data.map Buffer.handle = c.map Prod.fst := by
  cases c with
  | none =>
    have hnull : slot.data = none := hr
    rw [hnull]
    rfl
  | some p =>
    have hslot : slot = p.2.recvBack p.1 := hr
    rw [hslot]
    rfl

/-- The new buffer is taken over, and the one that it replaces is released. -/
theorem insert_owns {cells : Fin 5 → Option (ℕ × Packet)} (packet : Packet)
    (hcells : Holds cells h.pending) (ho : s.ledger.Owns ((latest 5 h.pending).map Prod.fst)) :
    (s.ledger.create.freePtr ((cells (cell 5 h.pending.length)).map Prod.fst)).Owns
      ((latest 5 (h.pending ++ [(s.ledger.next, packet)])).map Prod.fst) := by
  rw [hcells.next]
  rcases Nat.lt_or_ge h.pending.length 5 with hlt | hge
  · rw [if_neg (Nat.not_le.mpr hlt), latest_snoc_of_lt _ hlt, List.map_append]
    exact ho.create.perm (List.perm_append_singleton _ _).symm
  · obtain ⟨oldest, hold, hcons⟩ := latest_eq_cons (Nat.succ_pos 4) hge
    rw [hcons] at ho
    rw [if_pos hge, hold, latest_snoc_of_le _ (Nat.succ_pos 4) hge, List.map_append]
    have hnew : (s.ledger.create.free oldest.1).Owns
        (s.ledger.next :: (h.pending.drop (h.pending.length - 5 + 1)).map Prod.fst) :=
      (ho.create.perm (List.Perm.swap _ _ _)).free
    exact hnew.perm (List.perm_append_singleton _ _).symm

theorem insert_refines (hr : Refines s h) (packet : Packet) :
    Refines (call s (.insert packet)) (h.call (.insert packet)) := by
  obtain ⟨cells, hcells, hrep⟩ := hr.slots
  have hindex := hr.index
  have hnext : (if s.saveIndex + 1 ≥ 5 then -1 else s.saveIndex) + 1 =
      (h.pending.length % 5 : ℤ) := by
    split at hindex <;> split <;> omega
  have hslot : cell 5 ((h.pending.length : ℤ) % 5).toNat = cell 5 h.pending.length := by
    rw [← cell_mod h.pending.length]
    rfl
  have hcall : call s (.insert packet) =
      { saveIndex := (h.pending.length % 5 : ℤ)
        saveData := Function.update s.saveData (cell 5 h.pending.length)
          (packet.recvBack s.ledger.next)
        ledger := s.ledger.create.freePtr ((cells (cell 5 h.pending.length)).map Prod.fst) } := by
    rw [call, wiotaDataInsert]
    simp only [Packet.recvBack, reduceCtorEq, if_false, hnext, hslot, represents_handle (hrep _)]
  rw [hcall]
  refine ⟨?_, ?_, ?_, ?_⟩
  · simp only [History.call, List.length_append, List.length_singleton]
    rw [if_neg (Nat.succ_ne_zero _)]
    push_cast
    rw [add_sub_cancel_right]
  · refine ⟨_, hcells.push (h.count, packet), fun j => ?_⟩
    dsimp only
    rcases eq_or_ne j (cell 5 h.pending.length) with rfl | hne
    · rw [Function.update_self, Function.update_self, hr.count]
      rfl
    · rw [Function.update_of_ne hne, Function.update_of_ne hne]
      exact hrep j
  · rw [History.call, ← hr.count]
    exact insert_owns packet hcells hr.owns
  · rw [History.call, ← hr.count]
    cases (cells (cell 5 h.pending.length)).map Prod.fst with
    | none => rfl
    | some g => exact Ledger.free_next

theorem after_refines (hr : Refines s h) (calls : List Call) :
    Refines (after s calls) (calls.foldl History.call h) := by
  induction calls generalizing s h with
  | nil => exact hr
  | cons c calls ih =>
    cases c with
    | insert packet => exact ih (insert_refines hr packet)
    | query => exact ih (query_refines hr).2

end Calls

/-- From the initialisation on, whatever has been stored and queried: a query prints the last five
packets inserted since the query before, or all of them where there are fewer, the oldest first,
each with its type, its length and its data. The buffers that have been allocated and not released
are those of these packets, and no buffer has been released twice or used behind its release. -/
theorem storedData_refines (saveIndex : ℤ) (saveData : Fin 5 → RecvBack) (calls : List Call) :
    (wiotaDataShow (after (atWiotaGpioReportInit ⟨saveIndex, saveData, .empty⟩) calls)).1 =
        (latest 5 (history calls).pending).map (fun p => p.2.line) ∧
      (after (atWiotaGpioReportInit ⟨saveIndex, saveData, .empty⟩) calls).ledger.Owns
        ((latest 5 (history calls).pending).map Prod.fst) ∧
      (after (atWiotaGpioReportInit ⟨saveIndex, saveData, .empty⟩) calls).ledger.next =
        (history calls).count := by
  have hr := after_refines (init_refines ⟨saveIndex, saveData, .empty⟩ rfl) calls
  exact ⟨(query_refines hr).1, hr.owns, hr.count⟩

end WiotaDev.StoredData

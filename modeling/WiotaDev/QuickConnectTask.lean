import WiotaDev.QuickConnect

/-! # The task of quick connect while it is stopped

With `qc_auto_run` cleared, a task that is idle opens nothing. A task that is not idle has tested the flag
before, and opens something sooner or later if its scan finds a frequency. -/

namespace WiotaDev.QuickConnect
open AutoManager (FreqScanResult)

/-- A call of `uc_wiota_init`, `uc_wiota_run` or `uc_wiota_connect`. -/
def Opens (made : Option Call) : Prop := made = some .init ∨ made = some .run ∨ made = some .connect

instance (made : Option Call) : Decidable (Opens made) :=
  inferInstanceAs (Decidable (_ ∨ _ ∨ _))

/-- `quick_scan` has its results, and they leave no best frequency. -/
def ScanPlace.FoundNone (best : FreqScanResult) : ScanPlace → Prop
  | .useResults left => (left.foldl useResult best).freqIdx = 0xFF
  | .leave _ => best.freqIdx = 0xFF
  | .testQcState | .leaveOld _ | .init | .setQcInit | .clrBestFreq | .configure _ | .run | .setAtRun
  | .setQcRun | .getConfig | .scanFreq => False

/-- `quick_open_wiota` has not passed its test of the best frequency, and there is none. -/
def OpenPlace.FoundNone (best : FreqScanResult) : OpenPlace → Prop
  | .testQcState | .leave _ | .delay | .testBestFreq => best.freqIdx = 0xFF
  | .init | .setQcInit | .setFreqInfo | .run | .registerNormalMsg | .registerStateInfo | .setAtRun
  | .setQcRun | .connect => False

/-- The task is outside of `quick_open_wiota`, or its scan is over and has found no frequency. -/
def Place.Idle (best : FreqScanResult) : Place → Prop
  | .quickScan p => p.FoundNone best
  | .quickOpen p => p.FoundNone best
  | .count | .getState | .testAutoRun | .testSync | .report _ | .delay => True

section Task

variable {a : Answers} {q : Quick} {t : Task}

/-- A step opens nothing and leaves the state, the flag and a quiet place as they are. -/
structure Harmless {π : Type} (q : Quick) (idle : FreqScanResult → π → Prop) (s : Step π) : Prop where
  made : ¬ Opens s.made
  qcState : s.quick.qcState = .exit
  autoRun : s.quick.autoRun = q.autoRun
  idle : idle s.quick.bestFreq s.place

theorem Harmless.map {π ρ : Type} {idle : FreqScanResult → π → Prop} {idle' : FreqScanResult → ρ → Prop}
    {s : Step π} {f : π → ρ} (h : Harmless q idle s) (hf : ∀ best p, idle best p → idle' best (f p)) :
    Harmless q idle' (s.map f) where
  made := h.made
  qcState := h.qcState
  autoRun := h.autoRun
  idle := hf _ _ h.idle

theorem not_opens_none : ¬ Opens none := by decide

theorem not_opens_exit : ¬ Opens (some .exit) := by decide

theorem not_opens_getState : ¬ Opens (some .getState) := by decide

theorem Leave.step_harmless (l : Leave) (hexit : q.qcState = .exit) :
    Harmless q (fun best _ => best = q.bestFreq) (l.step q) := by
  cases l with
  | exit => exact ⟨not_opens_exit, hexit, rfl, rfl⟩
  | setAtState => exact ⟨not_opens_none, hexit, rfl, rfl⟩
  | setQcState => exact ⟨not_opens_none, rfl, rfl, rfl⟩

theorem ScanPlace.step_harmless {p : ScanPlace} (hexit : q.qcState = .exit)
    (h : p.FoundNone q.bestFreq) :
    Harmless q (fun best p' => p'.elim (best.freqIdx = 0xFF) (ScanPlace.FoundNone best)) (p.step a q) := by
  cases p with
  | useResults left =>
    cases left with
    | nil => exact ⟨not_opens_none, hexit, rfl, h⟩
    | cons r left => exact ⟨not_opens_none, hexit, rfl, h⟩
  | leave l =>
    refine (l.step_harmless hexit).map (fun best l' hbest => ?_)
    cases l' with
    | none => exact hbest ▸ h
    | some l' => exact hbest ▸ h
  | testQcState | leaveOld | init | setQcInit | clrBestFreq | configure | run | setAtRun | setQcRun
  | getConfig | scanFreq => exact h.elim

theorem OpenPlace.step_harmless {p : OpenPlace} (hexit : q.qcState = .exit)
    (h : p.FoundNone q.bestFreq) :
    Harmless q (fun best p' => p'.elim True (OpenPlace.FoundNone best)) (p.step q) := by
  cases p with
  | testQcState =>
    rw [OpenPlace.step, if_neg (not_not_intro hexit)]
    exact ⟨not_opens_none, hexit, rfl, h⟩
  | leave l =>
    rw [OpenPlace.step]
    refine (l.step_harmless hexit).map fun best l' hbest => ?_
    cases l' with
    | none => exact hbest ▸ h
    | some l' => exact hbest ▸ h
  | delay => exact ⟨not_opens_none, hexit, rfl, h⟩
  | testBestFreq =>
    have hnone : ¬ q.bestFreq.freqIdx ≠ 0xFF := not_not_intro h
    rw [OpenPlace.step, if_neg hnone]
    exact ⟨not_opens_none, hexit, rfl, trivial⟩
  | init | setQcInit | setFreqInfo | run | registerNormalMsg | registerStateInfo | setAtRun | setQcRun
  | connect => exact h.elim

/-- What the task calls to report a connection opens nothing. -/
def ReportsOnly (t : Task) : Prop :=
  ∀ left, t.place = .report left → ∀ c ∈ left, ¬ Opens (some c)

/-- With the flag cleared, an idle task stays idle. -/
theorem Task.step_harmless (hexit : q.qcState = .exit) (hauto : q.autoRun = false)
    (hreports : ReportsOnly t) (h : t.place.Idle q.bestFreq) :
    Harmless q (fun best t' => t'.place.Idle best) (t.step a q) := by
  obtain ⟨place, cnt, wiotaState, connectFlag⟩ := t
  cases place with
  | count =>
    refine ⟨not_opens_none, hexit, rfl, ?_⟩
    rw [Task.step]
    dsimp only
    split
    · trivial
    · trivial
  | getState => exact ⟨not_opens_getState, hexit, rfl, trivial⟩
  | testAutoRun =>
    refine ⟨not_opens_none, hexit, rfl, ?_⟩
    have hnot : ¬ (wiotaState ≠ .sync ∧ q.autoRun = true) := fun h => by simp [hauto] at h
    rw [Task.step]
    dsimp only
    rw [if_neg hnot]
    trivial
  | quickScan p =>
    rw [Task.step_quickScan rfl]
    refine (ScanPlace.step_harmless hexit h).map fun best p' hidle => ?_
    cases p' with
    | none => exact hidle
    | some p' => exact hidle
  | quickOpen p =>
    rw [Task.step_quickOpen rfl]
    refine (OpenPlace.step_harmless hexit h).map fun best p' hidle => ?_
    cases p' with
    | none => trivial
    | some p' => exact hidle
  | testSync => exact ⟨not_opens_none, hexit, rfl, trivial⟩
  | report left =>
    cases left with
    | nil => exact ⟨not_opens_none, hexit, rfl, trivial⟩
    | cons c left => exact ⟨hreports _ rfl c List.mem_cons_self, hexit, rfl, trivial⟩
  | delay => exact ⟨not_opens_none, hexit, rfl, trivial⟩

theorem Task.step_reportsOnly (h : ReportsOnly t) : ReportsOnly (t.step a q).place := by
  obtain ⟨place, cnt, wiotaState, connectFlag⟩ := t
  intro left hplace
  cases place with
  | count | testAutoRun =>
    simp only [Task.step] at hplace
    split at hplace
    · cases hplace
    · cases hplace
  | getState | delay => cases hplace
  | quickScan p =>
    cases hnext : (p.step a q).place with
    | none => simp [Task.step, hnext] at hplace
    | some p' => simp [Task.step, hnext] at hplace
  | quickOpen p =>
    cases hnext : (p.step q).place with
    | none => simp [Task.step, hnext] at hplace
    | some p' => simp [Task.step, hnext] at hplace
  | testSync =>
    cases hplace
    split
    · decide
    · exact fun c hc => absurd hc List.not_mem_nil
  | report calls =>
    cases calls with
    | nil => cases hplace
    | cons c calls =>
      cases hplace
      exact fun d hd => h _ rfl d (List.mem_cons_of_mem c hd)

/-- A step opens something or leaves `QC_EXIT`. -/
def Disturbs {π : Type} (s : Step π) : Prop := s.quick.qcState ≠ .exit ∨ Opens s.made

/-- A scan that finds a frequency with the strongest signal there is. -/
def found : Answers where
  state := .null
  scan := some [{ freqIdx := 0, snr := 0, rssi := 0x7F, isSynced := 1, subSysId := 0 }]
  freqInfo := true

theorem useResult_found (best : FreqScanResult) :
    (found.scan.getD []).foldl useResult best =
      { freqIdx := 0, snr := 0, rssi := 0x7F, isSynced := 1, subSysId := 0 } := by
  have hsle : best.rssi.sle 127#8 = true := by
    rw [BitVec.sle_iff_toInt_le]
    exact BitVec.toInt_le
  simp [found, useResult, hsle]

def Leave.rank : Leave → ℕ
  | .exit => 3
  | .setAtState => 2
  | .setQcState => 1

/-- How many steps of the task are left at most until it disturbs, if it is to do so. -/
def OpenPlace.rank : OpenPlace → ℕ
  | .testQcState => 6
  | .leave l => 2 + l.rank
  | .delay => 2
  | .testBestFreq => 1
  | .registerNormalMsg => 3
  | .registerStateInfo => 2
  | .setFreqInfo | .setAtRun => 1
  | .init | .setQcInit | .run | .setQcRun | .connect => 0

def ScanPlace.rank : ScanPlace → ℕ
  | .testQcState => 4
  | .leaveOld l => l.rank
  | .clrBestFreq => 8
  | .configure left => left.length + 1
  | .setAtRun => 1
  | .getConfig => 13
  | .scanFreq => 12
  | .useResults left => left.length + 10
  | .leave l => 6 + l.rank
  | .init | .setQcInit | .run | .setQcRun => 0

def Place.rank : Place → ℕ
  | .quickScan p => p.rank
  | .quickOpen p => p.rank
  | .count | .getState | .testAutoRun | .testSync | .report _ | .delay => 0

theorem opens_init : Opens (some .init) := by decide

theorem opens_run : Opens (some .run) := by decide

theorem opens_connect : Opens (some .connect) := by decide

theorem Leave.step_best (l : Leave) : (l.step q).quick.bestFreq = q.bestFreq := by
  cases l with
  | exit => rfl
  | setAtState => rfl
  | setQcState => rfl

/-- One step less is left when the stack is left. -/
theorem Leave.step_rank (l : Leave) : (l.step q).place.elim 0 Leave.rank + 1 = l.rank := by
  cases l with
  | exit => rfl
  | setAtState => rfl
  | setQcState => rfl

theorem OpenPlace.step_disturbs {p : OpenPlace} (h : ¬ p.FoundNone q.bestFreq) :
    Disturbs (p.step q) ∨ ∃ p', (p.step q).place = some p' ∧
      ¬ p'.FoundNone (p.step q).quick.bestFreq ∧ p'.rank < p.rank := by
  cases p with
  | testQcState =>
    by_cases hexit : q.qcState = .exit
    · refine .inr ⟨.delay, by simp [OpenPlace.step, hexit], h, by decide⟩
    · exact .inr ⟨.leave .exit, by simp [OpenPlace.step, hexit], h, by decide⟩
  | leave l =>
    have hbest : (l.step q).quick.bestFreq = q.bestFreq := l.step_best
    have hrank := l.step_rank (q := q)
    refine .inr ⟨_, rfl, ?_, ?_⟩
    · cases hnext : (l.step q).place with
      | none => exact fun hnone => h (hbest ▸ hnone)
      | some l' => exact fun hnone => h (hbest ▸ hnone)
    · cases hnext : (l.step q).place with
      | none =>
        rw [hnext] at hrank
        simp only [Option.elim_none, OpenPlace.rank] at hrank ⊢
        omega
      | some l' =>
        rw [hnext] at hrank
        simp only [Option.elim_some, OpenPlace.rank] at hrank ⊢
        omega
  | delay => exact .inr ⟨.testBestFreq, rfl, h, by decide⟩
  | testBestFreq => exact .inr ⟨.init, if_pos h, not_false, by decide⟩
  | setFreqInfo => exact .inr ⟨.run, rfl, not_false, by decide⟩
  | registerNormalMsg => exact .inr ⟨.registerStateInfo, rfl, not_false, by decide⟩
  | registerStateInfo => exact .inr ⟨.setAtRun, rfl, not_false, by decide⟩
  | setAtRun => exact .inr ⟨.setQcRun, rfl, not_false, by decide⟩
  | init => exact .inl (.inr opens_init)
  | run => exact .inl (.inr opens_run)
  | connect => exact .inl (.inr opens_connect)
  | setQcInit => exact .inl (.inl nofun)
  | setQcRun => exact .inl (.inl nofun)

theorem ScanPlace.step_disturbs {p : ScanPlace} (h : ¬ p.FoundNone q.bestFreq) :
    Disturbs (p.step found q) ∨
      (∃ p', (p.step found q).place = some p' ∧ ¬ p'.FoundNone (p.step found q).quick.bestFreq ∧
        p'.rank < p.rank) ∨
      (p.step found q).place = none ∧ (p.step found q).quick.bestFreq.freqIdx ≠ 0xFF ∧ 6 < p.rank := by
  cases p with
  | testQcState =>
    by_cases hexit : q.qcState = .exit
    · exact .inr (.inl ⟨.init, by simp [ScanPlace.step, hexit], not_false, by decide⟩)
    · exact .inr (.inl ⟨.leaveOld .exit, by simp [ScanPlace.step, hexit], not_false, by decide⟩)
  | leaveOld l =>
    have hrank := l.step_rank (q := q)
    refine .inr (.inl ⟨_, rfl, ?_, ?_⟩)
    · cases (l.step q).place with
      | none => exact not_false
      | some l' => exact not_false
    · cases hnext : (l.step q).place with
      | none =>
        rw [hnext] at hrank
        simp only [Option.elim_none, ScanPlace.rank] at hrank ⊢
        omega
      | some l' =>
        rw [hnext] at hrank
        simp only [Option.elim_some, ScanPlace.rank] at hrank ⊢
        omega
  | init => exact .inl (.inr opens_init)
  | setQcInit => exact .inl (.inl nofun)
  | clrBestFreq => exact .inr (.inl ⟨.configure configCalls, rfl, not_false, by decide⟩)
  | configure left =>
    cases left with
    | nil => exact .inr (.inl ⟨.run, rfl, not_false, by decide⟩)
    | cons c left => exact .inr (.inl ⟨.configure left, rfl, not_false, Nat.lt_succ_self _⟩)
  | run => exact .inl (.inr opens_run)
  | setAtRun => exact .inr (.inl ⟨.setQcRun, rfl, not_false, by decide⟩)
  | setQcRun => exact .inl (.inl nofun)
  | getConfig => exact .inr (.inl ⟨.scanFreq, rfl, not_false, by decide⟩)
  | scanFreq =>
    refine .inr (.inl ⟨.useResults (found.scan.getD []), rfl, ?_, by decide⟩)
    intro hnone
    rw [ScanPlace.FoundNone, useResult_found] at hnone
    cases hnone
  | useResults left =>
    cases left with
    | nil => exact .inr (.inl ⟨.leave .exit, rfl, h, by decide⟩)
    | cons r left => exact .inr (.inl ⟨.useResults left, rfl, h, Nat.lt_succ_self _⟩)
  | leave l =>
    have hbest : (l.step q).quick.bestFreq = q.bestFreq := l.step_best
    have hrank := l.step_rank (q := q)
    cases hnext : (l.step q).place with
    | none =>
      rw [hnext] at hrank
      refine .inr (.inr ⟨by simp [ScanPlace.step, hnext], fun hnone => h (hbest ▸ hnone), ?_⟩)
      simp only [Option.elim_none, ScanPlace.rank] at hrank ⊢
      omega
    | some l' =>
      rw [hnext] at hrank
      refine .inr (.inl ⟨.leave l', by simp [ScanPlace.step, hnext], fun hnone => h (hbest ▸ hnone), ?_⟩)
      simp only [Option.elim_some, ScanPlace.rank] at hrank ⊢
      omega

/-- A task that is not idle disturbs with its next step, or is one step nearer to that. -/
theorem Task.step_disturbs (h : ¬ t.place.Idle q.bestFreq) :
    Disturbs (t.step found q) ∨ ¬ (t.step found q).place.place.Idle (t.step found q).quick.bestFreq ∧
      (t.step found q).place.place.rank < t.place.rank := by
  cases hp : t.place with
  | quickScan p =>
    rw [hp] at h
    rw [Task.step_quickScan hp]
    rcases ScanPlace.step_disturbs h with hdist | ⟨p', hnext, hnot, hrank⟩ | ⟨hnext, hbest, hrank⟩
    · exact .inl hdist
    · refine .inr ⟨?_, ?_⟩
      · rw [Step.map_place, hnext]
        exact hnot
      · rw [Step.map_place, hnext]
        exact hrank
    · refine .inr ⟨?_, ?_⟩
      · rw [Step.map_place, hnext]
        exact hbest
      · rw [Step.map_place, hnext]
        exact hrank
  | quickOpen p =>
    rw [hp] at h
    rw [Task.step_quickOpen hp]
    rcases OpenPlace.step_disturbs h with hdist | ⟨p', hnext, hnot, hrank⟩
    · exact .inl hdist
    · refine .inr ⟨?_, ?_⟩
      · rw [Step.map_place, hnext]
        exact hnot
      · rw [Step.map_place, hnext]
        exact hrank
  | count | getState | testAutoRun | testSync | report | delay =>
    rw [hp] at h
    exact absurd trivial h

theorem Leave.step_autoRun (l : Leave) : (l.step q).quick.autoRun = q.autoRun := by
  cases l with
  | exit => rfl
  | setAtState => rfl
  | setQcState => rfl

/-- The task only reads the flag. -/
theorem Task.step_autoRun : (t.step a q).quick.autoRun = q.autoRun := by
  cases hp : t.place with
  | quickScan p =>
    rw [Task.step_quickScan hp, Step.map_quick]
    cases p with
    | leaveOld l => exact l.step_autoRun
    | leave l => exact l.step_autoRun
    | configure left =>
      cases left with
      | nil => rfl
      | cons c left => rfl
    | useResults left =>
      cases left with
      | nil => rfl
      | cons r left => rfl
    | testQcState | init | setQcInit | clrBestFreq | run | setAtRun | setQcRun | getConfig | scanFreq => rfl
  | quickOpen p =>
    rw [Task.step_quickOpen hp, Step.map_quick]
    cases p with
    | leave l => exact l.step_autoRun
    | testQcState | delay | testBestFreq | init | setQcInit | setFreqInfo | run | registerNormalMsg
    | registerStateInfo | setAtRun | setQcRun | connect => rfl
  | report left =>
    cases left with
    | nil => rw [Task.step, hp]
    | cons c left => rw [Task.step, hp]
  | count | getState | testAutoRun | testSync | delay => rw [Task.step, hp]

end Task

section Close

variable {q : Quick} {c : ClosePlace}

theorem ClosePlace.step_autoRun (h : c ≠ .clrAutoRun → q.autoRun = false) :
    (c.step q).quick.autoRun = false := by
  cases c with
  | clrAutoRun => rfl
  | testQcState => exact h nofun
  | leave l => exact l.step_autoRun.trans (h nofun)
  | delay => exact h nofun

theorem ClosePlace.step_qcState (h : q.qcState = .exit) : (c.step q).quick.qcState = .exit := by
  cases c with
  | clrAutoRun => exact h
  | testQcState => exact h
  | leave l => exact (l.step_harmless h).qcState
  | delay => exact h

theorem ClosePlace.step_best : (c.step q).quick.bestFreq = q.bestFreq := by
  cases c with
  | clrAutoRun => rfl
  | testQcState => rfl
  | leave l => exact l.step_best
  | delay => rfl

/-- A stop returns with its delay, or with its test where it finds `QC_EXIT`. -/
theorem ClosePlace.step_none_iff :
    (c.step q).place = none ↔ c = .delay ∨ c = .testQcState ∧ q.qcState = .exit := by
  cases c with
  | clrAutoRun => simp [ClosePlace.step]
  | testQcState => simp [ClosePlace.step]
  | leave l => simp [ClosePlace.step]
  | delay => simp [ClosePlace.step]

end Close

end WiotaDev.QuickConnect

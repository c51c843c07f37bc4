import WiotaDev.FrequencyList

/-! # Quick connect, step by step (`quick_connect.c`)

`quick_connect_task` and the caller of `wiota_quick_connect_start` and `wiota_quick_connect_stop` run side
by side. Every call of the stack, every access of a state or of the flag and every delay is one step, and a
place says what the next step of the task or of the caller is. -/

namespace WiotaDev.QuickConnect
open WordBytes
open AutoManager (FreqScanResult)

/-- The functions of the stack that quick connect calls, without their `uc_wiota_`. -/
inductive Call where
  | init | run | exit | connect
  | getState | setFreqInfo | getSystemConfig | setSystemConfig | saveStaticInfo | getModuleId
  | setUserid | getUserid | scanFreq | registerRecvDataCallback | setCurPower | setDataRate
deriving DecidableEq

/-- `uc_wiota_status_e`. -/
inductive Status where
  | null | sync | syncLost | error
deriving DecidableEq

/-- `at_wiota_state_e`. -/
inductive AtState where
  | default | init | run | exit
deriving DecidableEq

/-- `e_qc_state`. -/
inductive QcState where
  | default | init | run | exit
deriving DecidableEq

def QC_MODE_MAX : ℕ := 5

/-- What the task and its callers share: `wiota_state` of the AT commands, `qc_wiota_state`,
`qc_auto_run` and `best_freq`. -/
structure Quick where
  atState : AtState
  qcState : QcState
  autoRun : Bool
  bestFreq : FreqScanResult
deriving DecidableEq

/-- What the calls of the stack answer: its state, the results of a scan that succeeds, and whether a
frequency is accepted. -/
structure Answers where
  state : Status
  scan : Option (List FreqScanResult)
  freqInfo : Bool

/-- `quick_clr_best_freq`. -/
def quickClrBestFreq : FreqScanResult :=
  { freqIdx := 0xFF, snr := BitVec.ofInt 8 (-126), rssi := BitVec.ofInt 8 (-126), isSynced := 0
    subSysId := 0 }

/-- What the loop of `quick_freq_scan_op` does with a result. -/
def useResult (best result : FreqScanResult) : FreqScanResult :=
  if result.isSynced = 1 ∧ best.rssi.sle result.rssi ∧ result.rssi ≠ BitVec.ofInt 8 (-126) then result
  else best

/-- A step with the call that it makes and the place behind it. -/
structure Step (π : Type) where
  made : Option Call
  quick : Quick
  place : π

namespace Step

variable {π ρ : Type}

def map (f : π → ρ) (s : Step π) : Step ρ := { made := s.made, quick := s.quick, place := f s.place }

@[simp] theorem map_made (f : π → ρ) (s : Step π) : (s.map f).made = s.made := rfl
@[simp] theorem map_quick (f : π → ρ) (s : Step π) : (s.map f).quick = s.quick := rfl
@[simp] theorem map_place (f : π → ρ) (s : Step π) : (s.map f).place = f s.place := rfl

end Step

section Places

/-- `uc_wiota_exit`, `at_wiota_set_state(AT_WIOTA_EXIT)` and `set_qc_wiota_state(QC_EXIT)`, which stand
together wherever quick connect leaves the stack. -/
inductive Leave where
  | exit | setAtState | setQcState
deriving DecidableEq

/-- `quick_scan`. With no call left to configure the stack it waits for 50 ms. -/
inductive ScanPlace where
  | testQcState
  | leaveOld (l : Leave)
  | init
  | setQcInit
  | clrBestFreq
  | configure (left : List Call)
  | run
  | setAtRun
  | setQcRun
  | getConfig
  | scanFreq
  | useResults (left : List FreqScanResult)
  | leave (l : Leave)
deriving DecidableEq

/-- `quick_open_wiota` behind its `quick_scan`. -/
inductive OpenPlace where
  | testQcState
  | leave (l : Leave)
  | delay
  | testBestFreq
  | init
  | setQcInit
  | setFreqInfo
  | run
  | registerNormalMsg
  | registerStateInfo
  | setAtRun
  | setQcRun
  | connect
deriving DecidableEq

/-- `quick_connect_task`. -/
inductive Place where
  | count
  | getState
  | testAutoRun
  | quickScan (p : ScanPlace)
  | quickOpen (p : OpenPlace)
  | testSync
  | report (left : List Call)
  | delay
deriving DecidableEq

/-- The part that `wiota_quick_connect_start` and `wiota_quick_connect_stop` share. -/
inductive ClosePlace where
  | clrAutoRun
  | testQcState
  | leave (l : Leave)
  | delay
deriving DecidableEq

/-- A call of `wiota_quick_connect_start` or of `wiota_quick_connect_stop`. -/
inductive CallerPlace where
  | setFreqInfo
  | start (c : ClosePlace)
  | clrBestFreq
  | setAutoRun
  | stop (c : ClosePlace)
deriving DecidableEq

end Places

def Leave.step : Leave → Quick → Step (Option Leave)
  | .exit, q => { made := some .exit, quick := q, place := some .setAtState }
  | .setAtState, q => { made := none, quick := { q with atState := .exit }, place := some .setQcState }
  | .setQcState, q => { made := none, quick := { q with qcState := .exit }, place := none }

/-- The calls that `quick_scan` makes to configure the stack. -/
def configCalls : List Call :=
  [.getSystemConfig, .setSystemConfig, .saveStaticInfo, .getModuleId, .setUserid, .getUserid]

/-- `quick_scan`; no place is left where it returns. -/
def ScanPlace.step (a : Answers) : ScanPlace → Quick → Step (Option ScanPlace)
  | .testQcState, q =>
    { made := none, quick := q, place := some (if q.qcState ≠ .exit then .leaveOld .exit else .init) }
  | .leaveOld l, q => (l.step q).map fun l' => some (l'.elim .init .leaveOld)
  | .init, q => { made := some .init, quick := q, place := some .setQcInit }
  | .setQcInit, q => { made := none, quick := { q with qcState := .init }, place := some .clrBestFreq }
  | .clrBestFreq, q =>
    { made := none, quick := { q with bestFreq := quickClrBestFreq }
      place := some (.configure configCalls) }
  | .configure (c :: left), q => { made := some c, quick := q, place := some (.configure left) }
  | .configure [], q => { made := none, quick := q, place := some .run }
  | .run, q => { made := some .run, quick := q, place := some .setAtRun }
  | .setAtRun, q => { made := none, quick := { q with atState := .run }, place := some .setQcRun }
  | .setQcRun, q => { made := none, quick := { q with qcState := .run }, place := some .getConfig }
  | .getConfig, q => { made := some .getSystemConfig, quick := q, place := some .scanFreq }
  | .scanFreq, q =>
    { made := some .scanFreq, quick := q, place := some (.useResults (a.scan.getD [])) }
  | .useResults (r :: left), q =>
    { made := none, quick := { q with bestFreq := useResult q.bestFreq r }
      place := some (.useResults left) }
  | .useResults [], q => { made := none, quick := q, place := some (.leave .exit) }
  | .leave l, q => (l.step q).map fun l' => l'.map .leave

/-- `quick_open_wiota`; no place is left where it returns. -/
def OpenPlace.step : OpenPlace → Quick → Step (Option OpenPlace)
  | .testQcState, q =>
    { made := none, quick := q, place := some (if q.qcState ≠ .exit then .leave .exit else .delay) }
  | .leave l, q => (l.step q).map fun l' => some (l'.elim .delay .leave)
  | .delay, q => { made := none, quick := q, place := some .testBestFreq }
  | .testBestFreq, q =>
    { made := none, quick := q, place := if q.bestFreq.freqIdx ≠ 0xFF then some .init else none }
  | .init, q => { made := some .init, quick := q, place := some .setQcInit }
  | .setQcInit, q => { made := none, quick := { q with qcState := .init }, place := some .setFreqInfo }
  | .setFreqInfo, q => { made := some .setFreqInfo, quick := q, place := some .run }
  | .run, q => { made := some .run, quick := q, place := some .registerNormalMsg }
  | .registerNormalMsg, q =>
    { made := some .registerRecvDataCallback, quick := q, place := some .registerStateInfo }
  | .registerStateInfo, q =>
    { made := some .registerRecvDataCallback, quick := q, place := some .setAtRun }
  | .setAtRun, q => { made := none, quick := { q with atState := .run }, place := some .setQcRun }
  | .setQcRun, q => { made := none, quick := { q with qcState := .run }, place := some .connect }
  | .connect, q => { made := some .connect, quick := q, place := none }

/-- The variables of `quick_connect_task` and its place. -/
structure Task where
  place : Place
  cnt : BitVec 32
  wiotaState : Status
  connectFlag : Bool
deriving DecidableEq

/-- `quick_connect_task`. -/
def Task.step (a : Answers) (t : Task) (q : Quick) : Step Task :=
  match t.place with
  | .count =>
    { made := none, quick := q
      place := { t with
        cnt := t.cnt + 1, place := if (t.cnt + 1).umod 10 = 0 then .getState else .delay } }
  | .getState =>
    { made := some .getState, quick := q
      place := { t with wiotaState := a.state, place := .testAutoRun } }
  | .testAutoRun =>
    { made := none, quick := q
      place := { t with place :=
        if t.wiotaState ≠ .sync ∧ q.autoRun then .quickScan .testQcState else .testSync } }
  | .quickScan p =>
    (p.step a q).map fun p' => { t with place := p'.elim (.quickOpen .testQcState) .quickScan }
  | .quickOpen p => (p.step q).map fun p' => { t with place := p'.elim .testSync .quickOpen }
  | .testSync =>
    { made := none, quick := q
      place := { t with
        connectFlag := t.wiotaState = .sync
        place := .report (if t.wiotaState = .sync ∧ !t.connectFlag ∧ q.autoRun then
          [.setCurPower, .setDataRate, .getUserid] else []) } }
  | .report (c :: left) => { made := some c, quick := q, place := { t with place := .report left } }
  | .report [] => { made := none, quick := q, place := { t with cnt := t.cnt + 1, place := .delay } }
  | .delay => { made := none, quick := q, place := { t with place := .count } }

theorem Task.step_quickScan {a : Answers} {t : Task} {p : ScanPlace} (h : t.place = .quickScan p)
    (q : Quick) :
    t.step a q =
      (p.step a q).map fun p' => { t with place := p'.elim (.quickOpen .testQcState) .quickScan } := by
  rw [Task.step, h]

theorem Task.step_quickOpen {a : Answers} {t : Task} {p : OpenPlace} (h : t.place = .quickOpen p)
    (q : Quick) :
    t.step a q = (p.step q).map fun p' => { t with place := p'.elim .testSync .quickOpen } := by
  rw [Task.step, h]

/-- What `wiota_quick_connect_start` and `wiota_quick_connect_stop` do first. -/
def ClosePlace.step : ClosePlace → Quick → Step (Option ClosePlace)
  | .clrAutoRun, q => { made := none, quick := { q with autoRun := false }, place := some .testQcState }
  | .testQcState, q =>
    { made := none, quick := q, place := if q.qcState ≠ .exit then some (.leave .exit) else none }
  | .leave l, q => (l.step q).map fun l' => some (l'.elim .delay .leave)
  | .delay, q => { made := none, quick := q, place := none }

/-- `wiota_quick_connect_start` behind its check of the mode, and `wiota_quick_connect_stop`; no place is
left where they return. -/
def CallerPlace.step (a : Answers) : CallerPlace → Quick → Step (Option CallerPlace)
  | .setFreqInfo, q =>
    { made := some .setFreqInfo, quick := q
      place := if a.freqInfo then some (.start .clrAutoRun) else none }
  | .start c, q => (c.step q).map fun c' => some (c'.elim .clrBestFreq .start)
  | .clrBestFreq, q =>
    { made := none, quick := { q with bestFreq := quickClrBestFreq }, place := some .setAutoRun }
  | .setAutoRun, q => { made := none, quick := { q with autoRun := true }, place := none }
  | .stop c, q => (c.step q).map fun c' => c'.map .stop

/-- The initial values of the variables. -/
def Quick.boot : Quick where
  atState := .default
  qcState := .exit
  autoRun := false
  bestFreq := { freqIdx := 0, snr := 0, rssi := 0, isSynced := 0, subSysId := 0 }

def Task.boot : Task where
  place := .count
  cnt := 0
  wiotaState := .null
  connectFlag := false

end WiotaDev.QuickConnect

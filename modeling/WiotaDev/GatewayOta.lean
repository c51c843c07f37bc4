import WiotaDev.BitArray
import WiotaDev.OtaFlash
import WiotaDev.HaltingRuns

/-! # The OTA part of the gateway task (`uc_wiota_gateway_api.c`)

The handlers of the OTA messages over the OTA fields of `gateway_mode`, the flash and a
history of the calls they make. A text copied over the end of its member and a bit set behind
`mask_map` go into the members behind them, as far as `gateway_mode` reaches. A step halts where
the device cannot go on as a program: an erase or a check that never ends, and the jump to the
new program. -/

namespace WiotaDev.GatewayOta
open WordBytes OtaFlash HaltingRuns

def GATEWAY_OTA_BLOCK_SIZE : ℕ := 512
def APP_MAX_MISSING_DATA_BLOCK_NUM : ℕ := 16

/-- `uc_gateway_ota_state_t`, and the values of its four bytes besides its names. -/
inductive OtaState where
  | default
  | download
  | program
  | stop
  | other (value : BitVec 32) (beyond : 4 ≤ value.toNat)
  deriving DecidableEq, Repr

def OtaState.toWord : OtaState → BitVec 32
  | default => 0#32
  | download => 1#32
  | program => 2#32
  | stop => 3#32
  | other value _ => value

def OtaState.ofWord (value : BitVec 32) : OtaState :=
  if beyond : 4 ≤ value.toNat then .other value beyond
  else if value = 0#32 then .default
  else if value = 1#32 then .download
  else if value = 2#32 then .program
  else .stop

/-- `ota_dev_type`. -/
inductive OtaDevType where
  | iote
  | exMcu
  deriving DecidableEq, Repr

/-- `ota_dl_state`. -/
inductive OtaDlState where
  | default
  | downloading
  | downloadCmp
  deriving DecidableEq, Repr

/-- `uc_gw_connect_e`, of `wiota_gw_connect_flag`. -/
inductive ConnectFlag where
  | noConnect
  | attemptConnect
  | connectFail
  | connectSucess
  | disconnect
  deriving DecidableEq, Repr

/-- `uc_gatway_mode_e`, and the values besides its names. -/
inductive GatwayMode where
  | gateway
  | transmission
  | timeSlot
  | other
  deriving DecidableEq, Repr

/-- The text that some bytes begin with, up to their first zero. -/
def cText (bytes : List Byte) : List Byte := bytes.takeWhile (· ≠ 0#8)

/-- The text in a character array. -/
def textOf {n : ℕ} (chars : Vector Byte n) : List Byte := cText chars.toList

/-- `rt_strncmp(a, b, rt_strlen(b)) == 0`. -/
def rtStrncmp (a b : List Byte) : Bool := b.isPrefixOf a

/-- `rt_strncpy(dst, src, rt_strlen(src))`: the bytes of `dst` behind the text stay. -/
def rtStrncpy {n : ℕ} (dst : Vector Byte n) (src : List Byte) : Vector Byte n :=
  Vector.ofFn fun i => src.getD i dst[i]

/-- `"ex_mcu"`. -/
def EXTERN_MCU : List Byte := [0x65, 0x78, 0x5f, 0x6d, 0x63, 0x75]

/-- `gateway_mode.device_type`, `"iote"`. -/
def DEVICE_TYPE : List Byte := [0x69, 0x6f, 0x74, 0x65]

/-- `app_ps_ota_upgrade_req_t`. A write can read past the `data` array, so `data i` is
the byte at distance `i` behind its start. -/
structure OtaUpgradeReq where
  upgradeType : BitVec 32
  upgradeRange : BitVec 32
  ioteList : Vector (BitVec 32) 8
  newVersion : Vector Byte 16
  oldVersion : Vector Byte 16
  md5 : Vector Byte 36
  fileSize : BitVec 32
  upgradeTime : BitVec 32
  deviceType : Vector Byte 12
  dataOffset : BitVec 32
  dataLength : BitVec 16
  packetType : BitVec 16
  mcsLen : BitVec 16
  upgradeNum : BitVec 16
  data : ℕ → Byte

/-- `app_ps_ota_upgrade_state_t`. -/
structure OtaUpgradeState where
  upgradeType : BitVec 32
  newVersion : Vector Byte 16
  oldVersion : Vector Byte 16
  deviceType : Vector Byte 12
  processState : BitVec 32

/-- `app_ps_iote_missing_data_req_t`, with as many offsets and lengths as are set. `newVersion` is
copied behind them: a text longer than its 16 characters stands over the members behind it. -/
structure MissingDataReq where
  deviceType : List Byte
  newVersion : List Byte
  oldVersion : List Byte
  upgradeType : Byte
  missDataOffset : List ℕ
  missDataLength : List ℕ

/-- Sizes from `get_partition_size`: whole sectors whose sums are `int` values. -/
structure Partition where
  binSize : ℕ
  reservedSize : ℕ
  otaSize : ℕ
  bin_aligned : binSize % 4096 = 0
  reserved_aligned : reservedSize % 4096 = 0
  ota_aligned : otaSize % 4096 = 0
  total_lt : binSize + reservedSize + otaSize < 2 ^ 31

/-- What the handlers read from the rest of the device; the version is a printable text. -/
structure Env where
  part : Partition
  devAddress : BitVec 32
  version : List Byte
  version_printable : ∀ c ∈ version, 0x20#8 ≤ c
  version_pos : 0 < version.length
  version_lt : version.length < 16
  frameLen : ℕ
  userid : BitVec 32
  md : TinyMd5

/-- The members of `gateway_mode` from `new_version` on with the OTA flags before them, and
`miss_data_continue_couter`. Nothing but a text or a bit that overruns changes `na2` and
`devAddress`. -/
structure OtaPara where
  otaDevType : OtaDevType
  otaDlState : OtaDlState
  newVersion : Vector Byte 16
  otaState : OtaState
  upgradeType : Byte
  missDataNum : Byte
  missDataInvalidReq : Byte
  na2 : Byte
  blockCount : ℕ
  blockSize : ℕ
  maskMap : Vector Byte 28
  mcsLen : BitVec 16
  upgradeNum : BitVec 16
  devAddress : BitVec 32
  otaRecvedLen : ℕ
  binAddr : ℕ
  missDataContinueCouter : Byte

/-- Calls and messages of the handlers that the history records. -/
inductive OtaCall where
  | stopOtaTimer
  | controlOtaTimer (timeout : ℕ)
  | exceReportUpgrade
  | exceReportPrograming
  | flashErase (startAddr eraseSize : ℕ)
  | flashWrite (flashAddr length : ℕ) (ret : ℤ)
  | otaDataRecvEnd
  | checkFlashData (rc : ℤ)
  | exMcu (addr size : ℕ)
  | jumpProgram (fileSize : ℕ) (upgradeType : Byte)
  | missDataReq (req : MissingDataReq)

/-- `calls` is the history, newest first; `mapIndices` are the indices at which
`mask_map` was accessed, newest first. -/
structure World where
  ota : OtaPara
  flash : Flash
  calls : List OtaCall
  mapIndices : List ℕ
  connectFlag : ConnectFlag

/-- Why a handler does not come back. -/
inductive HaltReason where
  | eraseNeverEnds
  | checkNeverEnds
  | programJump
  deriving DecidableEq, Repr

abbrev Step := Outcome HaltReason World

def World.call (c : OtaCall) (w : World) : World := { w with calls := c :: w.calls }

/-- The history after the rounds `0, ..., n - 1` of a loop over the blocks. -/
def World.scan (n : ℕ) (w : World) : World :=
  { w with mapIndices := ((List.range n).map (· / 8)).reverse ++ w.mapIndices }

/-- `JUDGMENT_BIT(mask_map[offset / 8], offset % 8)`. Behind the map it reads the members from
`mcs_len` on, and behind `gateway_mode` it reads `ram`. -/
def judgmentBit (ram : ℕ → Byte) (ota : OtaPara) (offset : ℕ) : Bool :=
  if offset < 224 then BitArray.test ota.maskMap offset
  else if offset < 240 then ota.mcsLen.getLsbD (offset - 224)
  else if offset < 256 then ota.upgradeNum.getLsbD (offset - 240)
  else if offset < 288 then ota.devAddress.getLsbD (offset - 256)
  else if offset < 320 then ota.otaRecvedLen.testBit (offset - 288)
  else if offset < 352 then ota.binAddr.testBit (offset - 320)
  else (ram (offset / 8)).getLsbD (offset % 8)

/-- `SET_BIT(mask_map[offset / 8], offset % 8)`, as far as it changes `gateway_mode`. -/
def OtaPara.setBit (offset : ℕ) (ota : OtaPara) : OtaPara :=
  if offset < 224 then { ota with maskMap := BitArray.mark ota.maskMap offset }
  else if offset < 240 then { ota with mcsLen := ota.mcsLen ||| 1#16 <<< (offset - 224) }
  else if offset < 256 then { ota with upgradeNum := ota.upgradeNum ||| 1#16 <<< (offset - 240) }
  else if offset < 288 then { ota with devAddress := ota.devAddress ||| 1#32 <<< (offset - 256) }
  else if offset < 320 then { ota with otaRecvedLen := ota.otaRecvedLen ||| 1 <<< (offset - 288) }
  else if offset < 352 then { ota with binAddr := ota.binAddr ||| 1 <<< (offset - 320) }
  else ota

/-- The same `SET_BIT` on the memory behind `gateway_mode`. -/
def setRam (offset : ℕ) (ram : ℕ → Byte) : ℕ → Byte :=
  fun i => if i = offset / 8 then ram i ||| 1#8 <<< (offset % 8) else ram i

def ucGatewayStopOtaTimer (w : World) : World := w.call .stopOtaTimer

def ucGatewayControlOtaTimer (timeout : ℕ) (w : World) : World := w.call (.controlOtaTimer timeout)

/-- `uc_gateway_calc_single_otapage_time`; the division of this processor by zero yields -1. -/
def ucGatewayCalcSingleOtapageTime (env : Env) (w : World) : ℕ :=
  let pages :=
    if w.ota.mcsLen = 0#16 then 0 else (GATEWAY_OTA_BLOCK_SIZE + 150) / w.ota.mcsLen.toNat + 1
  (((pages / 7 + 1) * env.frameLen % 2 ^ 32 / 1000 + 1) * 3) % 2 ^ 32

/-- `uc_gateway_get_miss_data_timeout`. -/
def ucGatewayGetMissDataTimeout (env : Env) (w : World) : ℕ :=
  let gwTimeout := ucGatewayCalcSingleOtapageTime env w * 3 % 2 ^ 32
  let timeout := (env.userid.toNat % 16 + 1) * 1000
  timeout % gwTimeout

/-- `uc_gateway_clear_state`. -/
def ucGatewayClearState (w : World) : World :=
  if w.ota.otaState ≠ .default then
    ucGatewayStopOtaTimer
      { w with ota := { w.ota with
          otaState := .default, upgradeNum := 0#16, maskMap := BitArray.clear 28 } }
  else w

/-- `uc_wiota_gateway_clear_ota_state`. -/
def ucWiotaGatewayClearOtaState (w : World) : World :=
  { w with ota := { w.ota with
      otaDevType := .iote, otaDlState := .default, otaRecvedLen := 0, binAddr := 0 } }

/-- A 32-bit member `k` bytes behind `new_version` after `text` is copied there. -/
def overNat (text : List Byte) (k n : ℕ) : ℕ :=
  if text.length ≤ k then n else (overWord text k (BitVec.ofNat 32 n)).toNat

/-- `rt_strncpy(gateway_mode.new_version, text, rt_strlen(text))`. A text longer than the member
goes on over those behind it. -/
def OtaPara.copyVersion (text : List Byte) (ota : OtaPara) : OtaPara :=
  { ota with
    newVersion := rtStrncpy ota.newVersion text
    otaState := .ofWord (overWord text 16 ota.otaState.toWord)
    upgradeType := text.getD 20 ota.upgradeType
    missDataNum := text.getD 21 ota.missDataNum
    missDataInvalidReq := text.getD 22 ota.missDataInvalidReq
    na2 := text.getD 23 ota.na2
    blockCount := overNat text 24 ota.blockCount
    blockSize := overNat text 28 ota.blockSize
    maskMap := rtStrncpy ota.maskMap (text.drop 32)
    mcsLen := overHalf text 60 ota.mcsLen
    upgradeNum := overHalf text 62 ota.upgradeNum
    devAddress := overWord text 64 ota.devAddress
    otaRecvedLen := overNat text 68 ota.otaRecvedLen
    binAddr := overNat text 72 ota.binAddr }

/-- The text at `new_version`: behind a version that fills its member stand the members behind it. -/
def OtaPara.versionText (ota : OtaPara) : List Byte :=
  cText <| ota.newVersion.toList ++ bytesOf ota.otaState.toWord ++
    [ota.upgradeType, ota.missDataNum, ota.missDataInvalidReq, ota.na2] ++
    bytesOf (BitVec.ofNat 32 ota.blockCount) ++ bytesOf (BitVec.ofNat 32 ota.blockSize) ++
    ota.maskMap.toList ++ halfBytesOf ota.mcsLen ++ halfBytesOf ota.upgradeNum ++
    bytesOf ota.devAddress ++ bytesOf (BitVec.ofNat 32 ota.otaRecvedLen) ++
    bytesOf (BitVec.ofNat 32 ota.binAddr)

/-- The text at `new_version` of a request, as far as `data`. -/
def OtaUpgradeReq.versionText (req : OtaUpgradeReq) : List Byte :=
  cText <| req.newVersion.toList ++ req.oldVersion.toList ++ req.md5.toList ++
    bytesOf req.fileSize ++ bytesOf req.upgradeTime ++ req.deviceType.toList ++
    bytesOf req.dataOffset ++ halfBytesOf req.dataLength ++ halfBytesOf req.packetType ++
    halfBytesOf req.mcsLen ++ halfBytesOf req.upgradeNum

/-- The text at `new_version` of a state message. -/
def OtaUpgradeState.versionText (msg : OtaUpgradeState) : List Byte :=
  cText <| msg.newVersion.toList ++ msg.oldVersion.toList ++ msg.deviceType.toList ++
    bytesOf msg.processState

/-- The device type of the request names an external MCU. -/
def OtaUpgradeReq.isExMcu (req : OtaUpgradeReq) : Bool := req.deviceType.toList.take 6 = EXTERN_MCU

def OtaUpgradeReq.writeAddr (env : Env) (req : OtaUpgradeReq) : ℕ :=
  if req.isExMcu then env.part.binSize else env.part.binSize + env.part.reservedSize

def OtaUpgradeReq.maxSize (env : Env) (req : OtaUpgradeReq) : ℕ :=
  if req.isExMcu then env.part.otaSize + env.part.reservedSize else env.part.otaSize

/-- The old version and device type of the request are those of this device. -/
def OtaUpgradeReq.versionMatches (env : Env) (req : OtaUpgradeReq) : Bool :=
  rtStrncmp env.version (textOf req.oldVersion) && rtStrncmp DEVICE_TYPE (textOf req.deviceType)

/-- The range part of `uc_wiota_gateway_check_if_upgrade_required`. -/
def checkUpgradeRange (env : Env) (req : OtaUpgradeReq) (w : World) : Bool × World :=
  if req.upgradeRange = 1#32 then
    if env.devAddress ∈ req.ioteList.toList then
      (true, if w.ota.otaState = .stop then
        { w with ota := { w.ota with otaState := .default } } else w)
    else (false, w)
  else (decide (req.upgradeRange = 0#32 ∧ w.ota.otaState ≠ .stop), w)

/-- The state part of `uc_wiota_gateway_check_if_upgrade_required`. -/
def checkUpgradeState (req : OtaUpgradeReq) (w : World) : Bool × World :=
  match w.ota.otaState with
  | .default =>
    if (if req.isExMcu then w.ota.otaDlState = .default
        else w.ota.upgradeNum = 0#16 ∧ req.packetType = 0#16) then
      (true, { w with ota := { w.ota with upgradeNum := req.upgradeNum } })
    else (false, w)
  | .download =>
    if w.ota.upgradeNum ≠ req.upgradeNum then
      let w := ucGatewayClearState w
      (true, { w with ota := { w.ota with upgradeNum := req.upgradeNum } })
    else (true, w)
  | _ => (false, w)

/-- `uc_wiota_gateway_check_if_upgrade_required`. -/
def ucWiotaGatewayCheckIfUpgradeRequired (env : Env) (req : OtaUpgradeReq) (w : World) :
    Bool × World :=
  let (isUpgradeRange, w) := checkUpgradeRange env req w
  if isUpgradeRange && (req.isExMcu || req.versionMatches env) then checkUpgradeState req w
  else (false, w)

/-- `block_count`, from the signed file size. -/
def OtaUpgradeReq.blockCount (req : OtaUpgradeReq) : ℕ :=
  let count := (BitVec.ofInt 32 (req.fileSize.toInt.tdiv 512)).toNat
  if req.fileSize.toInt.tmod 512 ≠ 0 then (count + 1) % 2 ^ 32 else count

/-- `offset` of the received block, from the signed data offset. -/
def OtaUpgradeReq.block (req : OtaUpgradeReq) : ℕ :=
  (BitVec.ofInt 32 (req.dataOffset.toInt.tdiv 512)).toNat

/-- The start of a download in `uc_wiota_gateway_ota_upgrade_res_msg`. -/
def startDownload (env : Env) (req : OtaUpgradeReq) (w : World) : Step :=
  let writeAddr := req.writeAddr env
  let w := { w with ota := { w.ota with
    mcsLen := req.mcsLen, blockSize := GATEWAY_OTA_BLOCK_SIZE, blockCount := req.blockCount } }
  let (flash, returns) := ucWiotaOtaFlashErase writeAddr req.fileSize.toNat w.flash
  let w := { w with flash := flash }.call (.flashErase writeAddr req.fileSize.toNat)
  if returns then
    let w := { w with ota := { w.ota with
      binAddr := writeAddr, otaState := .download, otaDlState := .downloading,
      upgradeType := req.upgradeType.setWidth 8 } }
    let w := { w with ota := w.ota.copyVersion req.versionText }
    .next ((ucGatewayControlOtaTimer req.upgradeTime.toNat w).call .exceReportUpgrade)
  else .halt .eraseNeverEnds w

/-- The write of a received block whose bit is not set. -/
def writeBlock (env : Env) (req : OtaUpgradeReq) (w : World) : World :=
  let flashAddr := (req.writeAddr env + req.dataOffset.toNat) % 2 ^ 32
  let (ret, flash) := ucWiotaOtaFlashWrite req.data flashAddr req.dataLength.toNat w.flash
  let w := { w with flash := flash }.call (.flashWrite flashAddr req.dataLength.toNat ret)
  let w := { w with ota := w.ota.setBit req.block }
  { w with ota := { w.ota with
    otaRecvedLen := (w.ota.otaRecvedLen + req.dataLength.toNat) % 2 ^ 32 } }

/-- `uc_wiota_gateway_whether_the_ota_upgrade_data_is_recved`. -/
def ucWiotaGatewayWhetherTheOtaUpgradeDataIsRecved (ram : ℕ → Byte) (w : World) : Bool × World :=
  let blockCount := (List.range w.ota.blockCount).countP (judgmentBit ram w.ota)
  let w := w.scan w.ota.blockCount
  if blockCount ≥ w.ota.blockCount then (true, w.call .otaDataRecvEnd) else (false, w)

/-- The end of a download whose data match their digest. -/
def programDownload (env : Env) (req : OtaUpgradeReq) (w : World) : Step :=
  let w := { w with ota := { w.ota with
    otaDlState := .downloadCmp, otaRecvedLen := req.fileSize.toNat, upgradeNum := 0#16 } }
  if req.isExMcu then
    .next ({ w with ota := { w.ota with otaState := .default, maskMap := BitArray.clear 28 } }.call
      (.exMcu (req.writeAddr env) req.fileSize.toNat))
  else
    let w := { w with connectFlag := .disconnect, ota := { w.ota with otaState := .program } }
    .halt .programJump ((w.call .exceReportPrograming).call
      (.jumpProgram req.fileSize.toNat (req.upgradeType.setWidth 8)))

/-- The end of a download: all blocks have their bit. -/
def completeDownload (env : Env) (req : OtaUpgradeReq) (w : World) : Step :=
  let w := ucGatewayStopOtaTimer w
  match ucWiotaOtaCheckFlashData env.md w.flash (req.writeAddr env) req.fileSize.toNat
      req.md5.toList with
  | none => .halt .checkNeverEnds w
  | some rc =>
    let w := w.call (.checkFlashData rc)
    if rc = 0 then programDownload env req w else .next (ucGatewayClearState w)

/-- The reception of a block in state `download`. -/
def receiveBlock (env : Env) (req : OtaUpgradeReq) (ram : ℕ → Byte) (w : World) : Step :=
  let bit := judgmentBit ram w.ota req.block
  let w := { w with mapIndices := req.block / 8 :: w.mapIndices }
  let (ram, w) := if bit then (ram, w) else (setRam req.block ram, writeBlock env req w)
  let (isRecved, w) := ucWiotaGatewayWhetherTheOtaUpgradeDataIsRecved ram w
  if isRecved then completeDownload env req w else .next w

/-- The body of `uc_wiota_gateway_ota_upgrade_res_msg` for a required upgrade. -/
def downloadBlock (env : Env) (req : OtaUpgradeReq) (ram : ℕ → Byte) (w : World) : Step :=
  (if w.ota.otaState = .default then startDownload env req w else .next w).bind fun w =>
    if w.ota.otaState = .download then receiveBlock env req ram w else .next w

def noteDevType (req : OtaUpgradeReq) (w : World) : World :=
  if req.isExMcu then { w with ota := { w.ota with otaDevType := .exMcu } } else w

/-- `uc_wiota_gateway_ota_upgrade_res_msg` up to the upgrade check, with its answer. -/
def admitUpgrade (env : Env) (req : OtaUpgradeReq) (w : World) : Bool × World :=
  let w := noteDevType req w
  if (req.maxSize env : ℤ) < req.fileSize.toInt then (false, w)
  else
    ucWiotaGatewayCheckIfUpgradeRequired env req
      { w with ota := { w.ota with missDataInvalidReq := 0#8 } }

/-- `uc_wiota_gateway_ota_upgrade_res_msg`. -/
def ucWiotaGatewayOtaUpgradeResMsg (env : Env) (req : OtaUpgradeReq) (ram : ℕ → Byte)
    (w : World) : Step :=
  let (isRequired, w) := admitUpgrade env req w
  if isRequired then downloadBlock env req ram w else .next w

/-- `uc_wiota_gateway_ota_upgrade_stop_msg`. -/
def ucWiotaGatewayOtaUpgradeStopMsg (env : Env) (ioteList : Vector (BitVec 32) 16) (w : World) :
    World :=
  if env.devAddress ∈ ioteList.toList then
    let w := if w.ota.otaState = .download then ucGatewayStopOtaTimer w else w
    { w with ota := { w.ota with otaState := .stop } }
  else w

/-- The message is about the running upgrade of this device. -/
def OtaUpgradeState.concerns (env : Env) (msg : OtaUpgradeState) (w : World) : Bool :=
  rtStrncmp (textOf msg.oldVersion) env.version &&
    rtStrncmp msg.versionText w.ota.versionText &&
    rtStrncmp (textOf msg.deviceType) DEVICE_TYPE &&
    msg.upgradeType = w.ota.upgradeType.setWidth 32

/-- `uc_wiota_gateway_ota_upgrade_state_msg`. -/
def ucWiotaGatewayOtaUpgradeStateMsg (env : Env) (msg : OtaUpgradeState) (ram : ℕ → Byte)
    (w : World) : World :=
  if msg.concerns env w ∧ msg.processState = 0#32 ∧ w.ota.otaState = .download then
    let missing := (List.range w.ota.blockCount).countP fun k => !judgmentBit ram w.ota k
    let w := w.scan w.ota.blockCount
    let w := { w with ota := { w.ota with
      missDataNum := w.ota.missDataNum + BitVec.ofNat 8 missing } }
    if w.ota.missDataNum > 0#8 then
      let w := ucGatewayControlOtaTimer (ucGatewayGetMissDataTimeout env w) w
      { w with ota := { w.ota with missDataInvalidReq := 0#8 } }
    else w
  else w

/-- The loop of `uc_wiota_gateway_ota_miss_data_req_msg` from block `offset` on: the
missing blocks it lists and the number of rounds it makes. -/
def missDataLoop (ram : ℕ → Byte) (ota : OtaPara) (offset : ℕ) :
    ℕ → List ℕ → List ℕ × ℕ
  | 0, listed => (listed, offset)
  | rounds + 1, listed =>
    if judgmentBit ram ota offset then missDataLoop ram ota (offset + 1) rounds listed
    else
      let listed := listed ++ [offset]
      if listed.length = APP_MAX_MISSING_DATA_BLOCK_NUM - 1 then (listed, offset + 1)
      else missDataLoop ram ota (offset + 1) rounds listed

/-- `uc_wiota_gateway_ota_miss_data_req_msg`; `sent` is the result of the send. -/
def ucWiotaGatewayOtaMissDataReqMsg (env : Env) (sent : Bool) (ram : ℕ → Byte) (w : World) :
    World :=
  if w.ota.missDataInvalidReq < 8#8 then
    let w := { w with ota := { w.ota with missDataInvalidReq := w.ota.missDataInvalidReq + 1#8 } }
    let (listed, rounds) := missDataLoop ram w.ota 0 w.ota.blockCount []
    let w := (w.scan rounds).call (.missDataReq {
      deviceType := DEVICE_TYPE, newVersion := w.ota.versionText, oldVersion := env.version
      upgradeType := w.ota.upgradeType
      missDataOffset := listed.map fun offset => offset * GATEWAY_OTA_BLOCK_SIZE % 2 ^ 32
      missDataLength := listed.map fun _ => GATEWAY_OTA_BLOCK_SIZE })
    if sent then
      -- `miss_data_num` of the request stands 36 bytes behind its `new_version`
      let missDataNum := overNat w.ota.versionText 36 listed.length
      let timeout := (ucGatewayCalcSingleOtapageTime env w + 1) * (missDataNum + 1) % 2 ^ 32
      let w := ucGatewayControlOtaTimer timeout w
      { w with ota := { w.ota with missDataContinueCouter := 0#8 } }
    else if w.ota.missDataContinueCouter < 3#8 then
      let w := ucGatewayControlOtaTimer (ucGatewayGetMissDataTimeout env w) w
      { w with ota := { w.ota with
        missDataContinueCouter := w.ota.missDataContinueCouter + 1#8 } }
    else
      let w := ucGatewayStopOtaTimer w
      { w with ota := { w.ota with missDataContinueCouter := 0#8 } }
  else ucGatewayStopOtaTimer w

/-- What reaches the OTA part of the task. `ram` is the memory behind `gateway_mode` by the index
in `mask_map`, as the handler finds it. -/
inductive OtaEvent where
  | upgradeReq (req : OtaUpgradeReq) (ram : ℕ → Byte)
  | upgradeStop (ioteList : Vector (BitVec 32) 16)
  | upgradeState (msg : OtaUpgradeState) (ram : ℕ → Byte)
  | missDataReq (sent : Bool) (ram : ℕ → Byte)
  | clearOtaState

/-- One event of the OTA part of the gateway. -/
def otaStep (env : Env) (w : World) : OtaEvent → Step
  | .upgradeReq req ram => ucWiotaGatewayOtaUpgradeResMsg env req ram w
  | .upgradeStop ioteList => .next (ucWiotaGatewayOtaUpgradeStopMsg env ioteList w)
  | .upgradeState msg ram => .next (ucWiotaGatewayOtaUpgradeStateMsg env msg ram w)
  | .missDataReq sent ram => .next (ucWiotaGatewayOtaMissDataReqMsg env sent ram w)
  | .clearOtaState => .next (ucWiotaGatewayClearOtaState w)

/-- `gateway_mode` as `uc_wiota_gateway_start` clears it, in a connected session, over any content
of the flash. -/
def World.boot (flash : Flash) : World where
  ota := {
    otaDevType := .iote, otaDlState := .default, newVersion := Vector.replicate 16 0#8
    otaState := .default, upgradeType := 0#8, missDataNum := 0#8, missDataInvalidReq := 0#8
    na2 := 0#8, blockCount := 0, blockSize := 0, maskMap := BitArray.clear 28, mcsLen := 0#16
    upgradeNum := 0#16, devAddress := 0#32, otaRecvedLen := 0, binAddr := 0
    missDataContinueCouter := 0#8 }
  flash := flash
  calls := []
  mapIndices := []
  connectFlag := .connectSucess

/-- The default split of the 504 KB. -/
def Partition.standard : Partition where
  binSize := 0x4d000
  reservedSize := 0x24000
  otaSize := 0xd000
  bin_aligned := by decide
  reserved_aligned := by decide
  ota_aligned := by decide
  total_lt := by decide

/-- A device of version "v3" with the default split. -/
def Env.standard (md : TinyMd5) : Env where
  part := Partition.standard
  devAddress := 1#32
  version := [0x76, 0x33]
  version_printable := by decide
  version_pos := by decide
  version_lt := by decide
  frameLen := 60000
  userid := 1#32
  md := md

/-- The device above where only the digest of the letter "a" matters. -/
def Env.demo : Env := Env.standard (.ofDigest md5OfA)

/-- A request to this device for a file of one byte, the letter "a" with its digest. -/
def OtaUpgradeReq.standard : OtaUpgradeReq where
  upgradeType := 0#32
  upgradeRange := 1#32
  ioteList := #v[1, 0, 0, 0, 0, 0, 0, 0]
  newVersion := #v[0x76, 0x34, 0, 0, 0, 0, 0, 0, 0, 0, 0, 0, 0, 0, 0, 0]
  oldVersion := #v[0x76, 0x33, 0, 0, 0, 0, 0, 0, 0, 0, 0, 0, 0, 0, 0, 0]
  md5 := #v[0x30, 0x63, 0x63, 0x31, 0x37, 0x35, 0x62, 0x39, 0x63, 0x30, 0x66, 0x31, 0x62, 0x36,
    0x61, 0x38, 0x33, 0x31, 0x63, 0x33, 0x39, 0x39, 0x65, 0x32, 0x36, 0x39, 0x37, 0x37, 0x32, 0x36,
    0x36, 0x31, 0, 0, 0, 0]
  fileSize := 1#32
  upgradeTime := 1000#32
  deviceType := #v[0x69, 0x6f, 0x74, 0x65, 0, 0, 0, 0, 0, 0, 0, 0]
  dataOffset := 0#32
  dataLength := 1#16
  packetType := 0#16
  mcsLen := 66#16
  upgradeNum := 7#16
  data := fun _ => 0x61

/-- The device type "ex_mcu" in a request. -/
def exMcuDeviceType : Vector Byte 12 := #v[0x65, 0x78, 0x5f, 0x6d, 0x63, 0x75, 0, 0, 0, 0, 0, 0]

end WiotaDev.GatewayOta

import WiotaDev.OtaReception
import WiotaDev.PacketCoding

/-! # The payload fields that the downlink handlers read

`uc_wiota_gateway_analisys_dl_msg` and `uc_wiota_gateway_auth` cast the decoded payload to the
record of its command. For each handler they reach, the list of what it reads on the branch it
takes: numbers as whole members, address lists entry by entry, a text up to its zero, and what is
compared up to the first difference. The control flow is that of the handlers in `GatewayOta`. -/

namespace WiotaDev.Downlink
open WordBytes OtaFlash HaltingRuns GatewayOta PacketCoding

/-- A part of a payload, by its offset and its size. -/
structure Field where
  offset : ℕ
  size : ℕ
  deriving DecidableEq, Repr

/-- The first byte behind it. -/
def Field.stop (f : Field) : ℕ := f.offset + f.size

/-- All its bytes lie in front of byte `n`. -/
def Field.Within (n : ℕ) (f : Field) : Prop := ∀ i < f.size, f.offset + i < n

/-- All its bytes lie in the decoded payload. Without a payload `data_decoding` is null. -/
def Field.Inside (payload : Option (List Byte)) (f : Field) : Prop :=
  f.Within (payload.getD []).length

/-- What `rt_strlen` and `%s` read of a text: up to its zero, and behind a payload that holds none. -/
def textField (b : Buffer) (offset : ℕ) : Field := ⟨offset, (b.bytes.drop offset).idxOf 0 + 1⟩

/-- How many bytes are read for a comparison with `text`: up to the first difference. -/
def comparedLength (b : Buffer) (offset : ℕ) : List Byte → ℕ
  | [] => 0
  | c :: text => if b.byte offset = c then comparedLength b (offset + 1) text + 1 else 1

/-- The bytes from `offset` on are `text`. -/
def holdsText (b : Buffer) (offset : ℕ) : List Byte → Bool
  | [] => true
  | c :: text => b.byte offset == c && holdsText b (offset + 1) text

/-- What the handlers read of an `app_ps_ota_upgrade_req_t`. -/
inductive UpgradeReqField where
  | upgradeType
  | upgradeRange
  | ioteList (i : ℕ)
  | newVersion
  | oldVersion
  | md5
  | fileSize
  | upgradeTime
  | deviceType
  | deviceTypeExMcu
  | dataOffset
  | dataLength
  | packetType
  | mcsLen
  | upgradeNum
  | data (length : ℕ)

def UpgradeReqField.field (b : Buffer) : UpgradeReqField → Field
  | upgradeType => ⟨0, 4⟩
  | upgradeRange => ⟨4, 4⟩
  | ioteList i => ⟨8 + 4 * i, 4⟩
  | newVersion => textField b 40
  | oldVersion => textField b 56
  | md5 => textField b 72
  | fileSize => ⟨108, 4⟩
  | upgradeTime => ⟨112, 4⟩
  | deviceType => textField b 116
  | deviceTypeExMcu => ⟨116, comparedLength b 116 EXTERN_MCU⟩
  | dataOffset => ⟨128, 4⟩
  | dataLength => ⟨132, 2⟩
  | packetType => ⟨134, 2⟩
  | mcsLen => ⟨136, 2⟩
  | upgradeNum => ⟨138, 2⟩
  | data length => ⟨140, length⟩

/-- `size` characters of the payload from `offset` on. -/
def chars (b : Buffer) (offset size : ℕ) : Vector Byte size :=
  Vector.ofFn fun i => b.byte (offset + i)

def upgradeReqOf (b : Buffer) : OtaUpgradeReq where
  upgradeType := b.word 0
  upgradeRange := b.word 4
  ioteList := Vector.ofFn fun i => b.word (8 + 4 * i)
  newVersion := chars b 40 16
  oldVersion := chars b 56 16
  md5 := chars b 72 36
  fileSize := b.word 108
  upgradeTime := b.word 112
  deviceType := chars b 116 12
  dataOffset := b.word 128
  dataLength := b.half 132
  packetType := b.half 134
  mcsLen := b.half 136
  upgradeNum := b.half 138
  data := fun i => b.byte (140 + i)

def upgradeStateOf (b : Buffer) : OtaUpgradeState where
  upgradeType := b.word 0
  newVersion := chars b 4 16
  oldVersion := chars b 20 16
  deviceType := chars b 36 12
  processState := b.word 48

/-- `iote_list` of `app_ps_ota_upgrade_stop_t`. -/
def upgradeStopOf (b : Buffer) : Vector (BitVec 32) 16 := Vector.ofFn fun i => b.word (4 * i)

/-- The number of entries that a search for `dev` looks at: up to the first that is `dev`. -/
def entriesSeen (dev : BitVec 32) (list : List (BitVec 32)) : ℕ :=
  min (list.idxOf dev + 1) list.length

/-- The fields read by `uc_wiota_gateway_check_if_upgrade_required`, which ends with a
message. -/
def checkReads (env : Env) (req : OtaUpgradeReq) (w : World) : List UpgradeReqField :=
  [.upgradeRange] ++
    (if req.upgradeRange = 1#32 then
      (List.range (entriesSeen env.devAddress req.ioteList.toList)).map .ioteList
    else []) ++
    (if (checkUpgradeRange env req w).1 && !req.isExMcu then
      .oldVersion :: if rtStrncmp env.version (textOf req.oldVersion) then [.deviceType] else []
    else []) ++
    [.oldVersion, .newVersion, .upgradeNum, .packetType]

/-- The fields read by the end of a download. The check of the file ends with a message that shows
`md5` as a text. -/
def completeReads (env : Env) (req : OtaUpgradeReq) (w : World) : List UpgradeReqField :=
  match ucWiotaOtaCheckFlashData env.md w.flash (req.writeAddr env) req.fileSize.toNat
      req.md5.toList with
  | none => []
  | some rc =>
    if rc = 0 then
      [.md5, .fileSize, .deviceTypeExMcu] ++ (if req.isExMcu then [] else [.upgradeType])
    else [.md5]

/-- The fields read behind the reception of a block. -/
def finishReads (env : Env) (req : OtaUpgradeReq) (ram : ℕ → Byte) (w : World) :
    List UpgradeReqField :=
  let (isRecved, w) := ucWiotaGatewayWhetherTheOtaUpgradeDataIsRecved ram w
  if isRecved then completeReads env req w else []

/-- The fields read by the reception of a block. A refused write does not touch the data. -/
def receiveReads (env : Env) (req : OtaUpgradeReq) (ram : ℕ → Byte) (w : World) :
    List UpgradeReqField :=
  if judgmentBit ram w.ota req.block then .dataOffset :: finishReads env req ram w
  else
    [.dataOffset, .dataLength] ++
      (if WriteRefused (req.flashAddr env) req.dataLength.toNat then []
      else [.data req.dataLength.toNat]) ++
      finishReads env req (setRam req.block ram) (writeBlock env req w)

/-- The fields read for a required upgrade. -/
def downloadReads (env : Env) (req : OtaUpgradeReq) (ram : ℕ → Byte) (w : World) :
    List UpgradeReqField :=
  if w.ota.otaState = .default then
    .mcsLen ::
      match startDownload env req w with
      | .halt _ _ => []
      | .next w => [.upgradeType, .newVersion, .upgradeTime] ++
        if w.ota.otaState = .download then receiveReads env req ram w else []
  else if w.ota.otaState = .download then receiveReads env req ram w
  else []

/-- The fields read by `uc_wiota_gateway_ota_upgrade_res_msg`. -/
def upgradeResReads (env : Env) (req : OtaUpgradeReq) (ram : ℕ → Byte) (w : World) :
    List UpgradeReqField :=
  [.fileSize, .deviceTypeExMcu] ++
    if (req.maxSize env : ℤ) < req.fileSize.toInt then []
    else
      checkReads env req w ++
        match admitUpgrade env req w with
        | (false, _) => []
        | (true, w) => downloadReads env req ram w

/-- What `uc_wiota_gateway_ota_upgrade_state_msg` reads of an `app_ps_ota_upgrade_state_t`,
comparison by comparison. -/
def upgradeStateReads (env : Env) (b : Buffer) (w : World) : List Field :=
  ⟨20, comparedLength b 20 env.version⟩ ::
    if holdsText b 20 env.version then
      ⟨4, comparedLength b 4 w.ota.versionText⟩ ::
        if holdsText b 4 w.ota.versionText then
          ⟨36, comparedLength b 36 DEVICE_TYPE⟩ ::
            if holdsText b 36 DEVICE_TYPE then
              ⟨0, 4⟩ :: if b.word 0 = w.ota.upgradeType.setWidth 32 then [⟨48, 4⟩] else []
            else []
        else []
    else []

/-- `app_ps_cmd_e`, as far as a downlink packet can carry it to a handler. -/
inductive PsCmd where
  | authenticationRes
  | authenticationBcTimeSlot
  | otaUpgradeReq
  | otaUpgradeStop
  | otaUpgradeState
  | ioteGetRtc
  | ioteUserData
  | ioteLoopData
  | ioteVersionReq
  | iotePagingTxCtrl
  | other
  deriving DecidableEq, Repr

def PsCmd.ofByte (cmdType : Byte) : PsCmd :=
  if cmdType = 2#8 then .authenticationRes
  else if cmdType = 3#8 then .authenticationBcTimeSlot
  else if cmdType = 11#8 then .otaUpgradeReq
  else if cmdType = 12#8 then .otaUpgradeStop
  else if cmdType = 13#8 then .otaUpgradeState
  else if cmdType = 21#8 then .ioteGetRtc
  else if cmdType = 100#8 then .ioteUserData
  else if cmdType = 101#8 then .ioteLoopData
  else if cmdType = 150#8 then .ioteVersionReq
  else if cmdType = 160#8 then .iotePagingTxCtrl
  else .other

/-- The function that has decoded a packet: the task, or the authentication of a start. -/
inductive Receiver where
  | analisysDlMsg
  | auth (mode : GatwayMode) (timeSlotState : Byte)
  deriving DecidableEq, Repr

/-- The state of the device that decides what the handlers read. -/
structure Gateway where
  env : Env
  world : World
  gwVerity : Bool
  gwId : BitVec 32
  rtcRegistered : Bool
  rtcFmt : Byte
  sizeofTime : ℕ

/-- `connect_index.state`, `connect_index.time_slot_fn` and `wiota_id`, in the message that
`uc_wiota_gateway_auth_res_msg` begins with. -/
def authResReads : List Field := [⟨0, 1⟩, ⟨4, 4⟩, ⟨2, 2⟩]

/-- The fields read by `uc_wiota_gateway_recv_rtc_res_msg`. -/
def rtcResReads (gw : Gateway) : List Field :=
  if gw.rtcRegistered ∧ gw.rtcFmt ≠ 0xff#8 then [⟨0, gw.sizeofTime⟩] else []

/-- The fields read by the `switch` of `uc_wiota_gateway_analisys_dl_msg`. Loop data are sent on
with their length and user data handed on; neither reads a field. -/
def analisysDlMsgReads (gw : Gateway) (ram : ℕ → Byte) (b : Buffer) : PsCmd → List Field
  | .authenticationRes => authResReads
  | .otaUpgradeReq =>
    (upgradeResReads gw.env (upgradeReqOf b) ram gw.world).map (UpgradeReqField.field b)
  | .otaUpgradeStop =>
    (List.range (entriesSeen gw.env.devAddress (upgradeStopOf b).toList)).map fun i => ⟨4 * i, 4⟩
  | .otaUpgradeState => upgradeStateReads gw.env b gw.world
  | .ioteGetRtc => rtcResReads gw
  | .authenticationBcTimeSlot => [⟨8, 4⟩]
  | .iotePagingTxCtrl => [⟨0, 4⟩]
  | .ioteUserData | .ioteLoopData | .ioteVersionReq | .other => []

/-- The fields read by the `switch` of `uc_wiota_gateway_auth`: of a broadcast, `frame_num`,
`pof`, `resend_times`, `mcs` and `auth_period`. -/
def authReads (mode : GatwayMode) (timeSlotState : Byte) : PsCmd → List Field
  | .authenticationRes => authResReads
  | .authenticationBcTimeSlot =>
    if mode = .timeSlot ∧ timeSlotState = 0#8 then [⟨8, 4⟩, ⟨0, 4⟩, ⟨5, 1⟩, ⟨6, 1⟩, ⟨4, 1⟩] else []
  | _ => []

/-- The payload fields read for a decoded packet. `heap` is the memory behind the payload. -/
def payloadReads (gw : Gateway) (ram heap : ℕ → Byte) (receiver : Receiver) (d : Decoded) :
    List Field :=
  let cmd := PsCmd.ofByte d.psHeader.cmdType
  match receiver with
  | .analisysDlMsg =>
    if gw.gwVerity ∧ cmd ≠ .authenticationRes ∧ d.psHeader.srcAddr ≠ gw.gwId then []
    else analisysDlMsgReads gw ram ⟨d.outputData.getD [], heap⟩ cmd
  | .auth mode timeSlotState => authReads mode timeSlotState cmd

end WiotaDev.Downlink

import WiotaDev.AuthRequests

/-! # Callbacks called and registered at once (`uc_wiota_gateway_api.c`)

The gateway task goes through the call sites of a message one by one, each with its test and its
call apart, while other threads store into the callback pointers: `register_user_recv_cb`,
`register_ex_mcu_cb`, `register_get_rtc_cb` and `get_rtc` any value, `end` a null pointer. -/

namespace WiotaDev.CallbackRegistrations
open WordBytes HaltingRuns GatewayOta PacketCoding Downlink GatewayDevice

/-- The callback pointers. -/
inductive Pointer where
  | userRecv
  | exceReport
  | exMcu
  | rtc
  deriving DecidableEq, Repr

/-- A call through a pointer, in a test of it or not. -/
structure Site where
  pointer : Pointer
  guarded : Bool
  deriving DecidableEq, Repr

/-- Which pointers are not null, and `rtc_fmt`. -/
structure Registrations where
  isSet : Pointer → Bool
  rtcFmt : Byte

/-- The values before any registration. -/
def Registrations.boot : Registrations := ⟨fun _ => false, 0xff⟩

/-- The test in front of a call; that of the clock looks at the format too. -/
def Registrations.passes (regs : Registrations) (pointer : Pointer) : Bool :=
  regs.isSet pointer && (pointer ≠ .rtc || regs.rtcFmt ≠ 0xff#8)

/-- A store of another thread, or of the callback itself. -/
inductive Store where
  | pointer (p : Pointer) (isSet : Bool)
  | rtcFmt (fmt : Byte)
  deriving DecidableEq, Repr

def Store.apply (regs : Registrations) : Store → Registrations
  | .pointer p isSet => { regs with isSet := Function.update regs.isSet p isSet }
  | .rtcFmt fmt => { regs with rtcFmt := fmt }

/-- The store makes this pointer null. -/
def Store.Nulls (st : Store) (pointer : Pointer) : Prop := st = .pointer pointer false

/-- `uc_wiota_gateway_register_user_recv_cb`, with null or other functions. -/
def registerUserRecvCb (userRecvCb stateReportCb : Bool) : List Store :=
  [.pointer .userRecv userRecvCb, .pointer .exceReport stateReportCb]

/-- `uc_wiota_gateway_register_ex_mcu_cb`. -/
def registerExMcuCb (exMcuCb : Bool) : List Store := [.pointer .exMcu exMcuCb]

/-- `uc_wiota_gateway_register_get_rtc_cb`, also in `uc_wiota_gateway_get_rtc`. -/
def registerGetRtcCb (fmt : Byte) (getRtcCb : Bool) : List Store :=
  [.pointer .rtc getRtcCb, .rtcFmt fmt]

/-- The stores of `uc_wiota_gateway_end`. -/
def endStores : List Store := registerUserRecvCb false false

/-- The call sites of the OTA handlers: those of the state report have no test. -/
def otaSite : OtaCall → Option Site
  | .exceReportUpgrade | .exceReportPrograming => some ⟨.exceReport, false⟩
  | .exMcu _ _ => some ⟨.exMcu, true⟩
  | _ => none

/-- The call sites of the other handlers. -/
def deviceSite : CallSite → Site
  | .exceReport _ => ⟨.exceReport, true⟩
  | .userRecv _ _ => ⟨.userRecv, true⟩
  | .rtc _ => ⟨.rtc, true⟩

/-- What a history has got in front of an older one, in the order of time. -/
def newest {α : Type} (before after : List α) : List α :=
  (after.take (after.length - before.length)).reverse

/-- The call sites that `uc_wiota_gateway_analisys_dl_msg` comes to with a packet. -/
def packetSites (board : Board) (packet : DlPacket) (dev : Device) : List Site :=
  let dev' := (ucWiotaGatewayAnalisysDlMsg board packet dev).state
  (newest dev.world.calls dev'.world.calls).filterMap otaSite ++
    (newest dev.sites dev'.sites).map deviceSite

/-- The task between two messages, or at the first of the call sites still before it; `tested` says
that the test of that site was passed. -/
structure TaskState where
  regs : Registrations
  pending : List Site
  tested : Bool

inductive HaltReason where
  | nullCall
  deriving DecidableEq, Repr

/-- `recv`: the task begins a packet, in any state of the device. `judge`: it reports a lost radio
from `wiota_state_judge`. `goOn`: it takes its next step at a call site. -/
inductive Event where
  | store (s : Store)
  | recv (dev : Device) (packet : DlPacket)
  | judge
  | goOn

/-- A test or a call at the first pending site. -/
def goOn (s : TaskState) : Outcome HaltReason TaskState :=
  match s.pending with
  | [] => .next s
  | site :: rest =>
    if site.guarded && !s.tested then
      if s.regs.passes site.pointer then .next { s with tested := true }
      else .next { s with pending := rest }
    else if s.regs.isSet site.pointer then .next { s with pending := rest, tested := false }
    else .halt .nullCall s

/-- The task begins to handle something with these call sites, when it is free. -/
def begin (sites : List Site) (s : TaskState) : TaskState :=
  if s.pending = [] then { s with pending := sites } else s

def step (board : Board) (s : TaskState) : Event → Outcome HaltReason TaskState
  | .store st => .next { s with regs := st.apply s.regs }
  | .recv dev packet => .next (begin (packetSites board packet dev) s)
  | .judge => .next (begin [⟨.exceReport, true⟩] s)
  | .goOn => goOn s

def TaskState.boot : TaskState := ⟨.boot, [], false⟩

/-- The task is about to call through the pointer without looking at it again. -/
def TaskState.Committed (s : TaskState) (pointer : Pointer) : Prop :=
  (∃ site ∈ s.pending, site.pointer = pointer ∧ site.guarded = false) ∨
    s.tested = true ∧ ∃ site rest, s.pending = site :: rest ∧ site.pointer = pointer

/-- No pointer is made null behind its test, and no message that leads to a call without a test is
begun while its pointer is null. -/
def Careful (board : Board) (s : TaskState) : Event → Prop
  | .store st => ∀ pointer, st.Nulls pointer → ¬ s.Committed pointer
  | .recv dev packet => s.pending = [] →
      ∀ site ∈ packetSites board packet dev, site.guarded = false → s.regs.isSet site.pointer
  | .judge | .goOn => True

/-- Every pointer that the task will call through without looking at it again is set. -/
structure Sound (s : TaskState) : Prop where
  isSet : ∀ pointer, s.Committed pointer → s.regs.isSet pointer
  free : s.pending = [] → s.tested = false

theorem boot_sound : Sound .boot where
  isSet pointer h := by
    rcases h with ⟨site, hmem, -⟩ | ⟨htested, -⟩
    · cases hmem
    · cases htested
  free _ := rfl

theorem apply_isSet {regs : Registrations} {st : Store} {pointer : Pointer}
    (hnull : ¬ st.Nulls pointer) (hset : regs.isSet pointer) : (st.apply regs).isSet pointer := by
  cases st with
  | rtcFmt fmt => exact hset
  | pointer p isSet =>
    by_cases hp : pointer = p
    · subst hp
      cases isSet with
      | false => exact absurd rfl hnull
      | true => exact Function.update_self pointer true regs.isSet
    · exact (Function.update_of_ne hp isSet regs.isSet).trans hset

theorem store_sound {s : TaskState} (h : Sound s) (st : Store)
    (hok : ∀ pointer, st.Nulls pointer → ¬ s.Committed pointer) :
    Sound { s with regs := st.apply s.regs } where
  isSet pointer hc := apply_isSet (fun hn => hok pointer hn hc) (h.isSet pointer hc)
  free := h.free

theorem begin_sound {s : TaskState} (h : Sound s) (sites : List Site)
    (hok : s.pending = [] → ∀ site ∈ sites, site.guarded = false → s.regs.isSet site.pointer) :
    Sound (begin sites s) := by
  rw [begin]
  split
  · rename_i hfree
    refine ⟨fun pointer hc => ?_, fun _ => h.free hfree⟩
    rcases hc with ⟨site, hmem, hp, hg⟩ | ⟨htested, -⟩
    · rw [← hp]
      exact hok hfree site hmem hg
    · rw [show s.tested = false from h.free hfree] at htested
      cases htested
  · exact h

/-- The step lemma at a call site: a task in a sound state never calls through a null pointer. -/
theorem goOn_sound {s : TaskState} (h : Sound s) : ∃ s', goOn s = .next s' ∧ Sound s' := by
  rw [goOn]
  split
  · exact ⟨s, rfl, h⟩
  · rename_i site rest hpending
    have hrest : ∀ s' : TaskState, s'.regs = s.regs → s'.pending = rest → s'.tested = false →
        Sound s' := by
      intro s' hregs hp' ht'
      refine ⟨fun pointer hc => ?_, fun _ => ht'⟩
      rcases hc with ⟨site', hmem, hp, hg⟩ | ⟨htested, -⟩
      · rw [hregs]
        refine h.isSet pointer (.inl ⟨site', ?_, hp, hg⟩)
        rw [hpending]
        exact List.mem_cons_of_mem site (hp' ▸ hmem)
      · rw [ht'] at htested
        cases htested
    split
    · rename_i htest
      split
      · rename_i hpass
        refine ⟨_, rfl, fun pointer hc => ?_, fun hnil => ?_⟩
        · rcases hc with hc | ⟨-, site', rest', hp', hptr⟩
          · exact h.isSet pointer (.inl hc)
          · cases hpending.symm.trans hp'
            rw [← hptr]
            exact (Bool.and_eq_true_iff.mp hpass).1
        · rw [hpending] at hnil
          cases hnil
      · refine ⟨_, rfl, hrest _ rfl rfl ?_⟩
        simpa using (Bool.and_eq_true_iff.mp htest).2
    · rename_i htest
      have hcommitted : s.Committed site.pointer := by
        by_cases hg : site.guarded
        · have ht : s.tested = true := by simpa [hg] using htest
          exact .inr ⟨ht, site, rest, hpending, rfl⟩
        · refine .inl ⟨site, ?_, rfl, by simpa using hg⟩
          rw [hpending]
          exact List.mem_cons_self
      rw [if_pos (h.isSet _ hcommitted)]
      exact ⟨_, rfl, hrest _ rfl rfl rfl⟩

theorem step_sound (board : Board) (s : TaskState) (e : Event) (h : Sound s)
    (hok : Careful board s e) : ∃ s', step board s e = .next s' ∧ Sound s' := by
  cases e with
  | store st => exact ⟨_, rfl, store_sound h st hok⟩
  | recv dev packet => exact ⟨_, rfl, begin_sound h _ hok⟩
  | judge =>
    refine ⟨_, rfl, begin_sound h _ fun _ site hmem hg => ?_⟩
    rw [List.mem_singleton.mp hmem] at hg
    cases hg
  | goOn => exact goOn_sound h

/-- In a careful run no call goes through a null pointer. -/
theorem careful_run_calls (board : Board) {es : List Event}
    (hok : Meets (step board) (Careful board) .boot es) (s : TaskState) :
    run (step board) .boot es ≠ .halt .nullCall s := by
  obtain ⟨s', hrun, -⟩ := run_live (step_sound board) boot_sound hok
  intro hhalt
  rw [hrun] at hhalt
  cases hhalt

/-- A device that runs in transmission mode. -/
def runningDevice : Device :=
  { Device.setFlag .connectSucess (Device.boot .demo demoFlash) with gatewayState := .normal }

/-- User data of one byte. -/
def userDataPacket : DlPacket := .of [0x00, 0x64, 0x01]

/-- The callbacks are registered, user data arrive and are handed on. -/
def registeredRun : List Event :=
  (registerUserRecvCb true true).map .store ++ [.recv runningDevice userDataPacket, .goOn, .goOn]

theorem userDataPacket_sites : packetSites .demo userDataPacket runningDevice =
    [⟨.userRecv, true⟩] := by decide +kernel

theorem registeredRun_calls :
    ¬ ∃ s, run (step .demo) .boot registeredRun = .halt .nullCall s := by
  have hok : Meets (step .demo) (Careful .demo) .boot registeredRun := by
    refine ⟨fun _ hnull => (by cases hnull), fun s₁ h₁ => ?_⟩
    cases h₁
    refine ⟨fun _ hnull => (by cases hnull), fun s₂ h₂ => ?_⟩
    cases h₂
    refine ⟨fun _ site hmem hg => ?_, fun _ _ => ⟨trivial, fun _ _ => ⟨trivial, fun _ _ => trivial⟩⟩⟩
    rw [userDataPacket_sites] at hmem
    rw [List.mem_singleton.mp hmem] at hg
    cases hg
  rintro ⟨s, hs⟩
  exact careful_run_calls .demo hok s hs

/-- The first block of an upgrade of the device itself, "v3" to "v4", with two blocks. -/
def startingPacket : DlPacket :=
  .of ([0x00, 0x0b] ++ [0, 0, 0, 0, 1, 0, 0, 0, 1, 0, 0, 0] ++ List.replicate 28 0 ++
    [0x76, 0x34] ++ List.replicate 14 0 ++ [0x76, 0x33] ++ List.replicate 14 0 ++
    List.replicate 36 0 ++ [0, 4, 0, 0] ++ [0xe8, 3, 0, 0] ++ DEVICE_TYPE ++ List.replicate 8 0 ++
    [0, 0, 0, 0] ++ [1, 0] ++ [0, 0] ++ [66, 0] ++ [7, 0] ++ [0x61])

theorem startingPacket_sites : packetSites .demo startingPacket runningDevice =
    [⟨.exceReport, false⟩] := by decide +kernel

/-- A download begins without a registered state report, and the end of the gateway clears the
receive callback between its test and its call. -/
theorem nullPointers_called :
    (∃ s, run (step .demo) .boot [.recv runningDevice startingPacket, .goOn] = .halt .nullCall s) ∧
      ∃ s, run (step .demo) .boot ((registerUserRecvCb true true).map .store ++
        [.recv runningDevice userDataPacket, .goOn] ++ endStores.map .store ++ [.goOn]) =
          .halt .nullCall s := by
  constructor
  · refine ⟨⟨.boot, [⟨.exceReport, false⟩], false⟩, ?_⟩
    rw [run_cons, step, startingPacket_sites]
    rfl
  · simp only [registerUserRecvCb, endStores, List.map_cons, List.map_nil, List.cons_append,
      List.nil_append, run_cons, step, Outcome.bind_next, userDataPacket_sites]
    exact ⟨_, rfl⟩

end WiotaDev.CallbackRegistrations

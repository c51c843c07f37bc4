import WiotaDev.CountingSemaphore
import WiotaDev.HaltingRuns
import Mathlib.Data.BitVec

/-! # Asking the gateway for the time (`uc_wiota_gateway_api.c`)

`uc_wiota_gateway_get_rtc`, one global after the other, interleaved with
`uc_wiota_gateway_recv_rtc_res_msg` in the gateway task. The semaphores are created. -/

namespace WiotaDev.RtcRequest
open HaltingRuns CountingSemaphore

def RT_SEM_VALUE_MAX : ℕ := 65535

/-- Where the caller is: before the step named, or suspended in `rt_sem_take`. -/
inductive Phase where
  | idle
  | sending
  | registering
  | settingFmt
  | creatingSem
  | taking
  | suspended
  | clearing
  | clearingFmt
  | deletingSem
  deriving DecidableEq, Repr

/-- Where the handler of a response is, behind its test and behind its call. -/
inductive Handler where
  | idle
  | calling (time : ℕ)
  | releasing
  deriving DecidableEq, Repr

/-- A call of the registered callback. -/
structure Invocation where
  cb : ℕ
  fmt : BitVec 32
  time : ℕ
  deriving DecidableEq, Repr

/-- A call of `uc_wiota_gateway_get_rtc`: its arguments, its result, and what happens during it:
the times of the responses received, the calls of the callback, and whether a response was dropped
between the end of the send and the end of the wait. -/
structure Call where
  fmt : BitVec 32
  cb : ℕ
  ret : ℕ
  received : List ℕ
  invoked : List Invocation
  lost : Bool
  deriving DecidableEq, Repr

/-- The globals of the request, the caller with its call, the handler, and the calls that have
returned. -/
structure State where
  rtc : Option ℕ
  rtcFmt : BitVec 8
  rtcSem : Option (Semaphore Unit)
  phase : Phase
  call : Call
  handler : Handler
  returned : List Call

inductive HaltReason where
  | nullCall
  deriving DecidableEq, Repr

inductive Event where
  | call (connected : Bool) (fmt : BitVec 32) (cb : ℕ)
  | sent (ok : Bool)
  | goOn
  | timeout
  | respond (time : ℕ)
  | invoke
  | release

/-- The call has been sent and its wait is not over. -/
def Phase.awaits : Phase → Bool
  | .registering | .settingFmt | .creatingSem | .taking | .suspended => true
  | _ => false

def State.return (s : State) : State := { s with phase := .idle, returned := s.call :: s.returned }

/-- `uc_wiota_gateway_get_rtc` up to the send. -/
def beginCall (connected : Bool) (fmt : BitVec 32) (cb : ℕ) (s : State) : State :=
  let call : Call := ⟨fmt, cb, 0, [], [], false⟩
  if connected then { s with phase := .sending, call := call }
  else { s with call := { call with ret := 1 } }.return

/-- The next step of the caller. -/
def goOn (s : State) : State :=
  match s.phase with
  | .registering => { s with rtc := some s.call.cb, phase := .settingFmt }
  | .settingFmt => { s with rtcFmt := s.call.fmt.setWidth 8, phase := .creatingSem }
  | .creatingSem => { s with rtcSem := some .empty, phase := .taking }
  | .taking =>
    match s.rtcSem with
    | some sem =>
      { s with
        rtcSem := some (sem.take () 0).2
        phase := if (sem.take () 0).1 then .clearing else .suspended }
    | none => s
  | .clearing => { s with rtc := none, phase := .clearingFmt }
  | .clearingFmt => { s with rtcFmt := 0xff, phase := .deletingSem }
  | .deletingSem => { s with rtcSem := none }.return
  | .idle | .sending | .suspended => s

/-- The test of `uc_wiota_gateway_recv_rtc_res_msg`. -/
def respond (time : ℕ) (s : State) : State :=
  let s := if s.phase = .idle then s
    else { s with call := { s.call with received := time :: s.call.received } }
  if s.rtc.isSome ∧ s.rtcFmt ≠ 0xff#8 then { s with handler := .calling time }
  else if s.phase.awaits then { s with call := { s.call with lost := true } }
  else s

/-- `uc_wiota_gateway_rtc(rtc_fmt, *time)`. -/
def invoke (time : ℕ) (s : State) : Outcome HaltReason State :=
  match s.rtc with
  | none => .halt .nullCall s
  | some cb =>
    let invocation : Invocation := ⟨cb, s.rtcFmt.setWidth 32, time⟩
    .next { s with
      handler := .releasing
      call := if s.phase = .idle then s.call
        else { s.call with invoked := invocation :: s.call.invoked } }

/-- The release of `rtc_sem`, if there is one: a suspended caller goes on with result 0. -/
def release (s : State) : State :=
  match s.rtcSem with
  | none => { s with handler := .idle }
  | some sem =>
    let s' := { s with handler := .idle, rtcSem := some (sem.release RT_SEM_VALUE_MAX).2 }
    if (sem.release RT_SEM_VALUE_MAX).1.isSome then { s' with phase := .clearing } else s'

/-- The end of the wait after 3000 ticks. -/
def timeout (s : State) : State :=
  { s with
    phase := .clearing, call := { s.call with ret := 2 }
    rtcSem := s.rtcSem.map fun sem => sem.withdraw () }

def step (s : State) : Event → Outcome HaltReason State
  | .call connected fmt cb => .next (if s.phase = .idle then beginCall connected fmt cb s else s)
  | .sent ok =>
    .next (if s.phase = .sending then { s with phase := if ok then .registering else .clearing } else s)
  | .goOn => .next (goOn s)
  | .timeout => .next (if s.phase = .suspended then timeout s else s)
  | .respond time => .next (if s.handler = .idle then respond time s else s)
  | .invoke =>
    match s.handler with
    | .calling time => invoke time s
    | _ => .next s
  | .release => .next (if s.handler = .releasing then release s else s)

def State.boot : State where
  rtc := none
  rtcFmt := 0xff
  rtcSem := none
  phase := .idle
  call := ⟨0, 0, 0, [], [], false⟩
  handler := .idle
  returned := []

/-- The callback of the call was called with its format and the time of a response. -/
def Call.Answered (c : Call) : Prop :=
  ∃ i ∈ c.invoked, i.cb = c.cb ∧ i.fmt = c.fmt ∧ i.time ∈ c.received

/-- The result of a call tells whether it was answered, and no response was dropped behind its
send. -/
structure Call.Agrees (c : Call) : Prop where
  ret : c.ret = 0 ↔ c.Answered
  lost : c.lost = false

/-- No token is in the semaphore of the request. -/
def State.unanswered (s : State) : Prop := ∀ sem ∈ s.rtcSem, sem.value = 0

/-- The format fits into its byte and is not the mark of no request, the send succeeds, the task
begins no response between the return of the send and the creation of the semaphore, between another
one and the end of the wait, or between the wait and the clearing of the callback, and the wait does
not end while the task is handling one. -/
def Careful (s : State) : Event → Prop
  | .call _ fmt _ => fmt.toNat < 255
  | .sent ok => ok = true
  | .respond _ =>
    match s.phase with
    | .idle | .sending | .suspended | .clearingFmt | .deletingSem => True
    | .taking => s.unanswered
    | .registering | .settingFmt | .creatingSem | .clearing => False
  | .timeout => s.handler = .idle
  | .goOn | .invoke | .release => True

/-- The call as it is before any response is handled for it. -/
structure Call.Open (c : Call) : Prop where
  fmt : c.fmt.toNat < 255
  ret : c.ret = 0
  invoked : c.invoked = []
  lost : c.lost = false

/-- The call as it is behind its wait. -/
structure Call.Done (c : Call) : Prop where
  result : c.ret = 0 ∧ c.Answered ∨ c.ret = 2 ∧ c.invoked = []
  lost : c.lost = false

/-- How far the handling of a response is, with the value of the semaphore. -/
def Handling (c : Call) (value : ℕ) : Handler → Prop
  | .idle => value = 0 ∧ c.invoked = [] ∨ value = 1 ∧ c.Answered
  | .calling time => value = 0 ∧ c.invoked = [] ∧ time ∈ c.received
  | .releasing => value = 0 ∧ c.Answered

/-- A caller that is registered, with these threads in its semaphore. -/
structure Waits (s : State) (waiting : List Unit) : Prop where
  rtc : s.rtc = some s.call.cb
  rtcFmt : s.rtcFmt = s.call.fmt.setWidth 8
  fmt : s.call.fmt.toNat < 255
  ret : s.call.ret = 0
  lost : s.call.lost = false
  sem : ∃ sem, s.rtcSem = some sem ∧ sem.waiting = waiting ∧ Handling s.call sem.value s.handler

/-- What holds at each place of the caller. -/
def Stage (s : State) : Phase → Prop
  | .idle => s.rtc = none ∧ s.rtcSem = none ∧ s.handler = .idle
  | .sending | .registering => s.rtc = none ∧ s.rtcSem = none ∧ s.handler = .idle ∧ s.call.Open
  | .settingFmt => s.rtc = some s.call.cb ∧ s.rtcSem = none ∧ s.handler = .idle ∧ s.call.Open
  | .creatingSem => s.rtc = some s.call.cb ∧ s.rtcFmt = s.call.fmt.setWidth 8 ∧ s.rtcSem = none ∧
      s.handler = .idle ∧ s.call.Open
  | .taking => Waits s []
  | .suspended => Waits s [()]
  | .clearing => s.handler = .idle ∧ s.call.Done
  | .clearingFmt | .deletingSem => s.rtc = none ∧ s.handler = .idle ∧ s.call.Done

structure Inv (s : State) : Prop where
  returned : ∀ c ∈ s.returned, c.Agrees
  stage : Stage s s.phase

theorem boot_inv : Inv .boot where
  returned c hc := by cases hc
  stage := ⟨rfl, rfl, rfl⟩

theorem Call.Done.agrees {c : Call} (h : c.Done) : c.Agrees where
  ret := by
    rcases h.result with ⟨hret, hans⟩ | ⟨hret, hnil⟩
    · exact iff_of_true hret hans
    · refine iff_of_false (by rw [hret]; decide) ?_
      rintro ⟨i, hi, -⟩
      rw [hnil] at hi
      cases hi
  lost := h.lost

/-- A format below 255 comes back from its byte. -/
theorem fmt_roundtrip {fmt : BitVec 32} (h : fmt.toNat < 255) :
    (fmt.setWidth 8).setWidth 32 = fmt ∧ fmt.setWidth 8 ≠ 0xff#8 := by
  have hbyte : (fmt.setWidth 8).toNat = fmt.toNat := by
    rw [BitVec.toNat_setWidth]
    exact Nat.mod_eq_of_lt (by omega)
  constructor
  · apply BitVec.eq_of_toNat_eq
    rw [BitVec.toNat_setWidth, hbyte]
    exact Nat.mod_eq_of_lt (by omega)
  · intro heq
    rw [heq] at hbyte
    simp at hbyte
    omega

section Steps

variable {s : State}

theorem Inv.beginCall (h : Inv s) (hidle : s.phase = .idle) (connected : Bool) {fmt : BitVec 32}
    (hfmt : fmt.toNat < 255) (cb : ℕ) : Inv (beginCall connected fmt cb s) := by
  obtain ⟨hrtc, hsem, hhandler⟩ : Stage s .idle := hidle ▸ h.stage
  cases connected with
  | true => exact ⟨h.returned, hrtc, hsem, hhandler, hfmt, rfl, rfl, rfl⟩
  | false =>
    refine ⟨fun c hc => ?_, hrtc, hsem, hhandler⟩
    rcases List.mem_cons.mp hc with rfl | hc
    · refine ⟨iff_of_false Nat.one_ne_zero ?_, rfl⟩
      rintro ⟨i, hi, -⟩
      cases hi
    · exact h.returned c hc

theorem Inv.goOn (h : Inv s) : Inv (goOn s) := by
  have hstage := h.stage
  rw [RtcRequest.goOn]
  split
  · rename_i hphase
    rw [hphase] at hstage
    obtain ⟨-, hsem, hhandler, hopen⟩ := hstage
    exact ⟨h.returned, rfl, hsem, hhandler, hopen⟩
  · rename_i hphase
    rw [hphase] at hstage
    obtain ⟨hrtc, hsem, hhandler, hopen⟩ := hstage
    exact ⟨h.returned, hrtc, rfl, hsem, hhandler, hopen⟩
  · rename_i hphase
    rw [hphase] at hstage
    obtain ⟨hrtc, hfmt, -, hhandler, hopen⟩ := hstage
    refine ⟨h.returned, hrtc, hfmt, hopen.fmt, hopen.ret, hopen.lost, .empty, rfl, rfl, ?_⟩
    show Handling s.call 0 s.handler
    rw [hhandler]
    exact .inl ⟨rfl, hopen.invoked⟩
  · rename_i hphase
    rw [hphase] at hstage
    obtain ⟨hrtc, hfmt, hlt, hret, hlost, sem, hsem, hnil, hhandling⟩ := hstage
    rw [hsem]
    dsimp only
    cases htake : (sem.take () 0).1 with
    | true =>
      obtain ⟨hvalue, -⟩ := Semaphore.take_granted htake
      cases hhandler : s.handler with
      | idle =>
        rw [hhandler] at hhandling
        rcases hhandling with ⟨hzero, -⟩ | ⟨-, hans⟩
        · omega
        · exact ⟨h.returned, rfl, .inl ⟨hret, hans⟩, hlost⟩
      | calling time =>
        rw [hhandler] at hhandling
        have := hhandling.1
        omega
      | releasing =>
        rw [hhandler] at hhandling
        have := hhandling.1
        omega
    | false =>
      obtain ⟨hzero, hzero', hperm⟩ := Semaphore.take_refused htake
      rw [hnil] at hperm
      refine ⟨h.returned, hrtc, hfmt, hlt, hret, hlost, _, rfl, List.perm_singleton.mp hperm, ?_⟩
      rw [hzero']
      rw [hzero] at hhandling
      exact hhandling
  · rename_i hphase
    rw [hphase] at hstage
    exact ⟨h.returned, rfl, hstage.1, hstage.2⟩
  · rename_i hphase
    rw [hphase] at hstage
    exact ⟨h.returned, hstage⟩
  · rename_i hphase
    rw [hphase] at hstage
    obtain ⟨hrtc, hhandler, hdone⟩ := hstage
    refine ⟨fun c hc => ?_, hrtc, rfl, hhandler⟩
    rcases List.mem_cons.mp hc with rfl | hc
    · exact hdone.agrees
    · exact h.returned c hc
  · exact h
  · exact h
  · exact h

theorem Inv.timeout (h : Inv s) (hphase : s.phase = .suspended) (hidle : s.handler = .idle) :
    Inv (timeout s) := by
  obtain ⟨-, -, -, -, hlost, sem, -, hwaiting, hhandling⟩ : Stage s .suspended := hphase ▸ h.stage
  rw [hidle] at hhandling
  have hzero : sem.value = 0 := Semaphore.value_of_waiting hwaiting
  rcases hhandling with ⟨-, hnil⟩ | ⟨hone, -⟩
  · exact ⟨h.returned, hidle, .inr ⟨rfl, hnil⟩, hlost⟩
  · omega

/-- The state after a response is received in a call, before its test. -/
def receive (time : ℕ) (s : State) : State :=
  { s with call := { s.call with received := time :: s.call.received } }

theorem respond_ignored (hphase : s.phase ≠ .idle) (hrtc : s.rtc = none)
    (hawaits : s.phase.awaits = false) (time : ℕ) : respond time s = receive time s := by
  simp [respond, receive, hphase, hrtc, hawaits]

theorem respond_taken (hphase : s.phase ≠ .idle) (hrtc : s.rtc.isSome) (hfmt : s.rtcFmt ≠ 0xff#8)
    (time : ℕ) : respond time s = { receive time s with handler := .calling time } := by
  simp [respond, receive, hphase, hrtc, hfmt]

theorem Call.Done.receive {c : Call} (h : c.Done) (time : ℕ) :
    Call.Done { c with received := time :: c.received } where
  result := by
    refine h.result.imp_left fun ⟨hret, i, hi, hcb, hfmt, htime⟩ => ⟨hret, i, hi, hcb, hfmt, ?_⟩
    exact List.mem_cons_of_mem time htime
  lost := h.lost

/-- The handling of a response begins while the caller waits and no other has been handled. -/
theorem Waits.respond {waiting : List Unit} (h : Waits s waiting) (hphase : s.phase ≠ .idle)
    (hidle : s.handler = .idle) (hzero : ∀ sem ∈ s.rtcSem, sem.value = 0) (time : ℕ) :
    Waits (respond time s) waiting ∧ (respond time s).phase = s.phase ∧
      (respond time s).returned = s.returned := by
  obtain ⟨hrtc, hfmt, hlt, hret, hlost, sem, hsem, hwaiting, hhandling⟩ := h
  have hmark : s.rtcFmt ≠ 0xff#8 := by
    rw [hfmt]
    exact (fmt_roundtrip hlt).2
  rw [respond_taken hphase (by rw [hrtc]; rfl) hmark]
  have hvalue : sem.value = 0 := hzero sem hsem
  rw [hidle] at hhandling
  have hnil : s.call.invoked = [] := by
    rcases hhandling with ⟨-, hnil⟩ | ⟨hone, -⟩
    · exact hnil
    · omega
  refine ⟨⟨hrtc, hfmt, hlt, hret, hlost, sem, hsem, hwaiting, ?_⟩, rfl, rfl⟩
  exact ⟨hvalue, hnil, List.mem_cons_self⟩

theorem Inv.respond (h : Inv s) (hidle : s.handler = .idle) {time : ℕ}
    (hok : Careful s (.respond time)) : Inv (respond time s) := by
  have hstage := h.stage
  have hignored : s.phase ≠ .idle → s.rtc = none → s.phase.awaits = false →
      Stage (receive time s) s.phase → Inv (RtcRequest.respond time s) := by
    intro hphase hrtc hawaits hst
    rw [respond_ignored hphase hrtc hawaits]
    exact ⟨h.returned, hst⟩
  cases hphase : s.phase with
  | idle =>
    rw [hphase] at hstage
    have hsame : RtcRequest.respond time s = s := by
      simp [RtcRequest.respond, hphase, hstage.1, Phase.awaits]
    rw [hsame]
    exact h
  | sending =>
    rw [hphase] at hstage
    obtain ⟨hrtc, hsem, hhandler, hopen⟩ := hstage
    refine hignored (by simp [hphase]) hrtc (by rw [hphase]; rfl) ?_
    rw [hphase]
    exact ⟨hrtc, hsem, hhandler, hopen.fmt, hopen.ret, hopen.invoked, hopen.lost⟩
  | registering => simp [Careful, hphase] at hok
  | settingFmt => simp [Careful, hphase] at hok
  | creatingSem => simp [Careful, hphase] at hok
  | taking =>
    rw [hphase] at hstage
    simp only [Careful, hphase] at hok
    obtain ⟨hwaits, hp, hr⟩ := Waits.respond hstage (by simp [hphase]) hidle hok time
    refine ⟨by rw [hr]; exact h.returned, ?_⟩
    rw [hp, hphase]
    exact hwaits
  | suspended =>
    rw [hphase] at hstage
    have hzero : ∀ sem ∈ s.rtcSem, sem.value = 0 := by
      obtain ⟨-, -, -, -, -, sem, hsem, hwaiting, -⟩ := hstage
      intro sem' hsem'
      cases hsem.symm.trans hsem'
      exact Semaphore.value_of_waiting hwaiting
    obtain ⟨hwaits, hp, hr⟩ := Waits.respond hstage (by simp [hphase]) hidle hzero time
    refine ⟨by rw [hr]; exact h.returned, ?_⟩
    rw [hp, hphase]
    exact hwaits
  | clearing => simp [Careful, hphase] at hok
  | clearingFmt | deletingSem =>
    rw [hphase] at hstage
    obtain ⟨hrtc, hhandler, hdone⟩ := hstage
    refine hignored (by simp [hphase]) hrtc (by rw [hphase]; rfl) ?_
    rw [hphase]
    exact ⟨hrtc, hhandler, hdone.receive time⟩

/-- A handler that is busy works for a caller that waits. -/
theorem Inv.waits (h : Inv s) (hbusy : s.handler ≠ .idle) :
    s.phase = .taking ∧ Waits s [] ∨ s.phase = .suspended ∧ Waits s [()] := by
  have hstage := h.stage
  cases hphase : s.phase with
  | taking =>
    rw [hphase] at hstage
    exact .inl ⟨rfl, hstage⟩
  | suspended =>
    rw [hphase] at hstage
    exact .inr ⟨rfl, hstage⟩
  | idle =>
    rw [hphase] at hstage
    exact absurd hstage.2.2 hbusy
  | sending | registering | settingFmt =>
    rw [hphase] at hstage
    exact absurd hstage.2.2.1 hbusy
  | creatingSem =>
    rw [hphase] at hstage
    exact absurd hstage.2.2.2.1 hbusy
  | clearing =>
    rw [hphase] at hstage
    exact absurd hstage.1 hbusy
  | clearingFmt | deletingSem =>
    rw [hphase] at hstage
    exact absurd hstage.2.1 hbusy

theorem Waits.invoke {waiting : List Unit} (h : Waits s waiting) (hphase : s.phase ≠ .idle)
    {time : ℕ} (hhandler : s.handler = .calling time) :
    ∃ s', invoke time s = .next s' ∧ Waits s' waiting ∧ s'.phase = s.phase ∧
      s'.returned = s.returned := by
  obtain ⟨hrtc, hfmt, hlt, hret, hlost, sem, hsem, hwaiting, hhandling⟩ := h
  rw [hhandler] at hhandling
  obtain ⟨hzero, -, htime⟩ := hhandling
  rw [RtcRequest.invoke]
  rw [hrtc]
  dsimp only
  rw [if_neg hphase]
  refine ⟨_, rfl, ⟨rfl, hfmt, hlt, hret, hlost, sem, hsem, hwaiting, hzero, ?_⟩, rfl, rfl⟩
  refine ⟨_, List.mem_cons_self, rfl, ?_, htime⟩
  show s.rtcFmt.setWidth 32 = s.call.fmt
  rw [hfmt]
  exact (fmt_roundtrip hlt).1

theorem Inv.invoke (h : Inv s) {time : ℕ} (hhandler : s.handler = .calling time) :
    ∃ s', invoke time s = .next s' ∧ Inv s' := by
  rcases h.waits (by simp [hhandler]) with ⟨hphase, hwaits⟩ | ⟨hphase, hwaits⟩
  · obtain ⟨s', hs, hw, hp, hr⟩ := hwaits.invoke (by simp [hphase]) hhandler
    refine ⟨s', hs, by rw [hr]; exact h.returned, ?_⟩
    rw [hp, hphase]
    exact hw
  · obtain ⟨s', hs, hw, hp, hr⟩ := hwaits.invoke (by simp [hphase]) hhandler
    refine ⟨s', hs, by rw [hr]; exact h.returned, ?_⟩
    rw [hp, hphase]
    exact hw

theorem Inv.release (h : Inv s) (hhandler : s.handler = .releasing) : Inv (release s) := by
  rcases h.waits (by simp [hhandler]) with ⟨hphase, hwaits⟩ | ⟨hphase, hwaits⟩
  · obtain ⟨hrtc, hfmt, hlt, hret, hlost, sem, hsem, hwaiting, hhandling⟩ := hwaits
    rw [hhandler] at hhandling
    obtain ⟨hzero, hans⟩ := hhandling
    obtain ⟨hnone, hvalue, hnil⟩ := Semaphore.release_idle hwaiting
      (show sem.value < RT_SEM_VALUE_MAX by rw [hzero]; decide)
    rw [RtcRequest.release]
    rw [hsem]
    dsimp only
    rw [hnone]
    refine ⟨h.returned, ?_⟩
    show Stage _ s.phase
    rw [hphase]
    refine ⟨hrtc, hfmt, hlt, hret, hlost, _, rfl, hnil, .inr ⟨?_, hans⟩⟩
    rw [hvalue, hzero]
  · obtain ⟨-, -, -, hret, hlost, sem, hsem, hwaiting, hhandling⟩ := hwaits
    rw [hhandler] at hhandling
    have hsome : (sem.release RT_SEM_VALUE_MAX).1 = some () := (Semaphore.release_waiting hwaiting).1
    rw [RtcRequest.release]
    rw [hsem]
    dsimp only
    rw [hsome]
    exact ⟨h.returned, rfl, .inl ⟨hret, hhandling.2⟩, hlost⟩

end Steps

/-- The step lemma: a careful step does not call through a null pointer and keeps the invariant. -/
theorem step_inv (s : State) (e : Event) (h : Inv s) (hok : Careful s e) :
    ∃ s', step s e = .next s' ∧ Inv s' := by
  cases e with
  | call connected fmt cb =>
    refine ⟨_, rfl, ?_⟩
    split
    · exact h.beginCall ‹_› connected hok cb
    · exact h
  | sent ok =>
    refine ⟨_, rfl, ?_⟩
    split
    · rename_i hphase
      obtain ⟨hrtc, hsem, hhandler, hopen⟩ : Stage s .sending := hphase ▸ h.stage
      rw [show ok = true from hok]
      exact ⟨h.returned, hrtc, hsem, hhandler, hopen⟩
    · exact h
  | goOn => exact ⟨_, rfl, h.goOn⟩
  | timeout =>
    refine ⟨_, rfl, ?_⟩
    split
    · exact h.timeout ‹_› hok
    · exact h
  | respond time =>
    refine ⟨_, rfl, ?_⟩
    split
    · exact h.respond ‹_› hok
    · exact h
  | invoke =>
    simp only [step]
    split
    · exact h.invoke ‹_›
    · exact ⟨s, rfl, h⟩
  | release =>
    refine ⟨_, rfl, ?_⟩
    split
    · exact h.release ‹_›
    · exact h

/-- In a careful run the result of every call tells whether its callback was called for it. -/
theorem careful_run_agrees {es : List Event} (hok : Meets step Careful .boot es) :
    ∃ s, run step .boot es = .next s ∧ ∀ c ∈ s.returned, c.Agrees := by
  obtain ⟨s, hrun, hinv⟩ := run_live step_inv boot_inv hok
  exact ⟨s, hrun, hinv.returned⟩

/-- A call with format 1 and callback 7 up to its wait. -/
def waitingRun : List Event := [.call true 1 7, .sent true, .goOn, .goOn, .goOn, .goOn]

theorem answeredRun_agrees :
    ∃ s, run step .boot (waitingRun ++ [.respond 100, .invoke, .release, .goOn, .goOn, .goOn]) =
        .next s ∧ s.returned.length = 1 ∧ ∀ c ∈ s.returned, c.Agrees := by
  have hok : Meets step Careful .boot
      (waitingRun ++ [.respond 100, .invoke, .release, .goOn, .goOn, .goOn]) := by
    refine ⟨show (1#32).toNat < 255 by decide, fun s₁ h₁ => ⟨rfl, fun s₂ h₂ => ?_⟩⟩
    cases h₁
    cases h₂
    refine ⟨trivial, fun s₃ h₃ => ⟨trivial, fun s₄ h₄ => ⟨trivial, fun s₅ h₅ => ⟨trivial, fun s₆ h₆ => ?_⟩⟩⟩⟩
    cases h₃
    cases h₄
    cases h₅
    cases h₆
    exact ⟨trivial, fun _ _ => ⟨trivial, fun _ _ => ⟨trivial, fun _ _ => ⟨trivial, fun _ _ =>
      ⟨trivial, fun _ _ => ⟨trivial, fun _ _ => trivial⟩⟩⟩⟩⟩⟩
  obtain ⟨s, hrun, hagrees⟩ := careful_run_agrees hok
  refine ⟨s, hrun, ?_, hagrees⟩
  cases hrun
  rfl

/-- A send that fails is reported as success, and a response that comes before the callback is
registered is dropped. -/
theorem failedSend_reported :
    (∃ s c, run step .boot [.call true 1 7, .sent false, .goOn, .goOn, .goOn] = .next s ∧
      s.returned = [c] ∧ c.ret = 0 ∧ c.invoked = [] ∧ ¬ c.Agrees) ∧
    ∃ s c, run step .boot ([.call true 1 7, .sent true, .respond 100, .goOn, .goOn, .goOn, .goOn,
      .timeout, .goOn, .goOn, .goOn]) = .next s ∧
      s.returned = [c] ∧ c.received = [100] ∧ c.ret = 2 ∧ ¬ c.Agrees := by
  constructor
  · refine ⟨_, _, rfl, rfl, rfl, rfl, fun h => ?_⟩
    obtain ⟨i, hi, -⟩ := h.ret.mp rfl
    cases hi
  · refine ⟨_, _, rfl, rfl, rfl, rfl, fun h => ?_⟩
    cases h.lost

end WiotaDev.RtcRequest

import ClosedLoopStepper.Link.Requests
import ClosedLoopStepper.Device.Convergence

/-! One command at a time. Whatever the order of the steps, the device has got at most the
command of the running program, and the bytes on the way back are those of its response. -/
namespace ClosedLoopStepper.Link
open Foundations Foundations.Framing Scheduler Ipc Encoder Application Device

def inRange (smcRequestedAngle : Int) : Bool :=
  decide (Commander.smcStepperMotorAngleLowerBound ≤ smcRequestedAngle ∧
    smcRequestedAngle ≤ Commander.smcStepperMotorAngleHigherBound)

def commandsOf (angles : List Int) : List (IpcReceptionStatus × List UInt8) :=
  (angles.filter inRange).map fun angle => (.ok, commandPayload angle.toNat)

def responsesOf (angles : List Int) : List (List UInt8) :=
  (angles.filter inRange).map fun angle => angleFrame .ok (2 * (angle.toNat / 2))

def expectedEnd (angle : Int) : Commander.SmcOutcome :=
  if inRange angle then .achieved (2 * (angle.toNat / 2)) else .raised

def Dialogue.angles (d : Dialogue) : List Int := d.ended.map Prod.fst

/-- Where everything is: the device's stage, the bytes on their way to it, those on their
way back, and the angles whose commands were given to the application and answered. -/
structure At (d : Dialogue) (r : Receiver) (pending : List Task) (executed : Option Nat)
    (toDevice arriving : List UInt8) (given answered : List Int) : Prop where
  stage : Stage d.device.controller r pending executed
  toDevice_eq : d.toDevice = toDevice
  arriving_eq : d.port ++ d.toCommander = arriving
  given_eq : delivered d.device.log = commandsOf given
  answered_eq : d.device.log.filterMap Output.response = responsesOf answered

/-- What has become of the command of the running program. -/
inductive Phase (d : Dialogue) : Prop
  | idle (hasked : d.asked = none)
      (hat : At d (.hunting false) [] none [] [] d.angles d.angles)
  | sending {angle : Nat} (hangle : angle ≤ 359) (hasked : d.asked = some (angle : Int))
      {taken left : List UInt8} (hframe : taken ++ left = ipcFormat.frame (commandPayload angle))
      (hleft : left ≠ [])
      (hat : At d ((Receiver.hunting false).feed ipcFormat taken).1 [] none left [] d.angles d.angles)
  | packet {angle : Nat} (hangle : angle ≤ 359) (hasked : d.asked = some (angle : Int))
      (hbuffer : d.device.controller.ipc.received (commandPayload angle).length =
        commandPayload angle)
      (hat : At d (.hunting false)
        [.postProcessing (postProcessingParams (ipcFormat.packet (commandPayload angle)))] none
        [] [] d.angles d.angles)
  | command {angle : Nat} (hangle : angle ≤ 359) (hasked : d.asked = some (angle : Int))
      (hat : At d (.hunting false) [.stateMachine ⟨.processCmdRequest, commandOf angle⟩] none
        [] [] (d.angles ++ [(angle : Int)]) d.angles)
  | executing {angle : Nat} (hangle : angle ≤ 359) (hasked : d.asked = some (angle : Int))
      (hat : At d (.hunting false) [] (some angle) [] [] (d.angles ++ [(angle : Int)]) d.angles)
  | answered {angle : Nat} (hangle : angle ≤ 359) (hasked : d.asked = some (angle : Int))
      (hat : At d (.hunting false) [] none [] (angleFrame .ok (2 * (angle / 2)))
        (d.angles ++ [(angle : Int)]) (d.angles ++ [(angle : Int)]))
  | lost {angle : Nat} {given : List Int} (hangle : angle ≤ 359)
      (hasked : d.asked = some (angle : Int))
      (hgiven : given = d.angles ∨ given = d.angles ++ [(angle : Int)])
      (hat : At d (.hunting false) [] none [] [] given d.angles)

structure Orderly (d : Dialogue) : Prop where
  sound : Sound d.device
  ended_eq : ∀ e ∈ d.ended, e.2 = expectedEnd e.1
  phase : Phase d

section Angles
variable {angle : Nat} (h : angle ≤ 359)
include h

private theorem inRange_natCast : inRange (angle : Int) = true := by
  apply decide_eq_true
  change (0 : Int) ≤ angle ∧ (angle : Int) ≤ 359
  omega

private theorem commandsOf_concat (angles : List Int) :
    commandsOf (angles ++ [(angle : Int)]) =
      commandsOf angles ++ [(.ok, commandPayload angle)] := by
  rw [commandsOf, List.filter_append, List.map_append, List.filter_singleton, inRange_natCast h]
  rfl

private theorem responsesOf_concat (angles : List Int) :
    responsesOf (angles ++ [(angle : Int)]) =
      responsesOf angles ++ [angleFrame .ok (2 * (angle / 2))] := by
  rw [responsesOf, List.filter_append, List.map_append, List.filter_singleton, inRange_natCast h]
  rfl

end Angles

private theorem filter_concat_outOfRange {angle : Int} (h : inRange angle = false)
    (angles : List Int) :
    (angles ++ [angle]).filter inRange = angles.filter inRange := by
  rw [List.filter_append, List.filter_singleton, h]
  exact List.append_nil _

section Proceed
variable {d : Dialogue} {r r' : Receiver} {pending pending' : List Task}
  {executed executed' : Option Nat} {toDevice arriving : List UInt8} {given answered : List Int}
  {device : Firmware (SchedulerParams Handler)}

/-- The device goes on, and what it puts out is given or sent. -/
theorem At.proceed (h : At d r pending executed toDevice arriving given answered)
    {added : List Output} {given' answered' : List Int} (hlog : device.log = d.device.log ++ added)
    (hgiven : commandsOf given ++ delivered added = commandsOf given')
    (hanswered : responsesOf answered ++ added.filterMap Output.response = responsesOf answered')
    (hstage : Stage device.controller r' pending' executed') :
    At (d.proceed device) r' pending' executed' toDevice
      (arriving ++ (added.filterMap Output.response).flatten) given' answered' := by
  refine ⟨hstage, h.toDevice_eq, ?_, ?_, ?_⟩
  · rw [← h.arriving_eq, List.append_assoc, Dialogue.proceed, sentBytes, hlog, List.drop_left]
  · change delivered device.log = _
    rw [hlog, Controller.delivered_append, h.given_eq, hgiven]
  · change device.log.filterMap Output.response = _
    rw [hlog, List.filterMap_append, h.answered_eq, hanswered]

private theorem At.proceedQuietly (h : At d r pending executed toDevice arriving given answered)
    (hquiet : Quietly d.device.controller device.controller)
    (hstage : Stage device.controller r' pending' executed') :
    At (d.proceed device) r' pending' executed' toDevice arriving given answered := by
  obtain ⟨added, hlog, hresponse, hdelivered⟩ := hquiet
  have hgiven : commandsOf given ++ delivered added = commandsOf given := by
    rw [hdelivered, List.append_nil]
  have hanswered : responsesOf answered ++ added.filterMap Output.response =
      responsesOf answered := by
    rw [hresponse, List.append_nil]
  have hat := h.proceed hlog hgiven hanswered hstage
  rw [hresponse, List.flatten_nil, List.append_nil] at hat
  exact hat

end Proceed

namespace Dialogue
variable {d : Dialogue}

private theorem proceed_feedBytes (h : Sound d.device) (bytes : List UInt8) :
    d.proceed (feedBytes d.device bytes) = { d with device := feedBytes d.device bytes } := by
  have hlog : (feedBytes d.device bytes).log = d.device.log := by
    obtain ⟨_, hcontroller⟩ := feedBytes_sound h bytes
    change (feedBytes d.device bytes).controller.log = d.device.controller.log
    rw [hcontroller, Controller.run_bytes_log]
  rw [proceed, hlog, List.drop_length]
  simp [sentBytes]

theorem step_deviceReceives (h : Sound d.device) (available : Nat) :
    d.step (.deviceReceives available) =
      { d with
        toDevice := d.toDevice.drop available
        device := feedBytes d.device (d.toDevice.take available) } := by
  rw [step, callback_eq_feedBytes]
  exact proceed_feedBytes (d := { d with toDevice := d.toDevice.drop available }) h _

private theorem step_deviceReceives_succ (h : Sound d.device) (available : Nat) :
    d.step (.deviceReceives (available + 1)) =
      (d.step (.deviceReceives 1)).step (.deviceReceives available) := by
  have hfirst := step_deviceReceives h 1
  have hsound : Sound (d.step (.deviceReceives 1)).device := by
    rw [hfirst]
    exact (feedBytes_sound h _).1
  rw [step_deviceReceives h, step_deviceReceives hsound, hfirst]
  dsimp only
  have hbytes : d.toDevice.take (available + 1) =
      d.toDevice.take 1 ++ (d.toDevice.drop 1).take available := by
    rw [Nat.add_comm, List.take_add]
  rw [List.drop_drop, Nat.add_comm 1, hbytes, feedBytes, feedBytes, feedBytes, List.map_append,
    Machine.run_append]

end Dialogue

section Packet
variable {c : Controller} {angle : Nat}
  (h : c.ipc.received (commandPayload angle).length = commandPayload angle)
include h

/-- A command's packet that is still whole is given to the application with its payload. -/
theorem delivery_received :
    let params := postProcessingParams (ipcFormat.packet (commandPayload angle))
    delivery ⟨c.ipc.received params.receivedDataSize.toNat, params.expectedDataCrc⟩ =
      (.ok, commandPayload angle) :=
  (congrArg (fun payload => delivery ⟨payload, _⟩) h).trans (delivery_packet _)

theorem commandTask_received :
    c.commandTask = .stateMachine ⟨.processCmdRequest, commandOf angle⟩ :=
  congrArg (fun cmd => Task.stateMachine ⟨.processCmdRequest, cmd⟩) (ofMemory_received h)

end Packet

section Steps
variable {d : Dialogue}

/-- A byte has left the way to the device, which has put nothing out for it. -/
theorem At.receives {r r' : Receiver} {pending pending' : List Task}
    {executed executed' : Option Nat} {left arriving : List UInt8} {b : UInt8}
    {given answered : List Int}
    (h : At d r pending executed (b :: left) arriving given answered) (hsound : Sound d.device)
    (hquiet : Quietly d.device.controller (d.device.controller.receiveByte b))
    (hstage : Stage (d.device.controller.receiveByte b) r' pending' executed') :
    At { d with toDevice := left, device := feedBytes d.device [b] } r' pending' executed' left
      arriving given answered := by
  have hcontroller : (feedBytes d.device [b]).controller = d.device.controller.receiveByte b :=
    (feedBytes_sound hsound [b]).2
  obtain ⟨added, hlog, hresponse, _⟩ := id hquiet
  rw [← hcontroller] at hlog hquiet hstage
  refine ⟨hstage, rfl, h.arriving_eq, hquiet.delivered_eq.trans h.given_eq, ?_⟩
  change (feedBytes d.device [b]).controller.log.filterMap Output.response = _
  rw [hlog, List.filterMap_append, hresponse, List.append_nil]
  exact h.answered_eq

/-- One byte arrives at the device. -/
theorem Orderly.byte (h : Orderly d) : Orderly (d.step (.deviceReceives 1)) := by
  have hstep := Dialogue.step_deviceReceives h.sound 1
  cases hbytes : d.toDevice with
  | nil =>
    have hsame : d.step (.deviceReceives 1) = d := by
      rw [hstep, hbytes]
      exact congrArg (fun toDevice => { d with toDevice }) hbytes.symm
    rw [hsame]
    exact h
  | cons b left =>
    rw [hbytes] at hstep
    change d.step (.deviceReceives 1) =
      { d with toDevice := left, device := feedBytes d.device [b] } at hstep
    rw [hstep]
    refine ⟨(feedBytes_sound h.sound [b]).1, h.ended_eq, ?_⟩
    cases h.phase with
    | @sending angle hangle hasked taken left' hframe _ hat =>
      obtain rfl : left' = b :: left := hat.toDevice_eq.symm.trans hbytes
      have hhands := Receiver.step_frame_byte (commandPayload_admits angle) hframe
      have hconcat := congrArg Prod.fst
        (Receiver.feed_concat (f := ipcFormat) (.hunting false) taken b)
      dsimp only at hconcat
      by_cases hleft : left = []
      · subst hleft
        rw [if_pos rfl] at hhands
        rw [hframe, Receiver.feed_frame (commandPayload_admits angle)] at hconcat
        obtain ⟨hcases, hquiet⟩ := hat.stage.packetByte hhands
        rw [← hconcat] at hcases
        rcases hcases with ⟨hstage, hbuffer⟩ | ⟨_, hstage⟩
        · refine .packet hangle hasked ?_ (hat.receives h.sound hquiet hstage)
          change (feedBytes d.device [b]).controller.ipc.received _ = _
          rw [(feedBytes_sound h.sound [b]).2]
          exact hbuffer
        · exact .lost hangle hasked (.inl rfl) (hat.receives h.sound hquiet hstage)
      · rw [if_neg hleft] at hhands
        obtain ⟨hstage, hquiet⟩ := hat.stage.silentByte hhands
        rw [← hconcat] at hstage
        have htaken : (taken ++ [b]) ++ left = ipcFormat.frame (commandPayload angle) := by
          rw [List.append_assoc]
          exact hframe
        exact .sending hangle hasked htaken hleft (hat.receives h.sound hquiet hstage)
    | idle _ hat => cases hat.toDevice_eq.symm.trans hbytes
    | packet _ _ _ hat => cases hat.toDevice_eq.symm.trans hbytes
    | command _ _ hat => cases hat.toDevice_eq.symm.trans hbytes
    | executing _ _ hat => cases hat.toDevice_eq.symm.trans hbytes
    | answered _ _ hat => cases hat.toDevice_eq.symm.trans hbytes
    | lost _ _ _ hat => cases hat.toDevice_eq.symm.trans hbytes

theorem Orderly.deviceReceives (h : Orderly d) (available : Nat) :
    Orderly (d.step (.deviceReceives available)) := by
  induction available generalizing d with
  | zero =>
    have hsame : d.step (.deviceReceives 0) = d := Dialogue.step_deviceReceives h.sound 0
    rw [hsame]
    exact h
  | succ available ih =>
    rw [Dialogue.step_deviceReceives_succ h.sound]
    exact ih h.byte

private theorem Orderly.proceeds (h : Orderly d) {device : Firmware (SchedulerParams Handler)}
    (hsound : Sound device) (hipc : device.controller.ipc = d.device.controller.ipc)
    (hquiet : Quietly d.device.controller device.controller)
    (hstage : ∀ {r pending executed}, Stage d.device.controller r pending executed →
      Stage device.controller r pending executed) : Orderly (d.proceed device) := by
  refine ⟨hsound, h.ended_eq, ?_⟩
  cases h.phase with
  | idle hasked hat => exact .idle hasked (hat.proceedQuietly hquiet (hstage hat.stage))
  | sending hangle hasked hframe hleft hat =>
    exact .sending hangle hasked hframe hleft (hat.proceedQuietly hquiet (hstage hat.stage))
  | packet hangle hasked hbuffer hat =>
    refine .packet hangle hasked ?_ (hat.proceedQuietly hquiet (hstage hat.stage))
    change device.controller.ipc.received _ = _
    rw [hipc]
    exact hbuffer
  | command hangle hasked hat =>
    exact .command hangle hasked (hat.proceedQuietly hquiet (hstage hat.stage))
  | executing hangle hasked hat =>
    exact .executing hangle hasked (hat.proceedQuietly hquiet (hstage hat.stage))
  | answered hangle hasked hat =>
    exact .answered hangle hasked (hat.proceedQuietly hquiet (hstage hat.stage))
  | lost hangle hasked hgiven hat =>
    exact .lost hangle hasked hgiven (hat.proceedQuietly hquiet (hstage hat.stage))

theorem Orderly.pinTransition (h : Orderly d) (gpio eventMask : Nat) (levelA levelB : Bool) :
    Orderly (d.step (.pinTransition gpio eventMask levelA levelB)) := by
  obtain ⟨hsound, hcontroller⟩ := run_sound h.sound [.pinTransition gpio eventMask levelA levelB]
  change (d.device.step (.pinTransition gpio eventMask levelA levelB)).controller =
    d.device.controller.pinTransition gpio eventMask levelA levelB at hcontroller
  change Sound (d.device.step (.pinTransition gpio eventMask levelA levelB)) at hsound
  apply h.proceeds hsound
  · rw [hcontroller]
    rfl
  · rw [hcontroller]
    exact .of_log rfl
  · intro r pending executed hstage
    rw [hcontroller]
    exact (hstage.pinTransition gpio eventMask levelA levelB).1

/-- One turn of the loop. -/
theorem Orderly.execute (h : Orderly d) : Orderly (d.step .execute) := by
  obtain ⟨hsound, hcontroller⟩ := run_sound h.sound [.execute]
  change Sound (d.device.step .execute) at hsound
  change (d.device.step .execute).controller = d.device.controller.execute at hcontroller
  refine ⟨hsound, h.ended_eq, ?_⟩
  change Phase (d.proceed (d.device.step .execute))
  generalize d.device.step .execute = device at hcontroller
  cases h.phase with
  | idle hasked hat =>
    obtain ⟨hstage, hquiet⟩ := hat.stage.executeNone
    rw [← hcontroller] at hstage hquiet
    exact .idle hasked (hat.proceedQuietly hquiet hstage)
  | sending hangle hasked hframe hleft hat =>
    obtain ⟨hstage, hquiet⟩ := hat.stage.executeNone
    rw [← hcontroller] at hstage hquiet
    exact .sending hangle hasked hframe hleft (hat.proceedQuietly hquiet hstage)
  | @packet angle hangle hasked hbuffer hat =>
    rcases hat.stage.executePacket with ⟨hstage, hquiet⟩ | ⟨hstage, hlog⟩
    · rw [← hcontroller] at hstage hquiet
      refine .packet hangle hasked ?_ (hat.proceedQuietly hquiet hstage)
      change device.controller.ipc.received _ = _
      rw [hcontroller, Controller.execute_frame.1]
      exact hbuffer
    · rw [delivery_received hbuffer, commandTask_received hbuffer, ← hcontroller] at hstage
      rw [delivery_received hbuffer, ← hcontroller] at hlog
      have hproceed := hat.proceed hlog (commandsOf_concat hangle d.angles).symm
        (List.append_nil _) hstage
      split at hproceed
      · exact .command hangle hasked hproceed
      · exact .lost hangle hasked (.inr rfl) hproceed
  | command hangle hasked hat =>
    obtain ⟨hquiet, hstage | ⟨_, hstage⟩ | ⟨_, hstage⟩⟩ := hat.stage.executeCommand
    all_goals rw [← hcontroller] at hstage hquiet
    · exact .command hangle hasked (hat.proceedQuietly hquiet hstage)
    · exact .executing hangle hasked (hat.proceedQuietly hquiet hstage)
    · exact .lost hangle hasked (.inr rfl) (hat.proceedQuietly hquiet hstage)
  | executing hangle hasked hat =>
    rcases hat.stage.executeExecuting hangle with ⟨hstage, hquiet⟩ | ⟨hstage, _, hlog⟩
    · rw [← hcontroller] at hstage hquiet
      exact .executing hangle hasked (hat.proceedQuietly hquiet hstage)
    · rw [← hcontroller] at hstage hlog
      have hproceed := hat.proceed hlog (List.append_nil _)
        (responsesOf_concat hangle d.angles).symm hstage
      refine .answered hangle hasked ?_
      rw [List.nil_append] at hproceed
      exact hproceed
  | answered hangle hasked hat =>
    obtain ⟨hstage, hquiet⟩ := hat.stage.executeNone
    rw [← hcontroller] at hstage hquiet
    exact .answered hangle hasked (hat.proceedQuietly hquiet hstage)
  | lost hangle hasked hgiven hat =>
    obtain ⟨hstage, hquiet⟩ := hat.stage.executeNone
    rw [← hcontroller] at hstage hquiet
    exact .lost hangle hasked hgiven (hat.proceedQuietly hquiet hstage)

private theorem At.same {d' : Dialogue} {r : Receiver} {pending : List Task} {executed : Option Nat}
    {toDevice arriving : List UInt8} {given answered : List Int}
    (h : At d r pending executed toDevice arriving given answered)
    (hdevice : d'.device = d.device) (htoDevice : d'.toDevice = d.toDevice)
    (harriving : d'.port ++ d'.toCommander = d.port ++ d.toCommander) :
    At d' r pending executed toDevice arriving given answered := by
  refine ⟨?_, htoDevice.trans h.toDevice_eq, harriving.trans h.arriving_eq, ?_, ?_⟩
  · rw [hdevice]
    exact h.stage
  · rw [hdevice]
    exact h.given_eq
  · rw [hdevice]
    exact h.answered_eq

/-- A byte arrives at the commander. -/
theorem Orderly.portReceives (h : Orderly d) : Orderly (d.step .portReceives) := by
  have hsame : (d.step .portReceives).port ++ (d.step .portReceives).toCommander =
      d.port ++ d.toCommander := by
    change d.port ++ d.toCommander.take 1 ++ d.toCommander.drop 1 = _
    rw [List.append_assoc, List.take_append_drop]
  refine ⟨h.sound, h.ended_eq, ?_⟩
  cases h.phase with
  | idle hasked hat => exact .idle hasked (hat.same rfl rfl hsame)
  | sending hangle hasked hframe hleft hat =>
    exact .sending hangle hasked hframe hleft (hat.same rfl rfl hsame)
  | packet hangle hasked hbuffer hat => exact .packet hangle hasked hbuffer (hat.same rfl rfl hsame)
  | command hangle hasked hat => exact .command hangle hasked (hat.same rfl rfl hsame)
  | executing hangle hasked hat => exact .executing hangle hasked (hat.same rfl rfl hsame)
  | answered hangle hasked hat => exact .answered hangle hasked (hat.same rfl rfl hsame)
  | lost hangle hasked hgiven hat => exact .lost hangle hasked hgiven (hat.same rfl rfl hsame)

/-- A program is started: it sends its command, or raises at once. -/
theorem Orderly.run (h : Orderly d) (smcRequestedAngle : Int) :
    Orderly (d.step (.run smcRequestedAngle)) := by
  cases hasked : d.asked with
  | some angle =>
    have hsame : d.step (.run smcRequestedAngle) = d := by rw [Dialogue.step, hasked]
    rw [hsame]
    exact h
  | none =>
    cases h.phase with
    | idle _ hat =>
      cases hrange : inRange smcRequestedAngle with
      | true =>
        have hbounds : 0 ≤ smcRequestedAngle ∧ smcRequestedAngle ≤ 359 := of_decide_eq_true hrange
        obtain ⟨angle, rfl⟩ := Int.eq_ofNat_of_zero_le hbounds.1
        have hangle : angle ≤ 359 := by omega
        have hstep : d.step (.run angle) = { d with
            asked := some (angle : Int)
            toDevice := d.toDevice ++ ipcFormat.frame (commandPayload angle) } := by
          rw [Dialogue.step, hasked, smcCommandBytes_eq hangle]
        rw [hstep]
        refine ⟨h.sound, h.ended_eq, .sending hangle rfl (List.nil_append _) nofun ?_⟩
        refine ⟨hat.stage, ?_, hat.arriving_eq, hat.given_eq, hat.answered_eq⟩
        change d.toDevice ++ _ = _
        rw [hat.toDevice_eq, List.nil_append]
      | false =>
        have hbytes : Commander.smcCommandBytes smcRequestedAngle = none :=
          if_neg (of_decide_eq_false hrange)
        have hstep : d.step (.run smcRequestedAngle) =
            { d with ended := d.ended ++ [(smcRequestedAngle, .raised)] } := by
          rw [Dialogue.step, hasked, hbytes]
        have hangles : (d.step (.run smcRequestedAngle)).angles = d.angles ++ [smcRequestedAngle] := by
          rw [hstep]
          exact List.map_append
        have hfilter := filter_concat_outOfRange hrange d.angles
        rw [hstep] at hangles ⊢
        refine ⟨h.sound, ?_, .idle hasked ?_⟩
        · intro e he
          rcases List.mem_append.mp he with hbefore | hnew
          · exact h.ended_eq e hbefore
          · obtain rfl := List.mem_singleton.mp hnew
            rw [expectedEnd, hrange]
            rfl
        · refine ⟨hat.stage, hat.toDevice_eq, hat.arriving_eq, ?_, ?_⟩
          · rw [hangles, commandsOf, hfilter]
            exact hat.given_eq
          · rw [hangles, responsesOf, hfilter]
            exact hat.answered_eq
    | sending _ hsome => cases hsome.symm.trans hasked
    | packet _ hsome => cases hsome.symm.trans hasked
    | command _ hsome => cases hsome.symm.trans hasked
    | executing _ hsome => cases hsome.symm.trans hasked
    | answered _ hsome => cases hsome.symm.trans hasked
    | lost _ hsome => cases hsome.symm.trans hasked

theorem Dialogue.read_blocked (h : Commander.smcReads d.port = none) : d.step .read = d := by
  rw [step, h]
  cases d.asked <;> rfl

/-- Nothing has arrived: the program waits. -/
theorem At.read_blocked {r : Receiver} {pending : List Task} {executed : Option Nat}
    {toDevice : List UInt8} {given answered : List Int}
    (h : At d r pending executed toDevice [] given answered) : d.step .read = d := by
  have hport : d.port = [] := (List.append_eq_nil_iff.mp h.arriving_eq).1
  apply Dialogue.read_blocked
  rw [hport]
  rfl

private theorem smcReads_arriving {target : Nat} (htarget : target < 180)
    {port toCommander rest : List UInt8}
    {outcome : Commander.SmcOutcome} (hframe : port ++ toCommander = angleFrame .ok (2 * target))
    (h : Commander.smcReads port = some (outcome, rest)) :
    outcome = .achieved (2 * target) ∧ rest = [] ∧ toCommander = [] := by
  obtain ⟨⟨received, left⟩, hreceived, heq⟩ := Option.map_eq_some_iff.mp h
  cases heq
  have hwhole := smcReads_angleFrame htarget
  rw [List.flatten_singleton, ← hframe, Commander.smcReads,
    Commander.receiveDataPacket_append hreceived] at hwhole
  obtain ⟨houtcome, hnil⟩ := Prod.mk.inj (Option.some.inj hwhole)
  exact ⟨houtcome, List.append_eq_nil_iff.mp hnil⟩

/-- The program reads the port. -/
theorem Orderly.read (h : Orderly d) : Orderly (d.step .read) := by
  have hsame (heq : d.step .read = d) : Orderly (d.step .read) := by
    rw [heq]
    exact h
  cases h.phase with
  | idle _ hat => exact hsame hat.read_blocked
  | sending _ _ _ _ hat => exact hsame hat.read_blocked
  | packet _ _ _ hat => exact hsame hat.read_blocked
  | command _ _ hat => exact hsame hat.read_blocked
  | executing _ _ hat => exact hsame hat.read_blocked
  | lost _ _ _ hat => exact hsame hat.read_blocked
  | @answered angle hangle hasked hat =>
    cases hreads : Commander.smcReads d.port with
    | none => exact hsame (Dialogue.read_blocked hreads)
    | some result =>
      obtain ⟨outcome, rest⟩ := result
      obtain ⟨rfl, rfl, hcommander⟩ := smcReads_arriving (by omega) hat.arriving_eq hreads
      have hstep : d.step .read = { d with
          asked := none, port := []
          ended := d.ended ++ [((angle : Int), .achieved (2 * (angle / 2)))] } := by
        rw [Dialogue.step, hasked, hreads]
      have hangles : (d.step .read).angles = d.angles ++ [(angle : Int)] := by
        rw [hstep]
        exact List.map_append
      rw [hstep] at hangles ⊢
      refine ⟨h.sound, ?_, .idle rfl ?_⟩
      · intro e he
        rcases List.mem_append.mp he with hbefore | hnew
        · exact h.ended_eq e hbefore
        · obtain rfl := List.mem_singleton.mp hnew
          rw [expectedEnd, if_pos (inRange_natCast hangle), Int.toNat_natCast]
      · refine ⟨hat.stage, hat.toDevice_eq, hcommander, ?_, ?_⟩
        · rw [hangles]
          exact hat.given_eq
        · rw [hangles]
          exact hat.answered_eq

theorem Orderly.step (h : Orderly d) (s : DialogueStep) : Orderly (d.step s) := by
  cases s with
  | run smcRequestedAngle => exact h.run smcRequestedAngle
  | deviceReceives available => exact h.deviceReceives available
  | pinTransition gpio eventMask levelA levelB =>
    exact h.pinTransition gpio eventMask levelA levelB
  | execute => exact h.execute
  | portReceives => exact h.portReceives
  | read => exact h.read

theorem start_orderly : Orderly .start := by
  refine ⟨start_atRest.sound, by nofun, .idle rfl ?_⟩
  refine ⟨⟨rfl, start_atRest.idle, rfl, nofun, nofun⟩, rfl, rfl, rfl, rfl⟩

private theorem run_orderly (h : Orderly d) (steps : List DialogueStep) :
    Orderly (Machine.run Dialogue.step d steps) :=
  Machine.run_invariant steps h fun _ s hd => hd.step s

end Steps

/-- What a user of the commander can rely on. -/
structure Served (d : Dialogue) : Prop where
  ended_eq : ∀ e ∈ d.ended, e.2 = expectedEnd e.1
  given_least : commandsOf d.angles <+: delivered d.device.log
  given_most : delivered d.device.log <+: commandsOf (d.angles ++ d.asked.toList)
  answered_least : responsesOf d.angles <+: d.device.log.filterMap Output.response
  answered_most : d.device.log.filterMap Output.response <+:
    responsesOf (d.angles ++ d.asked.toList)
  answered_given : (d.device.log.filterMap Output.response).length ≤
    (delivered d.device.log).length
  executes : d.device.state = .execution → ∃ angle : Nat, d.asked = some (angle : Int) ∧
    d.device.controller.params =
      ⟨userApplicationMessagesCmdTypeSetStepperMotorAngle, .ok, angle / 2⟩ ∧
    delivered d.device.log = commandsOf (d.angles ++ [(angle : Int)]) ∧
    d.device.log.filterMap Output.response = responsesOf d.angles

section Served
variable {d : Dialogue} {r : Receiver} {pending : List Task} {executed : Option Nat}
  {toDevice arriving : List UInt8} {given answered : List Int}

private theorem commandsOf_prefix {angles more : List Int} (h : angles <+: more) :
    commandsOf angles <+: commandsOf more := (h.filter inRange).map _

private theorem responsesOf_prefix {angles more : List Int} (h : angles <+: more) :
    responsesOf angles <+: responsesOf more := (h.filter inRange).map _

private theorem length_responsesOf (angles : List Int) :
    (responsesOf angles).length = (commandsOf angles).length := by
  rw [responsesOf, commandsOf, List.length_map, List.length_map]

/-- The angles given and answered are those of the ended programs, with or without that of
the running one. -/
theorem At.served (h : At d r pending executed toDevice arriving given answered)
    (horderly : Orderly d) (hgiven : d.angles <+: given ∧ given <+: d.angles ++ d.asked.toList)
    (hanswered : d.angles <+: answered ∧ answered <+: given)
    (hexecutes : ∀ angle, executed = some angle → angle ≤ 359 ∧ d.asked = some (angle : Int) ∧
      given = d.angles ++ [(angle : Int)] ∧ answered = d.angles) : Served d where
  ended_eq := horderly.ended_eq
  given_least := by
    rw [h.given_eq]
    exact commandsOf_prefix hgiven.1
  given_most := by
    rw [h.given_eq]
    exact commandsOf_prefix hgiven.2
  answered_least := by
    rw [h.answered_eq]
    exact responsesOf_prefix hanswered.1
  answered_most := by
    rw [h.answered_eq]
    exact responsesOf_prefix (hanswered.2.trans hgiven.2)
  answered_given := by
    rw [h.answered_eq, h.given_eq, length_responsesOf]
    have hcommands := commandsOf_prefix hanswered.2
    exact hcommands.length_le
  executes := by
    intro hstate
    cases hexecuted : executed with
    | none => exact absurd hstate (h.stage.rests hexecuted)
    | some angle =>
      obtain ⟨hangle, hasked, rfl, rfl⟩ := hexecutes angle hexecuted
      have happ := h.stage.executes angle hexecuted
      rw [executing_commandOf hangle] at happ
      refine ⟨angle, hasked, ?_, h.given_eq, h.answered_eq⟩
      rw [Controller.params, happ]

theorem Orderly.served (h : Orderly d) : Served d := by
  have hadded {angle : Nat} (hasked : d.asked = some (angle : Int)) :
      d.angles <+: d.angles ++ [(angle : Int)] ∧
        d.angles ++ [(angle : Int)] <+: d.angles ++ d.asked.toList := by
    rw [hasked]
    exact ⟨List.prefix_append _ _, List.prefix_rfl⟩
  have hsame : d.angles <+: d.angles ∧ d.angles <+: d.angles ++ d.asked.toList :=
    ⟨List.prefix_rfl, List.prefix_append _ _⟩
  have hnone : d.angles <+: d.angles ∧ d.angles <+: d.angles := ⟨List.prefix_rfl, List.prefix_rfl⟩
  cases h.phase with
  | idle _ hat => exact hat.served h hsame hnone nofun
  | sending _ _ _ _ hat => exact hat.served h hsame hnone nofun
  | packet _ _ _ hat => exact hat.served h hsame hnone nofun
  | command _ hasked hat =>
    exact hat.served h (hadded hasked) ⟨List.prefix_rfl, (hadded hasked).1⟩ nofun
  | @executing angle hangle hasked hat =>
    refine hat.served h (hadded hasked) ⟨List.prefix_rfl, (hadded hasked).1⟩ ?_
    intro _ heq
    cases heq
    exact ⟨hangle, hasked, rfl, rfl⟩
  | answered _ hasked hat =>
    exact hat.served h (hadded hasked) ⟨(hadded hasked).1, List.prefix_rfl⟩ nofun
  | lost _ hasked hgiven hat =>
    rcases hgiven with rfl | rfl
    · exact hat.served h hsame hnone nofun
    · exact hat.served h (hadded hasked) ⟨List.prefix_rfl, (hadded hasked).1⟩ nofun

end Served

/-- Whatever the order of the steps, every program that is over has read the response to
its own command, no command is given to the application or answered twice, and what is in
execution is the command of the running program. -/
theorem dialogue_served (steps : List DialogueStep) :
    Served (Machine.run Dialogue.step .start steps) :=
  (run_orderly start_orderly steps).served

end ClosedLoopStepper.Link

import ReflowOven.Appliance
import ReflowOven.RestartedMachines

/-!
# Fatal errors and power cycles

The handler of `fatal.c` and the appliance under it. A fatal error cuts the element and halts
the CPU, at any moment and in any thread; only a power cycle gets the oven out of it. An error
within a step finds the pin low, as it was before the step or as the step leaves it, so that
errors between the steps stand for all of them.
-/

namespace ReflowOven.FatalErrors

open Appliance Httpd

variable {F : Type} {n : ℕ}

structure FatalError where
  gpioReady : Bool
  gpioOk : Bool

/-- `k_sys_fatal_error_handler`; that it halts is the machine's. -/
def kSysFatalErrorHandler (e : FatalError) (a : Networked F n) : Networked F n :=
  { a with
    world.heater := reflowHeaterEmergencyOff e.gpioReady e.gpioOk a.world.heater }

/-- A pin that is on after the cut was on before, and the cut did not reach it. -/
theorem pin_of_emergencyOff {gpioReady gpioOk : Bool} {h : Heater}
    (hon : (reflowHeaterEmergencyOff gpioReady gpioOk h).pin = true) :
    h.pin = true ∧ (gpioReady = false ∨ gpioOk = false) := by
  cases gpioReady with
  | false => exact ⟨hon, .inl rfl⟩
  | true =>
    cases gpioOk with
    | false => exact ⟨hon, .inr rfl⟩
    | true => exact absurd hon (by simp [reflowHeaterEmergencyOff])

variable [CFloat F]

def mains (cfg : CoreConfig) (net : NetConfig) :
    Machine (Powered (Networked F net.maxClients) FatalError)
      (PowerEvent (Networked F net.maxClients) (Input net.maxClients) FatalError) :=
  (appliance cfg net).powered kSysFatalErrorHandler

/-- Over any history of fatal errors and power cycles, the element is only on because somebody
has asked for it since the power was last switched on, and after a fatal error only if the
port refused the cut. Nothing that came before the last power cycle counts, and nothing that
arrives at a halted oven changes it. -/
theorem element_on_only_if_told_since_start (cfg : CoreConfig) (net : NetConfig)
    {p : Powered (Networked F net.maxClients) FatalError} (hp : (mains cfg net).init p)
    {events : List (PowerEvent (Networked F net.maxClients) (Input net.maxClients) FatalError)}
    (h : (mains cfg net).Admitted p events) :
    let q := (mains cfg net).run p events
    (q.state.world.heater.pin = true →
      ((∃ cmd ∈ (Machine.sinceStart events).filterMap Input.posted,
          cmd.id = ReflowCmdId.start.toU8) ∨
        ∃ buf ∈ (Machine.sinceStart events).flatMap Input.received, ∃ cmd,
          cmd.id = ReflowCmdId.start.toU8 ∧ Commands net.token buf cmd) ∧
      ∀ e ∈ q.halted, e.gpioReady = false ∨ e.gpioOk = false) ∧
    (q.halted.isSome → ∀ more, (∀ s, PowerEvent.start s ∉ more) →
      (mains cfg net).run q more = q) := by
  intro q
  refine ⟨fun hon => ?_, fun hhalted _ hno => Machine.run_of_halted hhalted hno⟩
  obtain ⟨s, as, hlived⟩ := Machine.exists_lived hp h
  obtain ⟨b, locks, server, hserver, rfl⟩ := hlived.init
  have hsound := sound_of_admitted b locks hserver hlived.admitted
  have hran : ((appliance cfg net).run (.boot b locks server : Networked F net.maxClients)
      as).world.heater.pin = true ∧
      ∀ e ∈ q.halted, e.gpioReady = false ∨ e.gpioOk = false := by
    cases hhalted : q.halted with
    | none =>
      refine ⟨?_, by simp⟩
      rw [← (hlived.running hhalted).1]
      exact hon
    | some e =>
      have hcut := hlived.halted e hhalted
      rw [show q.state = _ from hcut] at hon
      obtain ⟨hbefore, hfailed⟩ := pin_of_emergencyOff hon
      refine ⟨hbefore, fun e' he' => ?_⟩
      obtain rfl := Option.some.inj he'
      exact hfailed
  refine ⟨?_, hran.2⟩
  obtain ⟨cmd, hcmd, hid⟩ | ⟨buf, hbuf, htold⟩ := hsound.started_by hran.1
  · exact .inl ⟨cmd, (hlived.taken.filterMap _).subset hcmd, hid⟩
  · obtain ⟨input, hinput, hmem⟩ := List.mem_flatMap.mp hbuf
    exact .inr ⟨buf, List.mem_flatMap.mpr ⟨input, hlived.taken.subset hinput, hmem⟩, htold⟩

/-- A run that a fatal error ends, what still arrives then, and the next run. -/
def cutAndRestarted : List (PowerEvent (Networked ℚ 4) (Input 4) FatalError) :=
  remoteStart.map .input ++ [.halt ⟨true, true⟩, .input (.post ⟨ReflowCmdId.start.toU8, 0⟩),
    .start switchedOn] ++ remoteStart.map .input

theorem element_on_only_if_told_since_start_restarted :
    let q := (mains .stock tokenSite).run ⟨switchedOn, none⟩ cutAndRestarted
    ((∃ cmd ∈ (Machine.sinceStart cutAndRestarted).filterMap Input.posted,
          cmd.id = ReflowCmdId.start.toU8) ∨
        ∃ buf ∈ (Machine.sinceStart cutAndRestarted).flatMap Input.received, ∃ cmd,
          cmd.id = ReflowCmdId.start.toU8 ∧ Commands tokenSite.token buf cmd) ∧
      (∀ e ∈ q.halted, e.gpioReady = false ∨ e.gpioOk = false) ∧
      (q.halted.isSome → ∀ more, (∀ s, PowerEvent.start s ∉ more) →
        (mains .stock tokenSite).run q more = q) := by
  intro q
  have hinit : (appliance .stock tokenSite).init switchedOn := ⟨_, _, _, started_init, rfl⟩
  have hremote : (mains .stock tokenSite).Admitted ⟨switchedOn, none⟩
      (remoteStart.map .input) := (Machine.powered_map_input _ _).2.mpr remoteStart_admitted
  have hadmitted : (mains .stock tokenSite).Admitted ⟨switchedOn, none⟩ cutAndRestarted :=
    Machine.admitted_append.mpr ⟨Machine.admitted_append.mpr
      ⟨hremote, trivial, fun _ => trivial, hinit, trivial⟩, hremote⟩
  obtain ⟨hon, hhalted⟩ := element_on_only_if_told_since_start .stock tokenSite ⟨hinit, rfl⟩ hadmitted
  obtain ⟨htold, hcut⟩ := hon (by decide +kernel)
  exact ⟨htold, hcut, hhalted⟩

end ReflowOven.FatalErrors

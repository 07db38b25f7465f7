import ReflowOven.GuardedMachines
import ReflowOven.HeaterOutput

/-!
# The recorded level of the SSR

`drive` skips a write that would not change the recorded level and records the wanted level
whether the write succeeds or not. The record is therefore the level of the gate through
exactly those call sequences in which no write fails that would have changed the level.
-/

namespace ReflowOven.HeaterShadow

/-- A call of the module, with the clock it reads and the results of its GPIO calls. -/
inductive HeaterOp
  | init (gpioReady configured : Bool) (now : ℤ)
  | setDuty (now : ℤ) (permille : ℕ)
  | off (gpioOk : Bool) (now : ℤ)
  | tick (gpioOk : Bool) (now : ℤ) (dtMs : ℕ)
  | emergencyOff (gpioReady gpioOk : Bool)

def perform (cfg : CoreConfig) (h : Heater) : HeaterOp → Heater
  | .init gpioReady configured now => (reflowHeaterInit gpioReady configured now h).2
  | .setDuty now permille => reflowHeaterSetDuty cfg now permille h
  | .off gpioOk now => reflowHeaterOff gpioOk now h
  | .tick gpioOk now dtMs => reflowHeaterTick cfg gpioOk now dtMs h
  | .emergencyOff gpioReady gpioOk => reflowHeaterEmergencyOff gpioReady gpioOk h

def heaterModule (cfg : CoreConfig) : Machine Heater HeaterOp where
  init h := ∃ now before, h = (reflowHeaterInit true true now before).2
  admits _ _ := True
  step := perform cfg

instance (cfg : CoreConfig) (h : Heater) (op : HeaterOp) :
    Decidable ((heaterModule cfg).admits h op) := inferInstanceAs (Decidable True)

/-- The level a tick asks for: the window, under a request that is not stale. -/
def wantedLevel (cfg : CoreConfig) (h : Heater) (now : ℤ) (dtMs : ℕ) : Bool :=
  decide (now - h.lastUpdate ≤ cfg.heaterStaleMs) &&
    decide (u32 (h.phaseMs + dtMs) % cfg.heaterWindowMs < onMs cfg h)

def AsksOff (cfg : CoreConfig) (h : Heater) : HeaterOp → Prop
  | .init _ _ _ | .off _ _ => True
  | .setDuty _ _ => False
  | .tick _ now dtMs => wantedLevel cfg h now dtMs = false
  | .emergencyOff _ _ => True

/-- The GPIO calls it makes, or would make, succeed. -/
def GpioWorks : HeaterOp → Prop
  | .init gpioReady configured _ => gpioReady = true ∧ configured = true
  | .setDuty _ _ => True
  | .off gpioOk _ | .tick gpioOk _ _ => gpioOk = true
  | .emergencyOff gpioReady gpioOk => gpioReady = true ∧ gpioOk = true

/-- The record is the level of the gate, and a cut that can reach the gate does. -/
structure Honest (cfg : CoreConfig) (h : Heater) : Prop where
  recorded : h.outputOn = h.pin
  cut_lands : ∀ op, AsksOff cfg h op → GpioWorks op → (perform cfg h op).pin = false

/-- No write fails that would change the level of the gate. -/
def NoLostWrite (cfg : CoreConfig) (h : Heater) : HeaterOp → Prop
  | .init _ _ _ | .setDuty _ _ => True
  | .off gpioOk _ => gpioOk = true ∨ h.outputOn = false
  | .tick gpioOk now dtMs => gpioOk = true ∨ wantedLevel cfg h now dtMs = h.outputOn
  | .emergencyOff gpioReady gpioOk => gpioReady = true → gpioOk = true ∨ h.outputOn = false

instance (cfg : CoreConfig) (h : Heater) (op : HeaterOp) : Decidable (NoLostWrite cfg h op) := by
  cases op <;> simp only [NoLostWrite] <;> infer_instance

theorem drive_recorded_iff {gpioOk on : Bool} {h : Heater} (hrec : h.outputOn = h.pin) :
    (drive gpioOk on h).outputOn = (drive gpioOk on h).pin ↔ gpioOk = true ∨ on = h.outputOn := by
  simp only [drive]
  split
  · next he => exact iff_of_true hrec (.inr he)
  · next hne =>
    cases gpioOk with
    | true => simp
    | false => simp [← hrec, hne]

theorem drive_reaches {on : Bool} {h : Heater} (hrec : h.outputOn = h.pin) :
    (drive true on h).pin = on := drive_pin hrec.symm

theorem reflowHeaterTick_eq_drive (cfg : CoreConfig) (gpioOk : Bool) (now : ℤ) (dtMs : ℕ)
    (h : Heater) : ∃ h' : Heater, h'.outputOn = h.outputOn ∧ h'.pin = h.pin ∧
      reflowHeaterTick cfg gpioOk now dtMs h = drive gpioOk (wantedLevel cfg h now dtMs) h' := by
  by_cases hlive : now - h.lastUpdate ≤ cfg.heaterStaleMs
  · have hwanted : wantedLevel cfg h now dtMs =
        decide (u32 (h.phaseMs + dtMs) % cfg.heaterWindowMs < onMs cfg h) := by
      simp only [wantedLevel, decide_eq_true hlive, Bool.true_and]
    rw [reflowHeaterTick_of_live hlive, hwanted]
    exact ⟨{ h with phaseMs := u32 (h.phaseMs + dtMs) % cfg.heaterWindowMs }, rfl, rfl, rfl⟩
  · have hwanted : wantedLevel cfg h now dtMs = false := by
      simp only [wantedLevel, decide_eq_false hlive, Bool.false_and]
    rw [reflowHeaterTick_of_stale (Int.not_le.mp hlive), hwanted]
    exact ⟨{ h with reqPermille := 0 }, rfl, rfl, rfl⟩

@[simp] theorem reflowHeaterTick_outputOn (cfg : CoreConfig) (gpioOk : Bool) (now : ℤ) (dtMs : ℕ)
    (h : Heater) :
    (reflowHeaterTick cfg gpioOk now dtMs h).outputOn = wantedLevel cfg h now dtMs := by
  obtain ⟨h', -, -, he⟩ := reflowHeaterTick_eq_drive cfg gpioOk now dtMs h
  rw [he, drive_outputOn]

theorem reflowHeaterEmergencyOff_recorded_iff {gpioReady gpioOk : Bool} {h : Heater}
    (hrec : h.outputOn = h.pin) :
    (reflowHeaterEmergencyOff gpioReady gpioOk h).outputOn =
        (reflowHeaterEmergencyOff gpioReady gpioOk h).pin ↔
      (gpioReady = true → gpioOk = true ∨ h.outputOn = false) := by
  cases gpioReady with
  | false => simpa [reflowHeaterEmergencyOff] using hrec
  | true =>
    cases gpioOk with
    | true => simp [reflowHeaterEmergencyOff]
    | false =>
      cases hlevel : h.outputOn with
      | true => simp [reflowHeaterEmergencyOff, ← hrec, hlevel]
      | false => simp [reflowHeaterEmergencyOff, ← hrec, hlevel]

theorem perform_recorded_iff (cfg : CoreConfig) {h : Heater} (op : HeaterOp)
    (hrec : h.outputOn = h.pin) :
    (perform cfg h op).outputOn = (perform cfg h op).pin ↔ NoLostWrite cfg h op := by
  cases op with
  | init gpioReady configured now =>
    refine iff_of_true ?_ trivial
    rcases reflowHeaterInit_cases gpioReady configured now h with he | he
    · simpa only [perform, he] using hrec
    · simp [perform, he]
  | setDuty now permille => exact iff_of_true hrec trivial
  | off gpioOk now =>
    simp only [perform, reflowHeaterOff, NoLostWrite, eq_comm (a := h.outputOn)]
    exact drive_recorded_iff (h := { h with reqPermille := 0, lastUpdate := now }) hrec
  | tick gpioOk now dtMs =>
    obtain ⟨h', hon, hpin, he⟩ := reflowHeaterTick_eq_drive cfg gpioOk now dtMs h
    simp only [perform, he, NoLostWrite]
    rw [drive_recorded_iff (by rw [hon, hpin, hrec]), hon]
  | emergencyOff gpioReady gpioOk => exact reflowHeaterEmergencyOff_recorded_iff hrec

/-- Under a true record every cut that can reach the gate does, the retry of a cut included. -/
theorem honest_iff (cfg : CoreConfig) (h : Heater) : Honest cfg h ↔ h.outputOn = h.pin := by
  refine ⟨Honest.recorded, fun hrec => ⟨hrec, fun op hasks hworks => ?_⟩⟩
  cases op with
  | init gpioReady configured now => simp [perform, reflowHeaterInit, hworks.1, hworks.2]
  | setDuty now permille => exact hasks.elim
  | off gpioOk now =>
    obtain rfl : gpioOk = true := hworks
    exact drive_reaches hrec
  | tick gpioOk now dtMs =>
    obtain rfl : gpioOk = true := hworks
    obtain ⟨h', hon, hpin, he⟩ := reflowHeaterTick_eq_drive cfg true now dtMs h
    have hwanted : wantedLevel cfg h now dtMs = false := hasks
    simp only [perform, he, hwanted]
    exact drive_reaches (by rw [hon, hpin, hrec])
  | emergencyOff gpioReady gpioOk => simp [perform, reflowHeaterEmergencyOff, hworks.1, hworks.2]

/-- From a successful initialisation, the record is the level of the gate in every state of
a call sequence exactly when the sequence loses no write. -/
theorem record_true_iff (cfg : CoreConfig) (now : ℤ) (before : Heater) (ops : List HeaterOp) :
    (∀ h ∈ (heaterModule cfg).visited (reflowHeaterInit true true now before).2 ops,
      Honest cfg h) ↔
    ((heaterModule cfg).restrict (NoLostWrite cfg)).Admitted
      (reflowHeaterInit true true now before).2 ops := by
  simp only [honest_iff]
  refine Machine.forall_visited_iff (I := fun _ => True) ?_ ?_ trivial ?_
    (Machine.admitted_of_forall (fun _ _ => trivial) _ _)
  · exact fun _ _ _ _ => trivial
  · exact fun h op _ hrec _ => perform_recorded_iff cfg op hrec
  · simp [reflowHeaterInit]

def lostCut : List HeaterOp := [.setDuty 0 1000, .tick true 0 100, .off false 100]

/-- After a cut whose write failed the gate is high and recorded low, and the next cut,
whose write would succeed, is skipped. -/
theorem lost_cut_is_not_retried : ¬∀ (cfg : CoreConfig) (now : ℤ) (before : Heater)
    (ops : List HeaterOp),
    ∀ h ∈ (heaterModule cfg).visited (reflowHeaterInit true true now before).2 ops,
      Honest cfg h := by
  intro h
  have hlast := h .stock 0 .zero lostCut _ (Machine.run_mem_visited _ _)
  have hcut := hlast.cut_lands (.off true 200) trivial rfl
  exact absurd hcut (by decide)

end ReflowOven.HeaterShadow

import ReflowOven.ControllerInvariants

/-!
# What an iteration publishes

The record of frames only grows. The frames of an iteration all name the profile that is
selected while it runs, and an iteration never changes the selection.
-/

namespace ReflowOven

variable {F : Type}

/-- The frames of a step, oldest first. -/
def newFrames (w w' : World F) : List ReflowTelemetry :=
  (w'.frames.take (w'.frames.length - w.frames.length)).reverse

theorem newFrames_eq {w w' : World F} (new : List ReflowTelemetry)
    (h : w'.frames = new ++ w.frames) : newFrames w w' = new.reverse := by
  simp [newFrames, h]

/-- From `w` to `w'` the selection stands, and every frame in between names it. -/
structure Announces (w w' : World F) : Prop where
  kept : w'.ctx.profileIdx = w.ctx.profileIdx
  heard : ∃ new, w'.frames = new ++ w.frames ∧
    ∀ f ∈ new, f.profileIdx = .ofNat w.ctx.profileIdx

theorem Announces.of_eq {w w' : World F} (hidx : w'.ctx.profileIdx = w.ctx.profileIdx)
    (hframes : w'.frames = w.frames) : Announces w w' :=
  ⟨hidx, [], hframes, by simp⟩

theorem Announces.trans {w₁ w₂ w₃ : World F} (h : Announces w₁ w₂) (h' : Announces w₂ w₃) :
    Announces w₁ w₃ := by
  obtain ⟨new, hnew, hall⟩ := h.heard
  obtain ⟨new', hnew', hall'⟩ := h'.heard
  refine ⟨h'.kept.trans h.kept, new' ++ new, by simp [hnew', hnew], ?_⟩
  intro f hf
  rcases List.mem_append.mp hf with hf | hf
  · rw [hall' f hf, h.kept]
  · exact hall f hf

/-- One more frame, which names the selection. -/
theorem Announces.one {w w' : World F} {f : ReflowTelemetry}
    (hidx : w'.ctx.profileIdx = w.ctx.profileIdx) (hframes : w'.frames = f :: w.frames)
    (hf : f.profileIdx = .ofNat w.ctx.profileIdx) : Announces w w' := by
  refine ⟨hidx, [f], hframes, fun g hg => ?_⟩
  rw [List.mem_singleton.mp hg, hf]

theorem retryFrontEnd_announces (cfg : CoreConfig) (it : Iteration) (w : World F) :
    Announces w (retryFrontEnd cfg it w) := by
  simp only [retryFrontEnd]
  split_ifs <;> exact .of_eq rfl rfl

theorem sampleSensor_announces (cfg : CoreConfig) (it : Iteration) (w : World F) :
    Announces w (sampleSensor cfg it w).1 := by
  simp only [sampleSensor]
  split
  · cases hread : it.read with
    | some pair => exact .of_eq rfl rfl
    | none =>
      dsimp only
      split_ifs
      · exact .one rfl rfl rfl
      · exact .one rfl rfl rfl
      · exact .of_eq rfl rfl
  · exact .of_eq rfl rfl

theorem absoluteCutOut_announces (cfg : CoreConfig) (it : Iteration) (w : World F) :
    Announces w (absoluteCutOut cfg it w) := by
  rcases absoluteCutOut_cases cfg it w with ⟨-, he⟩ | ⟨-, he⟩
  · rw [he]
    exact .one rfl rfl rfl
  · rw [he]
    exact .of_eq rfl rfl

theorem publishPeriodic_announces (cfg : CoreConfig) (it : Iteration) (w : World F) :
    Announces w (publishPeriodic cfg it w) := by
  rcases publishPeriodic_cases cfg it w with he | he
  · rw [he]
    exact .one rfl rfl rfl
  · rw [he]
    exact .of_eq rfl rfl

variable [CFloat F]

theorem runStep_announces (cfg : CoreConfig) (time : ℤ) (dtMs : ℕ) (newSample : Bool)
    (sampleDtMs : ℕ) (w : World F) :
    Announces w (runStep cfg time dtMs newSample sampleDtMs w) := by
  unfold runStep
  split
  · exact .of_eq rfl rfl
  · dsimp only
    split
    · exact .one rfl rfl rfl
    · exact .one rfl rfl rfl
    · exact .one rfl rfl rfl
    · split_ifs <;> exact .of_eq rfl rfl

theorem driveElement_announces (cfg : CoreConfig) (it : Iteration) (dtMs : ℕ) (newSample : Bool)
    (sampleDt : ℕ) (w : World F) : Announces w (driveElement cfg it dtMs newSample sampleDt w) := by
  simp only [driveElement]
  split
  · exact runStep_announces _ _ _ _ _ _
  · exact .of_eq rfl rfl

theorem iterate_announces (cfg : CoreConfig) (it : Iteration) (w : World F) :
    Announces w (iterate cfg it w) := by
  have hadvanced : Announces w (advanceClock it w) := .of_eq rfl rfl
  have hsampled := (hadvanced.trans (retryFrontEnd_announces cfg it _)).trans
    (sampleSensor_announces cfg it _)
  have hcut := hsampled.trans (absoluteCutOut_announces cfg it _)
  have hticked : ∀ {w' : World F} (dtMs : ℕ), Announces w' (tickHeater cfg it dtMs w') :=
    fun _ => .of_eq rfl rfl
  exact ((hcut.trans (driveElement_announces cfg it _ _ _ _)).trans (hticked _)).trans
    (publishPeriodic_announces cfg it _)

theorem handleCmd_frames (time : ℤ) (cmd : ReflowCmd) (w : World F) :
    ∃ new, (handleCmd time cmd w).frames = new ++ w.frames := by
  obtain he | ⟨-, -, -, -, _, -, he⟩ | ⟨-, -, he⟩ | ⟨-, -, _, -, he⟩ | ⟨-, -, he⟩ :=
    handleCmd_cases time cmd w
  · exact ⟨[], by rw [he]; rfl⟩
  all_goals exact ⟨[_], by rw [he]; rfl⟩

/-- The record of frames only grows. -/
theorem step_frames (cfg : CoreConfig) (w : World F) (input : LoopInput) :
    ∃ new, ((controllerThread cfg).step w input).frames = new ++ w.frames := by
  cases input with
  | iterate it =>
    obtain ⟨new, hnew, -⟩ := (iterate_announces cfg it w).heard
    exact ⟨new, hnew⟩
  | command time cmd => exact handleCmd_frames time cmd w

end ReflowOven

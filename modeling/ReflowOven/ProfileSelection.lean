import ReflowOven.ControllerInvariants

/-!
# The selection of a profile

Every producer of commands ends in `handle_cmd`, which takes the low byte of the argument
of a selection as the index. Between 0 and the number of profiles the two agree; outside,
the argument names no profile, and its low byte may name one.
-/

namespace ReflowOven.ProfileSelection

variable {F : Type}

/-- The argument is the index of a profile. -/
def Exists (cmd : ReflowCmd) : Prop := 0 ≤ cmd.arg ∧ cmd.arg < reflowProfileCount

/-- The command selects the profile it names, if there is one and the oven is not running,
and otherwise leaves the selection alone. -/
def Heeds [CFloat F] (w : World F) (time : ℤ) (cmd : ReflowCmd) : Prop :=
  (w.ctx.state ≠ .running ∧ Exists cmd →
    ((handleCmd time cmd w).ctx.profileIdx : ℤ) = cmd.arg ∧
    (handleCmd time cmd w).ctx.prof = reflowProfileGet cmd.arg.toNat) ∧
  (¬(w.ctx.state ≠ .running ∧ Exists cmd) →
    (handleCmd time cmd w).ctx.profileIdx = w.ctx.profileIdx ∧
    (handleCmd time cmd w).ctx.prof = w.ctx.prof)

/-- The low byte of the argument names no other profile than the argument does. -/
def Harmless (w : World F) (cmd : ReflowCmd) : Prop :=
  w.ctx.state = .running ∨ Exists cmd ∨ reflowProfileCount ≤ u8OfInt cmd.arg ∨
    u8OfInt cmd.arg = w.ctx.profileIdx

theorem u8OfInt_of_exists {cmd : ReflowCmd} (h : Exists cmd) : (u8OfInt cmd.arg : ℤ) = cmd.arg := by
  obtain ⟨hlow, hhigh⟩ := h
  rw [reflowProfileCount_eq] at hhigh
  simp only [u8OfInt]
  omega

variable [CFloat F]

theorem handleCmd_running {w : World F} {cmd : ReflowCmd}
    (hid : ReflowCmdId.ofU8? cmd.id = some .selectProfile) (hrun : w.ctx.state = .running)
    (time : ℤ) : handleCmd time cmd w = w := by
  simp [handleCmd, hid, hrun]

theorem handleCmd_missing {w : World F} {cmd : ReflowCmd}
    (hid : ReflowCmdId.ofU8? cmd.id = some .selectProfile)
    (hmissing : reflowProfileCount ≤ u8OfInt cmd.arg) (time : ℤ) : handleCmd time cmd w = w := by
  have hget : reflowProfileGet (u8OfInt cmd.arg) = none := by
    rw [← Option.not_isSome_iff_eq_none, reflowProfileGet_isSome_iff]
    omega
  simp only [handleCmd, hid, hget]
  split_ifs <;> rfl

/-- Outside a run the low byte is what is selected. -/
theorem handleCmd_selected {w : World F} {cmd : ReflowCmd}
    (hid : ReflowCmdId.ofU8? cmd.id = some .selectProfile) (hidle : w.ctx.state ≠ .running)
    (hbyte : u8OfInt cmd.arg < reflowProfileCount) (time : ℤ) :
    (handleCmd time cmd w).ctx.profileIdx = u8OfInt cmd.arg ∧
      (handleCmd time cmd w).ctx.prof = reflowProfileGet (u8OfInt cmd.arg) := by
  obtain ⟨prof, hget⟩ := Option.isSome_iff_exists.mp ((reflowProfileGet_isSome_iff _).mpr hbyte)
  simp [handleCmd, hid, hidle, hget]

theorem heeds_iff {w : World F} (hw : Coherent w) {cmd : ReflowCmd}
    (hid : ReflowCmdId.ofU8? cmd.id = some .selectProfile) (time : ℤ) :
    Heeds w time cmd ↔ Harmless w cmd := by
  obtain ⟨prof, hprof, hget⟩ := hw.profile_selected
  by_cases hrun : w.ctx.state = .running
  · simp [Heeds, Harmless, hrun, handleCmd_running hid hrun]
  by_cases hmissing : reflowProfileCount ≤ u8OfInt cmd.arg
  · have hexists : ¬Exists cmd := by
      intro hexists
      have hbyte := u8OfInt_of_exists hexists
      obtain ⟨-, hhigh⟩ := hexists
      omega
    simp [Heeds, Harmless, hmissing, hexists, handleCmd_missing hid hmissing]
  · obtain ⟨hidx, hsel⟩ := handleCmd_selected hid hrun (Nat.lt_of_not_le hmissing) time
    simp only [Heeds, Harmless, hidx, hsel, hrun, hmissing, false_or]
    by_cases hexists : Exists cmd
    · have hbyte := u8OfInt_of_exists hexists
      have hnat : cmd.arg.toNat = u8OfInt cmd.arg := by omega
      simp [hexists, hrun, hbyte, hnat]
    · constructor
      · intro hheeds
        exact .inr (hheeds.2 fun h => hexists h.2).1
      · rintro (h | heq)
        · exact absurd h hexists
        · exact ⟨fun h => absurd h.2 hexists, fun _ => ⟨heq, by rw [heq, hget, hprof]⟩⟩

/-- In every reachable state the pointer is the entry at the index, and a selection with any
argument heeds it exactly when the low byte of the argument names no other profile. -/
theorem selection_heeded_iff {cfg : CoreConfig} {w : World F}
    (h : (controllerThread cfg).Reachable w) :
    (w.ctx.prof = reflowProfileGet w.ctx.profileIdx ∧ w.ctx.profileIdx < reflowProfileCount) ∧
    ∀ (time : ℤ) (cmd : ReflowCmd), ReflowCmdId.ofU8? cmd.id = some .selectProfile →
      (Heeds w time cmd ↔ Harmless w cmd) := by
  have hcoh := coherent_of_reachable h
  obtain ⟨prof, hprof, hget⟩ := hcoh.profile_selected
  refine ⟨⟨hprof.trans hget.symm, ?_⟩, fun time cmd hid => heeds_iff hcoh hid time⟩
  rw [← reflowProfileGet_isSome_iff, hget]
  rfl

def baking : World ℚ :=
  (controllerThread .stock).run (bootController ⟨true, true, true, 0, 0, 0, 0⟩)
    [.command 5 ⟨ReflowCmdId.selectProfile.toU8, 2⟩]

theorem reachable_baking : (controllerThread {}).Reachable baking := by
  have hboot : (controllerThread {}).Reachable
      (bootController ⟨true, true, true, 0, 0, 0, 0⟩ : World ℚ) := .start ⟨_, rfl⟩
  exact hboot.run ⟨trivial, trivial⟩

theorem selection_heeded_iff_baking :
    Heeds baking 9 ⟨ReflowCmdId.selectProfile.toU8, 3⟩ ∧
      Heeds baking 9 ⟨ReflowCmdId.selectProfile.toU8, 260⟩ := by
  have h := (selection_heeded_iff reachable_baking).2 9
  exact ⟨(h _ rfl).mpr (.inr (.inl ⟨by decide, by decide⟩)),
    (h _ rfl).mpr (.inr (.inr (.inl (by decide))))⟩

/-- `reflow profile 256` in the shell turns a bake into the lead-free profile. -/
theorem select_256_is_not_refused : ¬∀ (w : World ℚ), (controllerThread {}).Reachable w →
    ∀ (time : ℤ) (cmd : ReflowCmd), ReflowCmdId.ofU8? cmd.id = some .selectProfile →
      Heeds w time cmd := by
  intro h
  have hheeds := h baking reachable_baking 9 ⟨ReflowCmdId.selectProfile.toU8, 256⟩ rfl
  have hkept := (hheeds.2 (fun hexists => absurd hexists.2.2 (by decide))).1
  exact absurd hkept (by decide +kernel)

end ReflowOven.ProfileSelection

import ReflowOven.CStringScanning

/-!
# Percent coding

Decoding of percent-encoded byte strings of any length, and the encodings of a string that are
decoded to it. A plus sign stands for itself.
-/

namespace ReflowOven

/-- The value of a hexadecimal digit of either case. -/
def hexValue (c : UInt8) : Option ℕ :=
  if 0x30 ≤ c ∧ c ≤ 0x39 then some (c.toNat - 0x30)
  else if 0x61 ≤ c ∧ c ≤ 0x66 then some (c.toNat - 0x61 + 10)
  else if 0x41 ≤ c ∧ c ≤ 0x46 then some (c.toNat - 0x41 + 10)
  else none

theorem hexValue_lt {c : UInt8} {v : ℕ} (h : hexValue c = some v) : v < 16 := by
  simp only [hexValue] at h
  split_ifs at h with h₁ h₂ h₃
  all_goals
    simp only [UInt8.le_iff_toNat_le] at *
    simp only [Option.some.injEq] at h
    simp at *
    omega

/-- `none` where an escape is not two hexadecimal digits. -/
def percentDecode : List UInt8 → Option (List UInt8)
  | [] => some []
  | c :: rest =>
    if c = 0x25 then
      match rest with
      | h :: l :: rest =>
        match hexValue h, hexValue l with
        | some hi, some lo => (percentDecode rest).map (UInt8.ofNat (hi * 16 + lo) :: ·)
        | _, _ => none
      | _ => none
    else (percentDecode rest).map (c :: ·)

theorem percentDecode_cons {c : UInt8} (hc : c ≠ 0x25) (rest : List UInt8) :
    percentDecode (c :: rest) = (percentDecode rest).map (c :: ·) := by
  rw [percentDecode.eq_def]
  exact if_neg hc

/-- An encoding of a byte string. A `plain` byte may stand for itself, and any byte may be
written as an escape, with digits of either case. -/
inductive PercentEncodes (plain : UInt8 → Prop) : List UInt8 → List UInt8 → Prop
  | nil : PercentEncodes plain [] []
  | plain {c : UInt8} {s raw : List UInt8} (hc : plain c) (h : PercentEncodes plain s raw) :
      PercentEncodes plain (c :: s) (c :: raw)
  | escaped {h l : UInt8} {hi lo : ℕ} {s raw : List UInt8} (hhi : hexValue h = some hi)
      (hlo : hexValue l = some lo) (hrest : PercentEncodes plain s raw) :
      PercentEncodes plain (UInt8.ofNat (hi * 16 + lo) :: s) (0x25 :: h :: l :: raw)

section Encodings

variable {plain : UInt8 → Prop} {s raw : List UInt8}

theorem PercentEncodes.mono {plain' : UInt8 → Prop} (h : PercentEncodes plain s raw)
    (hplain : ∀ c, plain c → plain' c) : PercentEncodes plain' s raw := by
  induction h with
  | nil => exact .nil
  | plain hc _ ih => exact .plain (hplain _ hc) ih
  | escaped hhi hlo _ ih => exact .escaped hhi hlo ih

theorem percentEncodes_self (h : ∀ c ∈ s, plain c) : PercentEncodes plain s s := by
  induction s with
  | nil => exact .nil
  | cons c s ih =>
    obtain ⟨hc, hs⟩ := List.forall_mem_cons.mp h
    exact .plain hc (ih hs)

theorem percentDecode_of_encodes (hplain : ¬plain 0x25) (h : PercentEncodes plain s raw) :
    percentDecode raw = some s := by
  induction h with
  | nil => rfl
  | @plain c _ _ hc _ ih =>
    have hne : c ≠ 0x25 := fun heq => hplain (heq ▸ hc)
    rw [percentDecode_cons hne, ih, Option.map_some]
  | escaped hhi hlo _ ih =>
    rw [percentDecode, if_pos rfl, hhi, hlo]
    dsimp only
    rw [ih, Option.map_some]

/-- A byte that is neither plain nor part of an escape is not in an encoding. -/
theorem PercentEncodes.notMem {a : UInt8} (h : PercentEncodes plain s raw) (ha : ¬plain a)
    (hmark : a ≠ 0x25) (hdigit : hexValue a = none) : a ∉ raw := by
  have hne {c : UInt8} {v : ℕ} (hc : hexValue c = some v) : a ≠ c := by
    rintro rfl
    cases hdigit.symm.trans hc
  induction h with
  | nil => exact List.not_mem_nil
  | plain hc _ ih =>
    rw [List.mem_cons, not_or]
    exact ⟨fun heq => ha (heq ▸ hc), ih⟩
  | escaped hhi hlo _ ih =>
    simp only [List.mem_cons, not_or]
    exact ⟨hmark, hne hhi, hne hlo, ih⟩

end Encodings

end ReflowOven

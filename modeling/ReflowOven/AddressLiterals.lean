import Mathlib.Data.Bool.AllAny
import ReflowOven.HttpRequestGrammar

/-!
# Address literals

What an accepted authority stands for. A text of four groups of digits names an address, also
with leading zeros; of all the texts that name one address the recogniser accepts one.
-/

namespace ReflowOven.AddressLiterals

open HttpRequestGrammar

section Names

@[ext] structure Address where
  a : UInt8
  b : UInt8
  c : UInt8
  d : UInt8
  deriving DecidableEq

/-- Four octets in decimal, without leading zeros and with a dot between each two. -/
def Address.text (addr : Address) : List UInt8 :=
  dotted addr.a.toNat addr.b.toNat addr.c.toNat addr.d.toNat

/-- One or more digits with this value. -/
structure IsNumeral (text : List UInt8) (n : ℕ) : Prop where
  ne_nil : text ≠ []
  digits : ∀ c ∈ text, IsDigit c
  value : text.foldl (fun v c => v * 10 + (c.toNat - 0x30)) 0 = n

/-- The text is four numbers with a dot between each two, and the numbers are the octets. -/
def Names (text : List UInt8) (addr : Address) : Prop :=
  ∃ w x y z, text = w ++ 0x2E :: (x ++ 0x2E :: (y ++ 0x2E :: z)) ∧
    IsNumeral w addr.a.toNat ∧ IsNumeral x addr.b.toNat ∧ IsNumeral y addr.c.toNat ∧
    IsNumeral z addr.d.toNat

variable {addr addr' : Address}

theorem isNumeral_decimalText (n : ℕ) : IsNumeral (decimalText n) n where
  ne_nil := decimalText_ne_nil n
  digits c hc := by
    obtain ⟨hlow, hhigh⟩ := digit_of_mem_decimalText hc
    exact ⟨UInt8.le_iff_toNat_le.mpr hlow, UInt8.le_iff_toNat_le.mpr hhigh⟩
  value := foldl_decimalText n

theorem IsNumeral.notMem_dot {w : List UInt8} {n : ℕ} (h : IsNumeral w n) : 0x2E ∉ w :=
  fun hmem => absurd (h.digits _ hmem) (by decide)

/-- Two texts with the same first group. -/
theorem IsNumeral.eq_of_append {w w' rest rest' : List UInt8} {n n' : ℕ} (h : IsNumeral w n)
    (h' : IsNumeral w' n') (heq : w ++ 0x2E :: rest = w' ++ 0x2E :: rest') :
    n = n' ∧ rest = rest' := by
  have hw : w = w' := by
    have hcut := congrArg (List.takeWhile (· ≠ 0x2E)) heq
    rwa [takeWhile_ne_append_cons h.notMem_dot, takeWhile_ne_append_cons h'.notMem_dot] at hcut
  subst hw
  exact ⟨h.value.symm.trans h'.value, (List.cons.inj (List.append_cancel_left heq)).2⟩

theorem names_text (addr : Address) : Names addr.text addr :=
  ⟨_, _, _, _, rfl, isNumeral_decimalText _, isNumeral_decimalText _, isNumeral_decimalText _,
    isNumeral_decimalText _⟩

theorem names_unique {text : List UInt8} (h : Names text addr) (h' : Names text addr') :
    addr = addr' := by
  obtain ⟨w, x, y, z, rfl, hw, hx, hy, hz⟩ := h
  obtain ⟨w', x', y', z', heq, hw', hx', hy', hz'⟩ := h'
  obtain ⟨ha, heq⟩ := hw.eq_of_append hw' heq
  obtain ⟨hb, heq⟩ := hx.eq_of_append hx' heq
  obtain ⟨hc, rfl⟩ := hy.eq_of_append hy' heq
  have hd : addr.d.toNat = addr'.d.toNat := hz.value.symm.trans hz'.value
  exact Address.ext (UInt8.toNat_inj.mp ha) (UInt8.toNat_inj.mp hb) (UInt8.toNat_inj.mp hc)
    (UInt8.toNat_inj.mp hd)

end Names

section Recogniser

variable {s host : List UInt8} {addr : Address}

def hostPart (s : List UInt8) : List UInt8 := s.takeWhile (· ≠ 0x3A)

def AcceptedHost (host : List UInt8) : Prop := ∃ s, isIpv4Authority s = true ∧ hostPart s = host

theorem isIpv4_iff : IsIpv4 s ↔ ∃ (addr : Address) (port : List UInt8), IsPort port ∧
    s = addr.text ++ port := by
  constructor
  · rintro ⟨ha, hb, hc, hd, hport⟩
    rename_i a b c d port
    have hoctet {n : ℕ} (hn : n ≤ 255) : (UInt8.ofNat n).toNat = n :=
      UInt8.toNat_ofNat_of_lt' (by simp only [UInt8.size]; omega)
    refine ⟨⟨UInt8.ofNat a, UInt8.ofNat b, UInt8.ofNat c, UInt8.ofNat d⟩, port, hport, ?_⟩
    rw [Address.text, hoctet ha, hoctet hb, hoctet hc, hoctet hd]
  · rintro ⟨addr, port, hport, rfl⟩
    have hoctet (n : UInt8) : n.toNat ≤ 255 := Nat.le_of_lt_succ n.toNat_lt
    exact .literal (hoctet _) (hoctet _) (hoctet _) (hoctet _) hport

theorem mem_text {c : UInt8} (h : c ∈ addr.text) : IsDigit c ∨ c = 0x2E := by
  have hdigit {n : ℕ} (hc : c ∈ decimalText n) : IsDigit c := (isNumeral_decimalText n).digits c hc
  simp only [Address.text, dotted, List.mem_append, List.mem_cons] at h
  rcases h with h | rfl | h | rfl | h | rfl | h
  · exact .inl (hdigit h)
  · exact .inr rfl
  · exact .inl (hdigit h)
  · exact .inr rfl
  · exact .inl (hdigit h)
  · exact .inr rfl
  · exact .inl (hdigit h)

theorem hostPart_text {port : List UInt8} (hport : IsPort port) :
    hostPart (addr.text ++ port) = addr.text := by
  have hcolon : 0x3A ∉ addr.text := by
    intro h
    rcases mem_text h with hdigit | hdot
    · exact absurd hdigit (by decide)
    · exact absurd hdot (by decide)
  cases hport with
  | absent =>
    rw [List.append_nil]
    exact takeWhile_ne_of_notMem hcolon
  | given => exact takeWhile_ne_append_cons hcolon _

/-- The accepted host parts are the texts of the addresses. -/
theorem acceptedHost_iff : AcceptedHost host ↔ ∃ addr : Address, host = addr.text := by
  constructor
  · rintro ⟨s, hs, rfl⟩
    obtain ⟨addr, port, hport, rfl⟩ := isIpv4_iff.mp (isIpv4Authority_iff.mp hs)
    exact ⟨addr, hostPart_text hport⟩
  · rintro ⟨addr, rfl⟩
    have hs : IsIpv4 (addr.text ++ []) := isIpv4_iff.mpr ⟨addr, [], .absent, rfl⟩
    exact ⟨_, isIpv4Authority_iff.mpr hs, hostPart_text .absent⟩

end Recogniser

/-- The recogniser accepts the canonical text of an address with an optional port, and nothing
else. Every accepted host part names one address and every address is named by one accepted
host part, so no host part is a name to be looked up. -/
theorem isIpv4Authority_exact :
    (∀ s, isIpv4Authority s = true ↔
      ∃ (addr : Address) (port : List UInt8), IsPort port ∧ s = addr.text ++ port) ∧
    (∀ host, AcceptedHost host → ∃! addr, Names host addr) ∧
    (∀ addr, ∃! host, AcceptedHost host ∧ Names host addr) ∧
    (∀ host, AcceptedHost host → ∀ c ∈ host, IsDigit c ∨ c = 0x2E) := by
  refine ⟨fun s => isIpv4Authority_iff.trans isIpv4_iff, fun host hhost => ?_, fun addr => ?_,
    fun host hhost => ?_⟩
  · obtain ⟨addr, rfl⟩ := acceptedHost_iff.mp hhost
    exact ⟨addr, names_text addr, fun addr' h => names_unique h (names_text addr)⟩
  · refine ⟨addr.text, ⟨acceptedHost_iff.mpr ⟨addr, rfl⟩, names_text addr⟩, ?_⟩
    rintro host ⟨hhost, hnames⟩
    obtain ⟨addr', rfl⟩ := acceptedHost_iff.mp hhost
    rw [names_unique hnames (names_text addr')]
  · obtain ⟨addr, rfl⟩ := acceptedHost_iff.mp hhost
    exact fun c hc => mem_text hc

/-- A second spelling of an accepted address is not accepted. -/
example : Names (ascii "10.0.0.010") ⟨10, 0, 0, 10⟩ ∧ isIpv4Authority (ascii "10.0.0.010") = false ∧
    isIpv4Authority (ascii "10.0.0.10") = true := by
  refine ⟨⟨ascii "10", ascii "0", ascii "0", ascii "010", by decide, ?_, ?_, ?_, ?_⟩, by decide,
    by decide⟩
  all_goals exact ⟨by decide, List.all_iff_forall_prop.mp (by decide), by decide⟩

end ReflowOven.AddressLiterals

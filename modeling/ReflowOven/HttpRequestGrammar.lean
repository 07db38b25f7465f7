import Mathlib.Data.Nat.Bitwise
import ReflowOven.CTextFormatting
import ReflowOven.HttpGate

/-!
# The grammar of HTTP requests

What the authorisation gate is meant to recognise, stated on the bytes and without its
scanners: header lines and the fields they hold, address literals, origins, and a request
head as a whole. The scanners of `httpgate.c` are sound for it.
-/

namespace ReflowOven.HttpRequestGrammar

def IsDigit (c : UInt8) : Prop := 0x30 ≤ c ∧ c ≤ 0x39

instance : DecidablePred IsDigit := fun _ => inferInstanceAs (Decidable (_ ∧ _))

def dotted (a b c d : ℕ) : List UInt8 :=
  decimalText a ++ 0x2E :: (decimalText b ++ 0x2E :: (decimalText c ++ 0x2E :: decimalText d))

/-- Nothing, or a colon and one to five digits. -/
inductive IsPort : List UInt8 → Prop
  | absent : IsPort []
  | given {digits} (hne : digits ≠ []) (hlen : digits.length ≤ 5)
      (hdigits : ∀ c ∈ digits, IsDigit c) : IsPort (0x3A :: digits)

/-- An IPv4 address literal, optionally followed by a port. -/
inductive IsIpv4 : List UInt8 → Prop
  | literal {a b c d port} (ha : a ≤ 255) (hb : b ≤ 255) (hc : c ≤ 255) (hd : d ≤ 255)
      (hport : IsPort port) : IsIpv4 (dotted a b c d ++ port)

/-- An `Origin` that names this authority: a scheme in any letter case, then the authority. -/
def IsOriginOf (authority origin : List UInt8) : Prop :=
  ∃ scheme, origin = scheme ++ authority ∧
    (scheme.map lower = ascii "http://" ∨ scheme.map lower = ascii "https://")

/-- `value` is `raw` without the white space around it. -/
def IsTrimmed (raw value : List UInt8) : Prop :=
  ∃ before after, raw = before ++ value ++ after ∧
    (∀ c ∈ before ++ after, isOws c) ∧
    (∀ c ∈ value.head?, ¬isOws c) ∧ (∀ c ∈ value.getLast?, ¬isOws c)

/-- A header line `name: value`, with no white space before the colon. -/
def IsField (line : List UInt8) (field : List UInt8 × List UInt8) : Prop :=
  ∃ raw, line = field.1 ++ 0x3A :: raw ∧ 0x3A ∉ field.1 ∧ field.1 ≠ [] ∧
    (∀ c ∈ field.1.getLast?, ¬isOws c) ∧ IsTrimmed raw field.2

/-- The values of the fields of that name, in whatever letter case it is written. -/
def valuesNamed (name : String) (fields : List (List UInt8 × List UInt8)) : List (List UInt8) :=
  (fields.filter fun field => field.1.map lower = ascii name).map Prod.snd

/-- The line has no line break inside. -/
def Unbroken (line : List UInt8) : Prop := ¬crlf <:+: line

/-- A header block, its lines and the empty line that ends it, at the start of `text`. -/
def IsBlock (text : List UInt8) (lines : List (List UInt8)) : Prop :=
  (∃ body, text = lines.flatMap (· ++ crlf) ++ crlf ++ body) ∧
    ∀ line ∈ lines, line ≠ [] ∧ Unbroken line

/-- A request line, and after it a header block. -/
def IsHead (text line : List UInt8) (lines : List (List UInt8)) : Prop :=
  Unbroken line ∧ ∃ rest, text = line ++ crlf ++ rest ∧ IsBlock rest lines

/-- The target of a request line ends at its query or at the next space. -/
def IsRequestLine (line method target : List UInt8) : Prop :=
  ∃ after, line = method ++ 0x20 :: (target ++ after) ∧ 0x20 ∉ method ∧
    0x20 ∉ target ∧ 0x3F ∉ target ∧ (∀ c ∈ after.head?, c = 0x20 ∨ c = 0x3F)

/-- The header fields of a command that this token authorises. -/
structure Authorises (token : List UInt8) (fields : List (List UInt8 × List UInt8)) : Prop where
  token : valuesNamed "x-reflow-token" fields = [token]
  host : ∃ host, valuesNamed "host" fields = [host] ∧ IsIpv4 host ∧
    ∀ origin ∈ valuesNamed "origin" fields, IsOriginOf host origin
  origin : (valuesNamed "origin" fields).length ≤ 1

section Tokens

theorem nameIs_iff {s lit : List UInt8} : nameIs s lit = true ↔ s.map lower = lit := by
  induction s generalizing lit with
  | nil => simp [nameIs, eq_comm]
  | cons c s ih =>
    cases lit with
    | nil => simp [nameIs]
    | cons l lit =>
      rw [nameIs, List.map_cons, List.cons.injEq, ← ih]
      split_ifs with hc
      · simp [hc]
      · simp [not_not.mp hc]

/-- An accumulator of differences is zero only if there is none. -/
theorem foldl_or_eq_zero {β : Type*} (g : β → UInt8) (l : List β) (diff : UInt8) :
    l.foldl (fun diff i => diff ||| g i) diff = 0 ↔ diff = 0 ∧ ∀ i ∈ l, g i = 0 := by
  induction l generalizing diff with
  | nil => simp
  | cons i l ih => rw [List.foldl_cons, ih, UInt8.or_eq_zero_iff]; simp [and_assoc]

theorem tokenOk_iff {got want : List UInt8} : tokenOk got want = true ↔ got = want := by
  simp only [tokenOk]
  simp only [decide_eq_true_eq]
  rw [foldl_or_eq_zero]
  constructor
  · rintro ⟨hlen, hbytes⟩
    have hlen : got.length = want.length := by
      by_contra hne
      rw [if_pos (by rwa [ne_eq, Nat.xor_eq_zero_iff])] at hlen
      exact absurd hlen (by decide)
    apply List.ext_getElem hlen
    intro i hi hi'
    have hbyte := hbytes i (by simpa using hi')
    rw [if_pos hi, UInt8.xor_eq_zero_iff] at hbyte
    simpa [hi, hi'] using hbyte
  · rintro rfl
    refine ⟨by simp, fun i hi => ?_⟩
    rw [if_pos (by simpa using hi), UInt8.xor_self]

end Tokens

section Addresses

def digitByte (d : Fin 10) : UInt8 := 0x30 + UInt8.ofNat d

def digitsValue (v : ℕ) (digits : List (Fin 10)) : ℕ := digits.foldl (fun v d => v * 10 + d.val) v

theorem exists_digitByte {c : UInt8} (hc : c ≥ 0x30 ∧ c ≤ 0x39) :
    ∃ d : Fin 10, c = digitByte d ∧ c.toNat - 0x30 = d := by
  obtain ⟨hlow, hhigh⟩ := hc
  rw [ge_iff_le, UInt8.le_iff_toNat_le] at hlow
  rw [UInt8.le_iff_toNat_le] at hhigh
  change 48 ≤ c.toNat at hlow
  change c.toNat ≤ 57 at hhigh
  refine ⟨⟨c.toNat - 0x30, by omega⟩, ?_, rfl⟩
  apply UInt8.toNat_inj.mp
  simp only [digitByte, UInt8.toNat_add, UInt8.toNat_ofNat, UInt8.toNat_ofNat']
  omega

theorem octetLoop_spec (k : ℕ) (s : List UInt8) (n v : ℕ) :
    ∃ digits : List (Fin 10), digits.length ≤ k ∧
      s.take digits.length = digits.map digitByte ∧
      octetLoop k s n v = (n + digits.length, digitsValue v digits) := by
  induction k generalizing s n v with
  | zero => exact ⟨[], le_rfl, by simp, by simp [octetLoop, digitsValue]⟩
  | succ k ih =>
    cases s with
    | nil => exact ⟨[], Nat.zero_le _, by simp, by simp [octetLoop, digitsValue]⟩
    | cons c s =>
      rw [octetLoop]
      split_ifs with hc
      · obtain ⟨d, hd, hvalue⟩ := exists_digitByte hc
        obtain ⟨digits, hlen, htake, hloop⟩ := ih s (n + 1) (v * 10 + (c.toNat - 0x30))
        refine ⟨d :: digits, by simpa using hlen, by simp [htake, hd], ?_⟩
        rw [hloop, hvalue]
        simp only [List.length_cons, digitsValue, List.foldl_cons, Prod.mk.injEq, and_true]
        omega
      · exact ⟨[], Nat.zero_le _, by simp, by simp [digitsValue]⟩

theorem digitsValue_concat (v : ℕ) (digits : List (Fin 10)) (d : Fin 10) :
    digitsValue v (digits ++ [d]) = digitsValue v digits * 10 + d := by
  rw [digitsValue, List.foldl_append]
  rfl

theorem digitByte_eq (d : Fin 10) : digitByte d = UInt8.ofNat (0x30 + d) := by
  revert d
  decide

theorem digitsValue_pos {digits : List (Fin 10)} (hne : digits ≠ [])
    (hzero : digits.head? ≠ some 0) : 0 < digitsValue 0 digits := by
  induction digits using List.reverseRecOn with
  | nil => exact absurd rfl hne
  | append_singleton digits d ih =>
    rw [digitsValue_concat]
    cases digits with
    | nil =>
      have hd : d ≠ 0 := by simpa using hzero
      have hpos : 0 < (d : ℕ) := Nat.pos_of_ne_zero fun h => hd (Fin.ext h)
      simpa [digitsValue] using hpos
    | cons a digits =>
      have hpos := ih (List.cons_ne_nil a digits) (by simpa using hzero)
      omega

/-- Digits without a leading zero are the canonical text of their value. -/
theorem decimalText_digitsValue {digits : List (Fin 10)} (hne : digits ≠ [])
    (hzero : digits.length > 1 → digits.head? ≠ some 0) :
    decimalText (digitsValue 0 digits) = digits.map digitByte := by
  induction digits using List.reverseRecOn with
  | nil => exact absurd rfl hne
  | append_singleton digits d ih =>
    rw [digitsValue_concat, List.map_append, List.map_singleton, digitByte_eq]
    cases digits with
    | nil =>
      rw [digitsValue, List.foldl_nil, Nat.zero_mul, Nat.zero_add, decimalText_of_lt d.isLt]
      rfl
    | cons a digits =>
      have hhead : (a :: digits).head? ≠ some 0 := by simpa using hzero (by simp)
      have hpos := digitsValue_pos (List.cons_ne_nil a digits) hhead
      have hlt := d.isLt
      have hdiv : (digitsValue 0 (a :: digits) * 10 + d) / 10 = digitsValue 0 (a :: digits) := by
        omega
      have hmod : (digitsValue 0 (a :: digits) * 10 + d) % 10 = d := by omega
      rw [decimalText_of_le (by omega), hdiv, hmod, ih (List.cons_ne_nil a digits) fun _ => hhead]

theorem take_octet {s : List UInt8} (h : octet s ≠ 0) :
    ∃ n ≤ 255, s.take (octet s) = decimalText n := by
  obtain ⟨digits, hlen, htake, hloop⟩ := octetLoop_spec 3 s 0 0
  simp only [octet] at h ⊢
  simp only [hloop, Nat.zero_add] at h ⊢
  split_ifs at h ⊢ with hbad hzero
  · exact absurd rfl h
  · exact absurd rfl h
  · push Not at hbad
    refine ⟨digitsValue 0 digits, hbad.2, ?_⟩
    rw [htake, decimalText_digitsValue (List.length_pos_iff.mp (by omega))]
    intro hlong hhead
    refine hzero ⟨hlong, ?_⟩
    obtain ⟨a, rest, rfl⟩ := List.exists_cons_of_ne_nil (List.length_pos_iff.mp (by omega :
      0 < digits.length))
    obtain rfl : a = 0 := by simpa using hhead
    cases s with
    | nil => simp at htake
    | cons c s => simpa [digitByte] using congrArg List.head? htake

theorem eq_append_of_ipv4Group {s rest : List UInt8} {group : ℕ}
    (h : ipv4Group s group = some rest) :
    ∃ n ≤ 255, s = (if group > 0 then [0x2E] else []) ++ decimalText n ++ rest := by
  have hoctet {t : List UInt8} (h : (if octet t = 0 then none else some (t.drop (octet t))) =
      some rest) : ∃ n ≤ 255, t = decimalText n ++ rest := by
    split_ifs at h with hzero
    obtain ⟨n, hn, htake⟩ := take_octet hzero
    obtain rfl : t.drop (octet t) = rest := by simpa using h
    exact ⟨n, hn, by rw [← htake, List.take_append_drop]⟩
  simp only [ipv4Group] at h
  by_cases hgroup : group > 0
  · cases s with
    | nil => simp [hgroup] at h
    | cons c s =>
      by_cases hdot : c = 0x2E
      · obtain ⟨n, hn, rfl⟩ := hoctet (t := s) (by simpa [hgroup, hdot] using h)
        exact ⟨n, hn, by simp [hgroup, hdot]⟩
      · simp [hgroup, hdot] at h
  · obtain ⟨n, hn, rfl⟩ := hoctet (t := s) (by simpa [hgroup] using h)
    exact ⟨n, hn, by simp [hgroup]⟩

theorem isIpv4_of_isIpv4Authority {s : List UInt8} (h : isIpv4Authority s = true) : IsIpv4 s := by
  simp only [isIpv4Authority] at h
  cases hgroups : (List.range 4).foldlM ipv4Group s with
  | none => simp [hgroups] at h
  | some port =>
    rw [hgroups] at h
    obtain ⟨s₁, h₁, s₂, h₂, s₃, h₃, h₄⟩ : ∃ s₁, ipv4Group s 0 = some s₁ ∧ ∃ s₂,
        ipv4Group s₁ 1 = some s₂ ∧ ∃ s₃, ipv4Group s₂ 2 = some s₃ ∧
        ipv4Group s₃ 3 = some port := by
      simpa [List.range_succ, Option.bind_eq_some_iff] using hgroups
    obtain ⟨a, ha, rfl⟩ := eq_append_of_ipv4Group h₁
    obtain ⟨b, hb, rfl⟩ := eq_append_of_ipv4Group h₂
    obtain ⟨c, hc, rfl⟩ := eq_append_of_ipv4Group h₃
    obtain ⟨d, hd, rfl⟩ := eq_append_of_ipv4Group h₄
    have hport : IsPort port := by
      cases port with
      | nil => exact .absent
      | cons sep digits =>
        dsimp only at h
        split_ifs at h with hsep hlen
        obtain rfl := not_not.mp hsep
        push Not at hlen
        refine .given hlen.1 hlen.2 fun c hc => ?_
        simpa [IsDigit] using List.all_eq_true.mp h c hc
    have hform := IsIpv4.literal ha hb hc hd hport
    simpa [dotted] using hform

theorem isOriginOf_of_originAuthority {origin authority : List UInt8}
    (h : originAuthority origin = some authority) : IsOriginOf authority origin := by
  obtain ⟨scheme, hscheme, hpick⟩ := List.exists_of_findSome?_eq_some h
  split_ifs at hpick with hname
  obtain rfl : origin.drop scheme.length = authority := by simpa using hpick
  refine ⟨origin.take scheme.length, (List.take_append_drop _ _).symm, ?_⟩
  rw [nameIs_iff.mp hname.2]
  simpa [originSchemes] using hscheme

/-- The canonical digits of an octet. -/
def octetDigits (n : ℕ) : List (Fin 10) :=
  if n < 10 then [Fin.ofNat 10 n]
  else if n < 100 then [Fin.ofNat 10 (n / 10), Fin.ofNat 10 n]
  else [Fin.ofNat 10 (n / 100), Fin.ofNat 10 (n / 10), Fin.ofNat 10 n]

theorem octetDigits_spec {n : ℕ} (hn : n ≤ 255) :
    decimalText n = (octetDigits n).map digitByte ∧ digitsValue 0 (octetDigits n) = n ∧
      octetDigits n ≠ [] ∧ (octetDigits n).length ≤ 3 ∧
      ((octetDigits n).length > 1 → (octetDigits n).head? ≠ some 0) := by
  have hdigits : digitsValue 0 (octetDigits n) = n ∧ octetDigits n ≠ [] ∧
      (octetDigits n).length ≤ 3 ∧
      ((octetDigits n).length > 1 → (octetDigits n).head? ≠ some 0) := by
    unfold octetDigits
    split_ifs
    · refine ⟨?_, by simp, by simp, by simp⟩
      simp only [digitsValue, List.foldl_cons, List.foldl_nil, Fin.val_ofNat]
      omega
    · refine ⟨?_, by simp, by simp, fun _ hhead => ?_⟩
      · simp only [digitsValue, List.foldl_cons, List.foldl_nil, Fin.val_ofNat]
        omega
      · have hfirst := congrArg Fin.val (Option.some.inj hhead)
        simp only [Fin.val_ofNat, Fin.val_zero] at hfirst
        omega
    · refine ⟨?_, by simp, by simp, fun _ hhead => ?_⟩
      · simp only [digitsValue, List.foldl_cons, List.foldl_nil, Fin.val_ofNat]
        omega
      · have hfirst := congrArg Fin.val (Option.some.inj hhead)
        simp only [Fin.val_ofNat, Fin.val_zero] at hfirst
        omega
  obtain ⟨hvalue, hne, hlen, hzero⟩ := hdigits
  have htext := decimalText_digitsValue hne hzero
  rw [hvalue] at htext
  exact ⟨htext, hvalue, hne, hlen, hzero⟩

theorem isDigit_digitByte (d : Fin 10) : digitByte d ≥ 0x30 ∧ digitByte d ≤ 0x39 ∧
    (digitByte d).toNat - 0x30 = d := by
  revert d
  decide

theorem digitByte_eq_zero {d : Fin 10} (h : digitByte d = 0x30) : d = 0 := by
  revert d
  decide

/-- The loop reads the digits it is given, where no further one follows. -/
theorem octetLoop_digits {digits : List (Fin 10)} {k : ℕ} (hlen : digits.length ≤ k)
    {rest : List UInt8} (hrest : ∀ c ∈ rest.head?, ¬IsDigit c) (n v : ℕ) :
    octetLoop k (digits.map digitByte ++ rest) n v =
      (n + digits.length, digitsValue v digits) := by
  induction digits generalizing k n v with
  | nil =>
    cases k with
    | zero => rfl
    | succ k =>
      cases rest with
      | nil => rfl
      | cons c rest =>
        have hc : ¬(c ≥ 0x30 ∧ c ≤ 0x39) := hrest c rfl
        exact if_neg hc
  | cons d digits ih =>
    cases k with
    | zero => exact absurd hlen (Nat.not_succ_le_zero _)
    | succ k =>
      obtain ⟨hlow, hhigh, hvalue⟩ := isDigit_digitByte d
      rw [List.map_cons, List.cons_append, octetLoop, if_pos ⟨hlow, hhigh⟩, hvalue,
        ih (Nat.le_of_succ_le_succ hlen)]
      simp only [List.length_cons, digitsValue, List.foldl_cons, Prod.mk.injEq, and_true]
      omega

theorem octet_decimalText {n : ℕ} (hn : n ≤ 255) {rest : List UInt8}
    (hrest : ∀ c ∈ rest.head?, ¬IsDigit c) :
    octet (decimalText n ++ rest) = (decimalText n).length := by
  obtain ⟨htext, hvalue, hne, hlen, hzero⟩ := octetDigits_spec hn
  have hloop := octetLoop_digits hlen hrest 0 0
  have hpos := List.length_pos_iff.mpr hne
  rw [← htext] at hloop
  simp only [octet, hloop, hvalue, Nat.zero_add]
  rw [if_neg (by omega), if_neg, htext, List.length_map]
  rintro ⟨hlong, hhead⟩
  refine hzero hlong ?_
  obtain ⟨d, ds, hds⟩ := List.exists_cons_of_ne_nil hne
  rw [htext, hds] at hhead
  rw [hds, digitByte_eq_zero (by simpa using hhead : digitByte d = 0x30)]
  rfl

theorem octet_ne_zero {n : ℕ} (hn : n ≤ 255) : (decimalText n).length ≠ 0 := by
  obtain ⟨htext, -, hne, -, -⟩ := octetDigits_spec hn
  rw [htext, List.length_map]
  exact fun hzero => hne (List.length_eq_zero_iff.mp hzero)

theorem ipv4Group_decimalText {n : ℕ} (hn : n ≤ 255) {rest : List UInt8}
    (hrest : ∀ c ∈ rest.head?, ¬IsDigit c) (group : ℕ) :
    ipv4Group ((if group > 0 then [0x2E] else []) ++ (decimalText n ++ rest)) group =
      some rest := by
  have hoctet := octet_decimalText hn hrest
  have hne := octet_ne_zero hn
  by_cases hgroup : group > 0
  · simp [ipv4Group, hgroup, hoctet, hne]
  · simp [ipv4Group, hgroup, hoctet, hne]

/-- The scanner accepts exactly the address literals. -/
theorem isIpv4Authority_iff {s : List UInt8} : isIpv4Authority s = true ↔ IsIpv4 s := by
  refine ⟨isIpv4_of_isIpv4Authority, ?_⟩
  rintro ⟨ha, hb, hc, hd, hport⟩
  rename_i a b c d port
  have hdot : ∀ t : List UInt8, ∀ c ∈ (0x2E :: t).head?, ¬IsDigit c := by
    intro t c hc
    cases hc
    decide
  have hend : ∀ c ∈ port.head?, ¬IsDigit c := by
    intro c hc
    cases hport with
    | absent => exact absurd hc (by simp)
    | given => cases hc; decide
  have h₁ := ipv4Group_decimalText ha (hdot (decimalText b ++ 0x2E :: (decimalText c ++
    0x2E :: (decimalText d ++ port)))) 0
  have h₂ := ipv4Group_decimalText hb (hdot (decimalText c ++ 0x2E :: (decimalText d ++ port))) 1
  have h₃ := ipv4Group_decimalText hc (hdot (decimalText d ++ port)) 2
  have h₄ := ipv4Group_decimalText hd hend 3
  have hgroups : (List.range 4).foldlM ipv4Group (dotted a b c d ++ port) = some port := by
    simp only [gt_iff_lt, lt_irrefl, if_false, Nat.zero_lt_succ, if_true, List.nil_append,
      List.cons_append] at h₁ h₂ h₃ h₄
    simp [List.range_succ, dotted, h₁, h₂, h₃, h₄]
  simp only [isIpv4Authority, hgroups]
  cases hport with
  | absent => rfl
  | @given digits hne hlen hdigits =>
    have hport : ¬(digits = [] ∨ digits.length > 5) := by
      rintro (hnil | hlong)
      · exact hne hnil
      · omega
    simp only [hport, ne_eq, not_true_eq_false, if_false]
    rw [List.all_eq_true]
    exact fun c hc => by simpa [IsDigit] using hdigits c hc

/-- An origin is split where it names an authority, and only there. -/
theorem originAuthority_eq_some_iff {origin authority : List UInt8} :
    originAuthority origin = some authority ↔ authority ≠ [] ∧ IsOriginOf authority origin := by
  constructor
  · intro h
    refine ⟨?_, isOriginOf_of_originAuthority h⟩
    obtain ⟨scheme, -, hpick⟩ := List.exists_of_findSome?_eq_some h
    split_ifs at hpick with hname
    rintro rfl
    have hdrop := congrArg List.length (Option.some.inj hpick)
    rw [List.length_drop] at hdrop
    simp only [List.length_nil] at hdrop
    omega
  · rintro ⟨hne, scheme, rfl, hscheme⟩
    have hpos := List.length_pos_iff.mpr hne
    have hmatch : ∀ lit, scheme.map lower = lit →
        (if (scheme ++ authority).length > lit.length ∧
            nameIs ((scheme ++ authority).take lit.length) lit then
          some ((scheme ++ authority).drop lit.length) else none) = some authority := by
      rintro _ rfl
      rw [List.length_map, List.take_left, List.drop_left, if_pos]
      refine ⟨?_, nameIs_iff.mpr rfl⟩
      rw [List.length_append]
      omega
    simp only [originAuthority, originSchemes, List.findSome?_cons, List.findSome?_nil]
    rcases hscheme with hhttp | hhttps
    · rw [hmatch _ hhttp]
    · -- "https:/" is not "http://"
      have hother : ¬((scheme ++ authority).length > (ascii "http://").length ∧
          nameIs ((scheme ++ authority).take (ascii "http://").length) (ascii "http://")) := by
        rintro ⟨-, hname⟩
        have hlength := congrArg List.length hhttps
        rw [List.length_map] at hlength
        rw [nameIs_iff, List.take_append_of_le_length (hlength ▸ by decide), List.map_take,
          hhttps] at hname
        exact absurd hname (by decide)
      rw [if_neg hother, hmatch _ hhttps]

end Addresses

section Fields

theorem isTrimmed_trimOws (raw : List UInt8) : IsTrimmed raw (trimOws raw) := by
  refine ⟨raw.takeWhile isOws, (raw.dropWhile isOws).rtakeWhile isOws, ?_, ?_, ?_, ?_⟩
  · rw [trimOws, List.append_assoc, List.rdropWhile_append_rtakeWhile,
      List.takeWhile_append_dropWhile]
  · intro c hc
    rcases List.mem_append.mp hc with hc | hc
    · exact List.mem_takeWhile_imp hc
    · exact List.mem_rtakeWhile_imp hc
  · intro c hc
    obtain ⟨rest, hrest⟩ := List.rdropWhile_prefix isOws (raw.dropWhile isOws)
    have hne : raw.dropWhile isOws ≠ [] := by
      intro hnil
      simp [trimOws, hnil] at hc
    have hhead : (raw.dropWhile isOws).head hne = c := by
      rw [List.head_eq_iff_head?_eq_some, ← hrest, List.head?_append]
      simpa [trimOws] using Or.inl hc
    rw [← hhead, List.head_dropWhile_not isOws hne]
    decide
  · intro c hc
    obtain ⟨hne, rfl⟩ := List.mem_getLast?_eq_getLast hc
    exact List.rdropWhile_last_not _ _ hne

theorem isField_of_headerField {line : List UInt8} {field : List UInt8 × List UInt8}
    (h : headerField line = some field) : IsField line field := by
  simp only [headerField] at h
  split_ifs at h with hcolon hname
  obtain rfl := Option.some.inj h
  push Not at hname
  refine ⟨_, eq_takeWhile_append hcolon, notMem_takeWhile_ne _ _, hname.1, ?_,
    isTrimmed_trimOws _⟩
  intro c hc
  have hlast := hname.2
  dsimp only at hc
  rw [Option.mem_def.mp hc] at hlast
  simpa using hlast

/-- The values of the gate are those of the fields read so far. -/
structure Holds (f : GateFields) (fields : List (List UInt8 × List UInt8)) : Prop where
  token : valuesNamed "x-reflow-token" fields = f.token.toList
  origin : valuesNamed "origin" fields = f.origin.toList
  host : valuesNamed "host" fields = f.host.toList

theorem valuesNamed_concat (name : String) (fields : List (List UInt8 × List UInt8))
    (field : List UInt8 × List UInt8) :
    valuesNamed name (fields ++ [field]) =
      valuesNamed name fields ++ if field.1.map lower = ascii name then [field.2] else [] := by
  simp only [valuesNamed]
  split_ifs with hname <;> simp [hname]

/-- A value is only stored where there was none. -/
theorem eq_of_storeValue {stored : Option (List UInt8)} {val v : List UInt8}
    (h : storeValue stored val = some v) : stored = none ∧ v = val := by
  simp only [storeValue] at h
  split_ifs at h with hseen hlen
  exact ⟨by simpa using hseen, (Option.some.inj h).symm⟩

theorem holds_of_storeField {f f' : GateFields} {fields : List (List UInt8 × List UInt8)}
    {name val : List UInt8} (h : storeField f name val = some f') (hf : Holds f fields) :
    Holds f' (fields ++ [(name, val)]) := by
  obtain ⟨htoken, horigin, hhost⟩ := hf
  simp only [storeField] at h
  simp only [nameIs_iff] at h
  split_ifs at h with hname hname hname
  · obtain ⟨v, hv, rfl⟩ := Option.map_eq_some_iff.mp h
    obtain ⟨hnone, rfl⟩ := eq_of_storeValue hv
    constructor <;> simp [valuesNamed_concat, hname, htoken, horigin, hhost, hnone] <;> decide
  · obtain ⟨v, hv, rfl⟩ := Option.map_eq_some_iff.mp h
    obtain ⟨hnone, rfl⟩ := eq_of_storeValue hv
    constructor <;> simp [valuesNamed_concat, hname, htoken, horigin, hhost, hnone] <;> decide
  · obtain ⟨v, hv, rfl⟩ := Option.map_eq_some_iff.mp h
    obtain ⟨hnone, rfl⟩ := eq_of_storeValue hv
    constructor <;> simp [valuesNamed_concat, hname, htoken, horigin, hhost, hnone] <;> decide
  · obtain rfl := Option.some.inj h
    constructor <;> simp_all [valuesNamed_concat]

end Fields

end ReflowOven.HttpRequestGrammar

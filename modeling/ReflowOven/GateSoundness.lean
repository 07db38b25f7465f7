import ReflowOven.HttpRequestGrammar

/-!
# What the gate has read when it allows a request

The walk over the header block reads it line by line, so that the values it holds are
those of all fields of the block. What `reflow_gate_check` allows is then either a request
for something else, or a command that carries the token.
-/

namespace ReflowOven.GateSoundness

open HttpRequestGrammar

section Blocks

theorem exists_of_crlf_prefix {s : List UInt8} (h : crlf <+: s) : ∃ t, s = 0x0D :: 0x0A :: t := by
  obtain ⟨t, rfl⟩ := h
  exact ⟨t, rfl⟩

/-- Two line breaks do not overlap. -/
theorem not_crlf_prefix_drop_succ {s : List UInt8} {k : ℕ} (h : crlf <+: s.drop k) :
    ¬crlf <+: s.drop (k + 1) := by
  obtain ⟨t, ht⟩ := exists_of_crlf_prefix h
  rw [← List.drop_drop, ht]
  rintro ⟨u, hu⟩
  simp [crlf] at hu

/-- The walk stands `room` bytes before the empty line that ends the header block. -/
def EndsAt (p : List UInt8) (room : ℕ) : Prop :=
  (room = 0 ∧ crlf <+: p) ∨ (2 ≤ room ∧ crlf ++ crlf <+: p.drop (room - 2))

theorem endsAt_of_strstr {s : List UInt8} {room : ℕ} (hs : crlf <+: s)
    (hroom : crlf ++ crlf <+: s.drop room) : EndsAt (s.drop 2) room := by
  match room with
  | 0 =>
    obtain ⟨t, rfl⟩ := hroom
    exact .inl ⟨rfl, t, rfl⟩
  | 1 => exact absurd ((List.prefix_append _ _).trans hroom) (not_crlf_prefix_drop_succ (k := 0) hs)
  | room + 2 =>
    refine .inr ⟨by omega, ?_⟩
    rwa [List.drop_drop, show 2 + (room + 2 - 2) = room + 2 by omega]

theorem endsAt_drop {p : List UInt8} {room k : ℕ} (hend : EndsAt p room) (hroom : room ≠ 0)
    (hk : strstr crlf p = some k) : EndsAt (p.drop (k + 2)) (room - (k + 2)) := by
  obtain ⟨hzero, -⟩ | ⟨hroom, hblank⟩ := hend
  · exact absurd hzero hroom
  obtain ⟨-, hat, hfirst⟩ := strstr_eq_some_iff.mp hk
  have hbreak : crlf <+: p.drop (room - 2) := (List.prefix_append _ _).trans hblank
  have hle : k ≤ room - 2 := by
    by_contra hlt
    exact hfirst _ (by omega) hbreak
  have hapart : room - 2 ≠ k + 1 := by
    intro heq
    exact not_crlf_prefix_drop_succ hat (heq ▸ hbreak)
  by_cases hlast : k = room - 2
  · refine .inl ⟨by omega, ?_⟩
    obtain ⟨t, ht⟩ := hblank
    rw [← List.drop_drop, hlast, ← ht]
    exact ⟨t, rfl⟩
  · refine .inr ⟨by omega, ?_⟩
    rwa [List.drop_drop, show k + 2 + (room - (k + 2) - 2) = room - 2 by omega]

/-- What one pass of the walk does. -/
theorem collect_cases {p : List UInt8} {room : ℕ} {f f' : GateFields}
    (h : collect p room f = some f') (hroom : room ≠ 0) :
    ∃ k, strstr crlf p = some k ∧
      (k = 0 ∧ f' = f ∨ k ≠ 0 ∧ ∃ name val f₁, headerField (p.take k) = some (name, val) ∧
        storeField f name val = some f₁ ∧
        collect (p.drop (k + 2)) (room - (k + 2)) f₁ = some f') := by
  rw [collect, if_neg hroom] at h
  split at h
  · exact absurd h (by simp)
  next k hk =>
    refine ⟨k, hk, ?_⟩
    split_ifs at h with hfar hempty
    · exact .inl ⟨hempty, (Option.some.inj h).symm⟩
    · cases hline : headerField (p.take k) with
      | none => simp [hline] at h
      | some field =>
        obtain ⟨name, val⟩ := field
        cases hstore : storeField f name val with
        | none => simp [hline, hstore] at h
        | some f₁ =>
          simp only [hline, hstore] at h
          exact .inr ⟨hempty, name, val, f₁, rfl, hstore, h⟩

theorem isBlock_nil {p : List UInt8} (hp : crlf <+: p) : IsBlock p [] := by
  obtain ⟨body, rfl⟩ := hp
  exact ⟨⟨body, by simp⟩, by simp⟩

theorem isBlock_cons {p : List UInt8} {k : ℕ} {lines : List (List UInt8)}
    (hk : strstr crlf p = some k) (hk0 : k ≠ 0) (h : IsBlock (p.drop (k + 2)) lines) :
    IsBlock p (p.take k :: lines) := by
  obtain ⟨⟨body, hbody⟩, hlines⟩ := h
  obtain ⟨heq, hlen⟩ := eq_append_of_strstr hk
  refine ⟨⟨body, ?_⟩, ?_⟩
  · calc p = p.take k ++ crlf ++ p.drop (k + 2) := heq
      _ = p.take k ++ crlf ++ (lines.flatMap (· ++ crlf) ++ crlf ++ body) := by rw [← hbody]
      _ = (p.take k :: lines).flatMap (· ++ crlf) ++ crlf ++ body := by simp
  · intro line hline
    rcases List.mem_cons.mp hline with rfl | hline
    · refine ⟨fun hnil => hk0 ?_, not_infix_take_of_strstr hk (by decide)⟩
      rw [← hlen, hnil, List.length_nil]
    · exact hlines line hline

/-- The walk has read the lines of the header block as fields, and holds their values. -/
theorem isBlock_of_collect {p : List UInt8} {room : ℕ} {f f' : GateFields}
    (h : collect p room f = some f') (hend : EndsAt p room)
    {seen : List (List UInt8 × List UInt8)} (hf : Holds f seen) :
    ∃ lines fields, IsBlock p lines ∧ List.Forall₂ IsField lines fields ∧
      Holds f' (seen ++ fields) := by
  induction hn : p.length using Nat.strong_induction_on generalizing p room f seen with
  | _ n ih =>
    by_cases hroom : room = 0
    · obtain ⟨-, hp⟩ | ⟨htwo, -⟩ := hend
      · rw [collect, if_pos hroom] at h
        obtain rfl := Option.some.inj h
        exact ⟨[], [], isBlock_nil hp, .nil, by simpa using hf⟩
      · omega
    · obtain ⟨k, hk, ⟨rfl, rfl⟩ | ⟨hk0, name, val, f₁, hline, hstore, hrest⟩⟩ :=
        collect_cases h hroom
      · exact ⟨[], [], isBlock_nil (strstr_eq_some_iff.mp hk).2.1, .nil, by simpa using hf⟩
      · have hshort : (p.drop (k + 2)).length < n := by
          have hle := (strstr_eq_some_iff.mp hk).1
          rw [List.length_drop]
          omega
        obtain ⟨lines, fields, hblock, hfields, hholds⟩ :=
          ih _ hshort hrest (endsAt_drop hend hroom hk) (holds_of_storeField hstore hf) rfl
        exact ⟨_, _, isBlock_cons hk hk0 hblock, .cons (isField_of_headerField hline) hfields,
          by simpa using hholds⟩

end Blocks

section Decisions

theorem authorises_of_gateFields {token : List UInt8} {f : GateFields}
    {fields : List (List UInt8 × List UInt8)} (h : gateFields token f = .allow)
    (hf : Holds f fields) : Authorises token fields := by
  obtain ⟨htoken, horigin, hhost⟩ := hf
  obtain ⟨c, cs, hh⟩ : ∃ c cs, f.host = some (c :: cs) := by
    match hh : f.host with
    | none => simp [gateFields, hh] at h
    | some [] => simp [gateFields, hh] at h
    | some (c :: cs) => exact ⟨c, cs, rfl⟩
  simp only [gateFields, hh] at h
  split_ifs at h with hip hsame
  have hip : IsIpv4 (c :: cs) := isIpv4_of_isIpv4Authority (by simpa using hip)
  constructor
  · cases htok : f.token with
    | none => simp [htok] at h
    | some got =>
      simp only [htok] at h
      split_ifs at h with hgot
      rw [htoken, htok, tokenOk_iff.mp hgot, Option.toList_some]
  · refine ⟨c :: cs, by rw [hhost, hh, Option.toList_some], hip, ?_⟩
    rw [horigin]
    intro origin hmem
    rw [Option.mem_toList] at hmem
    simp only [hmem] at hsame
    cases hauth : originAuthority origin with
    | none => simp [hauth] at hsame
    | some auth =>
      obtain rfl : auth = c :: cs := by simpa [hauth] using hsame
      exact isOriginOf_of_originAuthority hauth
  · rw [horigin]
    cases f.origin <;> simp

def inTarget (c : UInt8) : Bool := c ≠ 0x20 ∧ c ≠ 0x3F

/-- Cutting at the space and then at the query is one scan. -/
theorem takeWhile_target (rest : List UInt8) :
    (rest.takeWhile (· ≠ 0x20)).takeWhile (· ≠ 0x3F) = rest.takeWhile inTarget := by
  rw [List.takeWhile_takeWhile]
  congr
  funext c
  simp [inTarget, Bool.and_comm]

theorem isRequestLine_of_gateRequestLine {line method target : List UInt8}
    (h : gateRequestLine line = some (method, target)) : IsRequestLine line method target := by
  simp only [gateRequestLine] at h
  split_ifs at h with hsp
  obtain ⟨rfl, rfl⟩ := Prod.mk.inj (Option.some.inj h)
  have hline := eq_takeWhile_append hsp
  rw [takeWhile_target]
  have htarget {c : UInt8} (hc : c ∈ (line.dropWhile (· ≠ 0x20)).tail.takeWhile inTarget) :
      c ≠ 0x20 ∧ c ≠ 0x3F := by
    simpa [inTarget] using List.mem_takeWhile_imp hc
  refine ⟨(line.dropWhile (· ≠ 0x20)).tail.dropWhile inTarget, ?_, notMem_takeWhile_ne _ _,
    fun hc => (htarget hc).1 rfl, fun hc => (htarget hc).2 rfl, ?_⟩
  · rwa [List.takeWhile_append_dropWhile]
  · intro c hc
    have hnot := List.head?_dropWhile_not inTarget (line.dropWhile (· ≠ 0x20)).tail
    rw [Option.mem_def.mp hc] at hnot
    by_contra hboth
    simp [inTarget] at hnot
    tauto

/-- What the gate allows: requests for anything else, unread, and authorised commands. -/
theorem allow_cases {request token : CString}
    (h : reflowGateCheck (some request) (some token) = .allow) :
    ∃ lineEnd method target, strstr crlf request.bytes = some lineEnd ∧
      gateRequestLine (request.bytes.take lineEnd) = some (method, target) ∧
      (target = cmdTarget → method = ascii "POST" ∧ token.bytes ≠ [] ∧ ∃ lines fields,
        IsHead request.bytes (request.bytes.take lineEnd) lines ∧
        List.Forall₂ IsField lines fields ∧ Authorises token.bytes fields) := by
  simp only [reflowGateCheck] at h
  cases hline : strstr crlf request.bytes with
  | none => simp [hline] at h
  | some lineEnd =>
    cases hparts : gateRequestLine (request.bytes.take lineEnd) with
    | none => simp [hline, hparts] at h
    | some parts =>
      obtain ⟨method, target⟩ := parts
      refine ⟨lineEnd, method, target, rfl, hparts, ?_⟩
      rintro rfl
      simp only [hline, hparts] at h
      split_ifs at h with hother hmethod htoken
      · exact absurd rfl hother
      refine ⟨not_not.mp hmethod, htoken, ?_⟩
      cases hroom : strstr (crlf ++ crlf) (request.bytes.drop lineEnd) with
      | none => simp [hroom] at h
      | some room =>
        cases hwalk : collect (request.bytes.drop (lineEnd + 2)) room {} with
        | none => simp [hroom, hwalk] at h
        | some f =>
          simp only [hroom, hwalk] at h
          have hend : EndsAt (request.bytes.drop (lineEnd + 2)) room := by
            rw [← List.drop_drop]
            exact endsAt_of_strstr (strstr_eq_some_iff.mp hline).2.1
              (strstr_eq_some_iff.mp hroom).2.1
          have hnone : Holds {} [] := ⟨rfl, rfl, rfl⟩
          obtain ⟨lines, fields, hblock, hfields, hholds⟩ := isBlock_of_collect hwalk hend hnone
          exact ⟨lines, fields, ⟨not_infix_take_of_strstr hline (by decide), _,
            (eq_append_of_strstr hline).1, hblock⟩, hfields, authorises_of_gateFields h hholds⟩

end Decisions

end ReflowOven.GateSoundness

import ReflowOven.GateSoundness

/-!
# Header blocks as lists of lines

On a text that is written line by line the scanners of `httpgate.c` find the lines it was
written from, whatever bytes they hold, as long as no line is empty or broken. They read a
line exactly where the grammar has a reading for it.
-/

namespace ReflowOven.HeaderLines

open HttpRequestGrammar GateSoundness

section Scans

variable {line : List UInt8} {lines : List (List UInt8)}

/-- Where a line and its end begin, no line break begins before its end. -/
theorem not_crlf_prefix_drop (hline : Unbroken line) (rest : List UInt8) :
    ∀ j < line.length, ¬crlf <+: (line ++ (crlf ++ rest)).drop j := by
  intro j hj hinitial
  obtain ⟨t, ht⟩ := exists_of_crlf_prefix hinitial
  rw [List.drop_append_of_le_length hj.le] at ht
  have hline' := List.take_append_drop j line
  cases hrest : line.drop j with
  | nil => exact absurd (List.drop_eq_nil_iff.mp hrest) (Nat.not_le.mpr hj)
  | cons c after =>
    rw [hrest] at ht hline'
    obtain ⟨hcr, hafter⟩ := List.cons.inj ht
    cases after with
    | nil =>
      -- the line ends in a carriage return, and its end begins with another one
      exact absurd (List.cons.inj hafter).1 (by decide)
    | cons d after =>
      have hlf : d = 0x0A := (List.cons.inj hafter).1
      rw [hcr, hlf] at hline'
      refine hline ⟨line.take j, after, ?_⟩
      rw [List.append_assoc]
      exact hline'

theorem strstr_crlf_line (hline : Unbroken line) (rest : List UInt8) :
    strstr crlf (line ++ (crlf ++ rest)) = some line.length := by
  rw [strstr_append (not_crlf_prefix_drop hline rest), strstr_of_prefix (List.prefix_append _ _)]
  simp

theorem first_line_unique {line' rest rest' : List UInt8} (hline : Unbroken line)
    (hline' : Unbroken line') (h : line ++ (crlf ++ rest) = line' ++ (crlf ++ rest')) :
    line = line' ∧ rest = rest' := by
  have hend := strstr_crlf_line hline rest
  rw [h, strstr_crlf_line hline' rest'] at hend
  obtain ⟨hfirst, hafter⟩ := List.append_inj h (Option.some.inj hend).symm
  exact ⟨hfirst, List.append_cancel_left hafter⟩

theorem unbroken_nil : Unbroken [] := by
  rw [Unbroken, List.infix_nil]
  decide

/-- From the end of one line to the end of the next, no empty line begins. -/
theorem strstr_blank_line (hline : Unbroken line) (hne : line ≠ []) (rest : List UInt8) :
    strstr (crlf ++ crlf) (crlf ++ line ++ (crlf ++ rest)) =
      (strstr (crlf ++ crlf) (crlf ++ rest)).map (· + (line.length + 2)) := by
  rw [strstr_append]
  · rfl
  · intro j hj hinitial
    match j with
    | 0 =>
      rw [List.drop_zero, List.append_assoc, List.prefix_append_right_inj] at hinitial
      exact not_crlf_prefix_drop hline rest 0 (List.length_pos_iff.mpr hne) hinitial
    | 1 =>
      obtain ⟨t, ht⟩ := hinitial
      have hlf : (0x0A : UInt8) = 0x0D := by simpa [crlf] using congrArg List.head? ht.symm
      exact absurd hlf (by decide)
    | j + 2 =>
      have hbreak : crlf <+: (line ++ (crlf ++ rest)).drop j :=
        (List.prefix_append _ _).trans (by simpa [crlf] using hinitial)
      refine not_crlf_prefix_drop hline rest j ?_ hbreak
      simp only [crlf, List.length_append, List.length_cons, List.length_nil] at hj ⊢
      omega

/-- The header block ends where its last line does. -/
theorem strstr_blank_header (hlines : ∀ line ∈ lines, line ≠ [] ∧ Unbroken line)
    (body : List UInt8) :
    strstr (crlf ++ crlf) (crlf ++ (lines.flatMap (· ++ crlf) ++ (crlf ++ body))) =
      some (lines.flatMap (· ++ crlf)).length := by
  induction lines with
  | nil => exact strstr_of_prefix ⟨body, by simp⟩
  | cons line lines ih =>
    obtain ⟨⟨hne, hline⟩, hlines⟩ := List.forall_mem_cons.mp hlines
    have hsplit : crlf ++ ((line :: lines).flatMap (· ++ crlf) ++ (crlf ++ body)) =
        crlf ++ line ++ (crlf ++ (lines.flatMap (· ++ crlf) ++ (crlf ++ body))) := by simp
    rw [hsplit, strstr_blank_line hline hne, ih hlines]
    simp only [List.flatMap_cons, crlf, List.length_append, List.length_cons, List.length_nil,
      Option.map_some]
    congr 1
    omega

end Scans

section Fields

theorem trimOws_pad {before value after : List UInt8} (h : ∀ c ∈ before ++ after, isOws c) :
    trimOws (before ++ value ++ after) = trimOws value := by
  have hbefore : ∀ c ∈ before, isOws c := fun c hc => h c (List.mem_append_left _ hc)
  have hafter : ∀ c ∈ after, isOws c := fun c hc => h c (List.mem_append_right _ hc)
  have hright : ∀ s, (s ++ after).rdropWhile isOws = s.rdropWhile isOws := by
    intro s
    simp only [List.rdropWhile, List.reverse_append]
    rw [List.dropWhile_append_of_pos (by simpa using hafter)]
  simp only [trimOws, List.append_assoc, List.dropWhile_append_of_pos hbefore,
    List.dropWhile_append]
  split
  · next hempty =>
    rw [List.isEmpty_iff.mp hempty, List.dropWhile_eq_nil_iff.mpr hafter]
  · exact hright _

theorem trimOws_eq_iff {raw value : List UInt8} : trimOws raw = value ↔ IsTrimmed raw value := by
  refine ⟨fun h => h ▸ isTrimmed_trimOws raw, ?_⟩
  rintro ⟨before, after, rfl, hpad, hhead, hlast⟩
  have hleft : value.dropWhile isOws = value := by
    rw [List.dropWhile_eq_self_iff]
    exact fun hpos => hhead _ (by simp [List.head?_eq_getElem?, hpos])
  have hright : value.rdropWhile isOws = value := by
    rw [List.rdropWhile_eq_self_iff]
    exact fun hne => hlast _ (List.getLast?_eq_some_getLast hne)
  rw [trimOws_pad hpad, trimOws, hleft, hright]

theorem headerField_eq_some_iff {line : List UInt8} {field : List UInt8 × List UInt8} :
    headerField line = some field ↔ IsField line field := by
  refine ⟨isField_of_headerField, ?_⟩
  rintro ⟨raw, rfl, hcolon, hne, hlast, htrimmed⟩
  have hname : ¬(field.1 = [] ∨ (field.1.getLast?.map isOws).getD false) := by
    rintro (hnil | hows)
    · exact hne hnil
    · rw [List.getLast?_eq_some_getLast hne] at hows
      exact hlast _ (List.getLast?_eq_some_getLast hne) (by simpa using hows)
  rw [headerField, if_neg (by simp)]
  simp only [takeWhile_ne_append_cons hcolon, tail_dropWhile_ne_append_cons hcolon]
  rw [if_neg hname, trimOws_eq_iff.mpr htrimmed]

theorem gateRequestLine_eq_some_iff {line method target : List UInt8} :
    gateRequestLine line = some (method, target) ↔ IsRequestLine line method target := by
  refine ⟨isRequestLine_of_gateRequestLine, ?_⟩
  rintro ⟨after, rfl, hmethod, hspace, hquery, hafter⟩
  have htarget : (target ++ after).takeWhile inTarget = target := by
    rw [List.takeWhile_append_of_pos]
    · cases after with
      | nil => simp
      | cons c after =>
        have hc : inTarget c = false := by simpa [inTarget, or_iff_not_imp_left] using hafter c rfl
        rw [List.takeWhile_cons_of_neg (by simp [hc]), List.append_nil]
    · intro c hc
      have hne : c ≠ 0x20 ∧ c ≠ 0x3F :=
        ⟨fun heq => hspace (heq ▸ hc), fun heq => hquery (heq ▸ hc)⟩
      simpa [inTarget] using hne
  rw [gateRequestLine, if_neg (by simp)]
  simp only [takeWhile_ne_append_cons hmethod, tail_dropWhile_ne_append_cons hmethod]
  rw [takeWhile_target, htarget]

end Fields

section Walk

variable {line : List UInt8} {lines : List (List UInt8)} {f f' : GateFields}

/-- What one pass of the walk does with a line. -/
def readLine (f : GateFields) (line : List UInt8) : Option GateFields :=
  (headerField line).bind fun entry => storeField f entry.1 entry.2

theorem collect_line (hline : Unbroken line) (hne : line ≠ []) (rest : List UInt8) (room : ℕ)
    (f : GateFields) : collect (line ++ (crlf ++ rest)) (line.length + 2 + room) f =
      (readLine f line).bind fun f => collect rest room f := by
  have hpos := List.length_pos_iff.mpr hne
  have hdrop : (line ++ (crlf ++ rest)).drop (line.length + 2) = rest := by
    rw [← List.drop_drop, List.drop_left]
    rfl
  rw [collect, if_neg (by omega), readLine]
  split
  · next hk => exact absurd (hk.symm.trans (strstr_crlf_line hline rest)) nofun
  · next k hk =>
    obtain rfl : line.length = k := Option.some.inj ((strstr_crlf_line hline rest).symm.trans hk)
    rw [if_neg (by omega), if_neg (by omega), List.take_left, hdrop, Nat.add_sub_cancel_left]
    cases headerField line with
    | none => rfl
    | some entry =>
      obtain ⟨name, val⟩ := entry
      cases hstore : storeField f name val with
      | none => simp [hstore]
      | some f => simp [hstore]

/-- The walk over a header block reads its lines one after another. -/
theorem collect_lines (hlines : ∀ line ∈ lines, line ≠ [] ∧ Unbroken line) (body : List UInt8)
    (f : GateFields) :
    collect (lines.flatMap (· ++ crlf) ++ (crlf ++ body)) (lines.flatMap (· ++ crlf)).length f =
      lines.foldlM readLine f := by
  induction lines generalizing f with
  | nil =>
    rw [collect, if_pos (by simp)]
    rfl
  | cons line lines ih =>
    obtain ⟨⟨hne, hline⟩, hlines⟩ := List.forall_mem_cons.mp hlines
    have hsplit : (line :: lines).flatMap (· ++ crlf) ++ (crlf ++ body) =
        line ++ (crlf ++ (lines.flatMap (· ++ crlf) ++ (crlf ++ body))) := by simp
    have hlength : ((line :: lines).flatMap (· ++ crlf)).length =
        line.length + 2 + (lines.flatMap (· ++ crlf)).length := by
      rw [List.flatMap_cons, List.length_append, List.length_append]
      rfl
    rw [hsplit, hlength, collect_line hline hne, List.foldlM_cons]
    simp only [ih hlines]
    rfl

def entries (lines : List (List UInt8)) : List (List UInt8 × List UInt8) :=
  lines.filterMap headerField

theorem foldlM_readLine (h : ∀ line ∈ lines, (headerField line).isSome) (f : GateFields) :
    lines.foldlM readLine f = (entries lines).foldlM (fun f e => storeField f e.1 e.2) f := by
  induction lines generalizing f with
  | nil => rfl
  | cons line lines ih =>
    obtain ⟨hline, hlines⟩ := List.forall_mem_cons.mp h
    obtain ⟨entry, hentry⟩ := Option.isSome_iff_exists.mp hline
    simp only [entries, List.filterMap_cons, hentry, List.foldlM_cons, readLine, Option.bind_some]
    exact congrArg _ (funext (ih hlines))

theorem isSome_of_foldlM_readLine (h : lines.foldlM readLine f = some f') :
    ∀ line ∈ lines, (headerField line).isSome := by
  induction lines generalizing f with
  | nil => exact fun line hline => absurd hline List.not_mem_nil
  | cons line lines ih =>
    obtain ⟨f₁, hline, hlines⟩ := Option.bind_eq_some_iff.mp h
    obtain ⟨entry, hentry, -⟩ := Option.bind_eq_some_iff.mp hline
    exact List.forall_mem_cons.mpr ⟨hentry ▸ rfl, ih hlines⟩

end Walk

end ReflowOven.HeaderLines

import ReflowOven.CommandQueryGrammar

/-!
# Acceptance of command queries

The verdict of the parser, read off its flags: a query that makes up a command is
accepted as that command, and any other is rejected, with a stop for the oven if one of
its segments asks for it.
-/

namespace ReflowOven.CommandAcceptance

open CommandQueryGrammar

/-- The pairs the parser reads from the segments make up a command. -/
structure Legible (segs : List (List UInt8)) (id : ReflowCmdId) (arg : Option ℕ) : Prop where
  readable : segs.any unreadable = false
  id_once : valuesOf "id" (segs.map view) = [commandName id]
  argument : Argument (segs.map view) arg
  in_range : id = .selectProfile → ∃ n, arg = some n ∧ n < reflowProfileCount

/-- The command that an identifier and an argument stand for. -/
def command (id : ReflowCmdId) (arg : Option ℕ) : ReflowCmd :=
  ⟨id.toU8, if id = .selectProfile then (arg.getD 0 : ℕ) else 0⟩

theorem accepts_iff_legible {segs : List (List UInt8)} (hnul : ∀ seg ∈ segs, 0 ∉ seg)
    (cmd : ReflowCmd) :
    Accepts segs cmd ↔ ∃ id arg, Legible segs id arg ∧ cmd = command id arg := by
  constructor
  · rintro (⟨hreads, hid, harg, hne⟩ | ⟨hreads, hid, harg, hn⟩)
    · obtain ⟨hread, rfl⟩ := (forall₂_reads_iff hnul _).mp hreads
      exact ⟨_, _, ⟨hread, hid, harg, fun he => absurd he hne⟩, by simp [command, hne]⟩
    · obtain ⟨hread, rfl⟩ := (forall₂_reads_iff hnul _).mp hreads
      exact ⟨_, _, ⟨hread, hid, harg, fun _ => ⟨_, rfl, hn⟩⟩, by simp [command]⟩
  · rintro ⟨id, arg, ⟨hread, hid, harg, hrange⟩, rfl⟩
    have hreads := (forall₂_reads_iff hnul _).mpr ⟨hread, rfl⟩
    by_cases hsel : id = .selectProfile
    · obtain ⟨n, rfl, hn⟩ := hrange hsel
      subst hsel
      simpa [command] using Accepts.profile hreads hid harg hn
    · simpa [command, hsel] using Accepts.plain hreads hid harg hsel

private theorem toU8_eq_selectProfile (id : ReflowCmdId) :
    id.toU8 = ReflowCmdId.selectProfile.toU8 ↔ id = .selectProfile := by
  cases id <;> decide

/-- The flags the argument leaves. -/
theorem summary_of_argument {segs : List (List UInt8)} {arg : Option ℕ}
    (h : Argument (segs.map view) arg) :
    (summary segs).haveArg = arg.isSome ∧ (summary segs).arg = (arg.getD 0 : ℕ) ∧
      repeated (valuesOf "arg" (segs.map view)) = false ∧
      (valuesOf "arg" (segs.map view)).any (fun v => (parseIndex v).isNone) = false := by
  cases h with
  | absent h => simp [summary, h, repeated]
  | given h hn => simp [summary, h, repeated, (parseIndex_eq_some_iff _ _).mpr hn]

theorem exists_argument {pairs : List (List UInt8 × List UInt8)}
    (hone : repeated (valuesOf "arg" pairs) = false)
    (hgood : (valuesOf "arg" pairs).any (fun v => (parseIndex v).isNone) = false) :
    ∃ arg, Argument pairs arg := by
  simp only [repeated, decide_eq_false_iff_not, not_lt] at hone
  cases hvalues : valuesOf "arg" pairs with
  | nil => exact ⟨none, .absent hvalues⟩
  | cons text rest =>
    cases rest with
    | nil =>
      simp only [hvalues, List.any_cons, List.any_nil, Bool.or_false,
        Option.isNone_eq_false_iff, Option.isSome_iff_exists] at hgood
      obtain ⟨n, hn⟩ := hgood
      exact ⟨some n, .given hvalues ((parseIndex_eq_some_iff _ _).mp hn)⟩
    | cons _ _ => simp [hvalues] at hone

theorem exists_id {pairs : List (List UInt8 × List UInt8)}
    (hsome : (valuesOf "id" pairs).isEmpty = false)
    (hone : repeated (valuesOf "id" pairs) = false)
    (hgood : (valuesOf "id" pairs).any (fun v => (commandId v).isNone) = false) :
    ∃ id, valuesOf "id" pairs = [commandName id] := by
  simp only [repeated, decide_eq_false_iff_not, not_lt] at hone
  cases hvalues : valuesOf "id" pairs with
  | nil => simp [hvalues] at hsome
  | cons name rest =>
    cases rest with
    | nil =>
      simp only [hvalues, List.any_cons, List.any_nil, Bool.or_false,
        Option.isNone_eq_false_iff, Option.isSome_iff_exists] at hgood
      obtain ⟨id, hid⟩ := hgood
      exact ⟨id, by rw [(commandId_eq_some_iff _ _).mp hid]⟩
    | cons _ _ => simp [hvalues] at hone

theorem summary_of_id {segs : List (List UInt8)} {id : ReflowCmdId}
    (h : valuesOf "id" (segs.map view) = [commandName id]) :
    (summary segs).haveId = true ∧ (summary segs).id = id.toU8 ∧
      repeated (valuesOf "id" (segs.map view)) = false ∧
      (valuesOf "id" (segs.map view)).any (fun v => (commandId v).isNone) = false := by
  simp [summary, h, repeated, (commandId_eq_some_iff _ _).mpr rfl]

theorem verdict_of_legible {segs : List (List UInt8)} {id : ReflowCmdId} {arg : Option ℕ}
    (h : Legible segs id arg) (cmd : ReflowCmd) :
    parseVerdict (summary segs) cmd = (.ok, command id arg) := by
  obtain ⟨hhave, hid, hrep, hgood⟩ := summary_of_id h.id_once
  obtain ⟨hhaveArg, harg, hrepArg, hgoodArg⟩ := summary_of_argument h.argument
  have hamb : (summary segs).ambiguous = false := by simp [summary, hrep, hrepArg]
  have hmal : (summary segs).malformed = false := by simp [summary, h.readable, hgood, hgoodArg]
  have hrange : ¬(id = .selectProfile ∧
      (arg.isSome = false ∨ ((arg.getD 0 : ℕ) : ℤ) < 0 ∨ ((arg.getD 0 : ℕ) : ℤ) ≥
        reflowProfileCount)) := by
    rintro ⟨hsel, hbad⟩
    obtain ⟨n, rfl, hn⟩ := h.in_range hsel
    rcases hbad with hbad | hbad | hbad
    · simp at hbad
    · simp only [Option.getD_some] at hbad
      omega
    · simp only [Option.getD_some] at hbad
      omega
  simp only [parseVerdict]
  simp only [hhave, hid, hhaveArg, harg, hamb, hmal, toU8_eq_selectProfile, if_neg hrange]
  rfl

theorem legible_of_flags {segs : List (List UInt8)} (hid : (summary segs).haveId = true)
    (hamb : (summary segs).ambiguous = false) (hmal : (summary segs).malformed = false)
    (hrange : ¬((summary segs).id = ReflowCmdId.selectProfile.toU8 ∧
      ((summary segs).haveArg = false ∨ (summary segs).arg < 0 ∨
        (summary segs).arg ≥ reflowProfileCount))) : ∃ id arg, Legible segs id arg := by
  simp only [summary, Bool.not_eq_true'] at hid
  simp only [summary, Bool.or_eq_false_iff] at hamb hmal
  obtain ⟨id, hname⟩ := exists_id hid hamb.1 hmal.1.2
  obtain ⟨arg, harg⟩ := exists_argument hamb.2 hmal.2
  refine ⟨id, arg, hmal.1.1, hname, harg, fun hsel => ?_⟩
  obtain ⟨hhaveArg, hvalue, -⟩ := summary_of_argument harg
  rw [(summary_of_id hname).2.1, toU8_eq_selectProfile, hhaveArg, hvalue] at hrange
  cases arg with
  | none => exact absurd ⟨hsel, .inl rfl⟩ hrange
  | some n =>
    refine ⟨n, rfl, ?_⟩
    by_contra hbig
    exact hrange ⟨hsel, .inr (.inr (by simp only [Option.getD_some]; omega))⟩

theorem verdict_of_illegible {segs : List (List UInt8)} (h : ¬∃ id arg, Legible segs id arg)
    (cmd : ReflowCmd) : parseVerdict (summary segs) cmd =
      if commandName .stop ∈ valuesOf "id" (segs.map view) then
        (.rejectStop, ⟨ReflowCmdId.stop.toU8, 0⟩)
      else (.reject, cmd) := by
  have hstop : (summary segs).sawStop =
      decide (commandName .stop ∈ valuesOf "id" (segs.map view)) := rfl
  cases hid : (summary segs).haveId with
  | false =>
    have hnone : valuesOf "id" (segs.map view) = [] := by simpa [summary] using hid
    simp [parseVerdict, hid, hnone]
  | true =>
    have hbad : ((summary segs).ambiguous || if (summary segs).id =
        ReflowCmdId.selectProfile.toU8 ∧ ((summary segs).haveArg = false ∨
          (summary segs).arg < 0 ∨ (summary segs).arg ≥ reflowProfileCount) then true
        else (summary segs).malformed) = true := by
      by_contra hgood
      simp only [Bool.or_eq_true, not_or, Bool.not_eq_true] at hgood
      split_ifs at hgood with hrange
      · exact hgood.2.elim
      · exact h (legible_of_flags hid hgood.1 hgood.2 hrange)
    simp only [parseVerdict]
    simp only [hid, hbad, hstop]
    simp

theorem notMem_segments {query : List UInt8} (hnul : 0 ∉ query) :
    ∀ seg ∈ segments query, 0 ∉ seg :=
  fun _ hseg hmem => hnul (mem_of_mem_segments hseg hmem)

theorem reflowCmdParse_eq (query : CString) (cmd : ReflowCmd) :
    reflowCmdParse (some query) cmd = parseVerdict (summary (segments query.bytes)) cmd := by
  simp only [reflowCmdParse, parseLoop_eq_foldl, foldl_parseSegment]

/-- The pairs name a stop exactly when a segment encodes one. -/
theorem stop_mem_iff {segs : List (List UInt8)} (hnul : ∀ seg ∈ segs, 0 ∉ seg) :
    commandName .stop ∈ valuesOf "id" (segs.map view) ↔ AsksStop segs := by
  have hview : ∀ seg ∈ segs, view seg = (ascii "id", ascii "stop") ↔
      Encodes seg (ascii "id") (ascii "stop") := fun seg hseg =>
    view_eq_iff_encodes (hnul seg hseg) (by decide) (by decide) (by unfold IsToken; decide)
      (by unfold IsToken; decide)
  simp only [AsksStop, valuesOf]
  simp only [List.mem_map, List.mem_filter, decide_eq_true_eq]
  constructor
  · rintro ⟨pair, ⟨⟨seg, hseg, rfl⟩, hkey⟩, hvalue⟩
    exact ⟨seg, hseg, (hview seg hseg).mp (Prod.ext hkey hvalue)⟩
  · rintro ⟨seg, hseg, hstop⟩
    have hpair := (hview seg hseg).mpr hstop
    exact ⟨view seg, ⟨⟨seg, hseg, rfl⟩, by rw [hpair]⟩, by rw [hpair]; rfl⟩

/-- The three outcomes of the parser. -/
theorem reflowCmdParse_cases (query : CString) (cmd : ReflowCmd) :
    (∃ c, Accepts (segments query.bytes) c ∧ reflowCmdParse (some query) cmd = (.ok, c)) ∨
    (¬∃ c, Accepts (segments query.bytes) c) ∧
      (AsksStop (segments query.bytes) ∧
          reflowCmdParse (some query) cmd = (.rejectStop, ⟨ReflowCmdId.stop.toU8, 0⟩) ∨
        ¬AsksStop (segments query.bytes) ∧ reflowCmdParse (some query) cmd = (.reject, cmd)) := by
  have hnul := notMem_segments query.noNul
  rw [reflowCmdParse_eq]
  by_cases h : ∃ id arg, Legible (segments query.bytes) id arg
  · obtain ⟨id, arg, hleg⟩ := h
    exact .inl ⟨_, (accepts_iff_legible hnul _).mpr ⟨id, arg, hleg, rfl⟩,
      verdict_of_legible hleg cmd⟩
  · have hnot : ¬∃ c, Accepts (segments query.bytes) c := by
      rintro ⟨c, hc⟩
      obtain ⟨id, arg, hleg, -⟩ := (accepts_iff_legible hnul c).mp hc
      exact h ⟨id, arg, hleg⟩
    refine .inr ⟨hnot, ?_⟩
    rw [verdict_of_illegible h, ← stop_mem_iff hnul]
    by_cases hstop : commandName .stop ∈ valuesOf "id" ((segments query.bytes).map view)
    · exact .inl ⟨hstop, if_pos hstop⟩
    · exact .inr ⟨hstop, if_neg hstop⟩

theorem accepts_of_ok {query : CString} {cmd c : ReflowCmd}
    (h : reflowCmdParse (some query) cmd = (.ok, c)) : Accepts (segments query.bytes) c := by
  obtain ⟨c', hacc, he⟩ | ⟨-, ⟨-, he⟩ | ⟨-, he⟩⟩ := reflowCmdParse_cases query cmd
  · obtain rfl : c' = c := congrArg Prod.snd (he.symm.trans h)
    exact hacc
  · exact absurd (congrArg Prod.fst (he.symm.trans h)) nofun
  · exact absurd (congrArg Prod.fst (he.symm.trans h)) nofun

theorem asksStop_of_rejectStop {query : CString} {cmd : ReflowCmd}
    (h : (reflowCmdParse (some query) cmd).1 = .rejectStop) : AsksStop (segments query.bytes) := by
  obtain ⟨c, -, he⟩ | ⟨-, ⟨hs, -⟩ | ⟨-, he⟩⟩ := reflowCmdParse_cases query cmd
  · exact absurd ((congrArg Prod.fst he).symm.trans h) nofun
  · exact hs
  · exact absurd ((congrArg Prod.fst he).symm.trans h) nofun

/-- What a query says determines its command. -/
theorem reflowCmdParse_of_accepts {query : CString} {c : ReflowCmd}
    (h : Accepts (segments query.bytes) c) (cmd : ReflowCmd) :
    reflowCmdParse (some query) cmd = (.ok, c) := by
  obtain ⟨id, arg, hleg, rfl⟩ := (accepts_iff_legible (notMem_segments query.noNul) c).mp h
  rw [reflowCmdParse_eq]
  exact verdict_of_legible hleg cmd

theorem accepts_perm {segs segs' : List (List UInt8)} (hnul : ∀ seg ∈ segs, 0 ∉ seg)
    (hperm : segs.Perm segs') {c : ReflowCmd} (h : Accepts segs c) : Accepts segs' c := by
  have hnul' : ∀ seg ∈ segs', 0 ∉ seg := fun seg hseg => hnul seg (hperm.mem_iff.mpr hseg)
  obtain ⟨id, arg, ⟨hread, hid, harg, hrange⟩, rfl⟩ := (accepts_iff_legible hnul c).mp h
  have hvalues : ∀ name, (valuesOf name (segs.map view)).Perm (valuesOf name (segs'.map view)) :=
    fun name => ((hperm.map view).filter _).map _
  refine (accepts_iff_legible hnul' _).mpr ⟨id, arg, ⟨?_, ?_, ?_, hrange⟩, rfl⟩
  · rwa [← hperm.any_eq]
  · have hids := hvalues "id"
    rw [hid] at hids
    exact List.perm_singleton.mp hids.symm
  · have hargs := hvalues "arg"
    cases harg with
    | absent hnone =>
      rw [hnone] at hargs
      exact .absent (List.perm_nil.mp hargs.symm)
    | given hsome hn =>
      rw [hsome] at hargs
      exact .given (List.perm_singleton.mp hargs.symm) hn

theorem asksStop_perm {segs segs' : List (List UInt8)} (hperm : segs.Perm segs')
    (h : AsksStop segs) : AsksStop segs' := by
  obtain ⟨seg, hseg, hstop⟩ := h
  exact ⟨seg, hperm.mem_iff.mp hseg, hstop⟩

theorem reflowCmdParse_perm {query query' : CString}
    (hperm : (segments query.bytes).Perm (segments query'.bytes)) (cmd : ReflowCmd) :
    reflowCmdParse (some query) cmd = reflowCmdParse (some query') cmd := by
  have hnul := notMem_segments query.noNul
  obtain ⟨c, hacc, he⟩ | ⟨hnot, hrest⟩ := reflowCmdParse_cases query cmd
  · rw [he, reflowCmdParse_of_accepts (accepts_perm hnul hperm hacc)]
  · have hnot' : ¬∃ c, Accepts (segments query'.bytes) c := fun ⟨c, hc⟩ =>
      hnot ⟨c, accepts_perm (notMem_segments query'.noNul) hperm.symm hc⟩
    have hstop : AsksStop (segments query.bytes) ↔ AsksStop (segments query'.bytes) :=
      ⟨asksStop_perm hperm, asksStop_perm hperm.symm⟩
    obtain ⟨_, hc, -⟩ | ⟨-, hrest'⟩ := reflowCmdParse_cases query' cmd
    · exact absurd ⟨_, hc⟩ hnot'
    · rcases hrest with ⟨hs, he⟩ | ⟨hs, he⟩ <;> rcases hrest' with ⟨hs', he'⟩ | ⟨hs', he'⟩
      · rw [he, he']
      · exact absurd (hstop.mp hs) hs'
      · exact absurd (hstop.mpr hs') hs
      · rw [he, he']

theorem exists_encodes {segs : List (List UInt8)} {pairs : List (List UInt8 × List UInt8)}
    (h : List.Forall₂ Reads segs pairs) {name : String} {v : List UInt8}
    (hv : v ∈ valuesOf name pairs) : ∃ seg ∈ segs, Encodes seg (ascii name) v := by
  induction h with
  | nil => simp [valuesOf] at hv
  | @cons seg pair segs pairs hreads _ ih =>
    simp only [valuesOf, List.mem_map, List.mem_filter, decide_eq_true_eq] at hv ih
    obtain ⟨p, ⟨hp, hkey⟩, rfl⟩ := hv
    rcases List.mem_cons.mp hp with rfl | hp
    · exact ⟨seg, List.mem_cons_self, hkey ▸ hreads.1⟩
    · obtain ⟨seg', hseg', henc⟩ := ih ⟨p, ⟨hp, hkey⟩, rfl⟩
      exact ⟨seg', List.mem_cons_of_mem _ hseg', henc⟩

/-- An accepted start was asked for in full. -/
theorem start_encoded {segs : List (List UInt8)} {c : ReflowCmd} (h : Accepts segs c)
    (hc : c.id = ReflowCmdId.start.toU8) :
    ∃ seg ∈ segs, Encodes seg (ascii "id") (ascii "start") := by
  cases h with
  | @plain pairs id arg hreads hid harg hne =>
    have hstart : id = .start := by
      revert hc
      cases id <;> decide
    subst hstart
    exact exists_encodes hreads (by rw [hid]; exact List.mem_singleton.mpr rfl)
  | profile hreads hid harg hn =>
    exact absurd (show ReflowCmdId.selectProfile.toU8 = _ from hc) (by decide)

/-- An accepted query that asks for a stop is a stop. -/
theorem stop_of_accepts {segs : List (List UInt8)} (hnul : ∀ seg ∈ segs, 0 ∉ seg)
    {c : ReflowCmd} (h : Accepts segs c) (hstop : AsksStop segs) :
    c = ⟨ReflowCmdId.stop.toU8, 0⟩ := by
  obtain ⟨id, arg, hleg, rfl⟩ := (accepts_iff_legible hnul c).mp h
  have hmem := (stop_mem_iff hnul).mpr hstop
  rw [hleg.id_once, List.mem_singleton] at hmem
  have hid : id = .stop := by
    revert hmem
    cases id <;> decide
  subst hid
  rfl

/-- Exact acceptance: the parser accepts what the grammar does, as the command the grammar
gives it, in any order of the segments; a start needs a segment that says so in full, and
a rejected query leaves the command untouched. -/
theorem reflowCmdParse_exact (query : CString) (cmd : ReflowCmd) :
    (∀ c, reflowCmdParse (some query) cmd = (.ok, c) ↔ Accepts (segments query.bytes) c) ∧
    (∀ query' : CString, (segments query.bytes).Perm (segments query'.bytes) →
      reflowCmdParse (some query) cmd = reflowCmdParse (some query') cmd) ∧
    (∀ c, (reflowCmdParse (some query) cmd).1 ≠ .reject →
      (reflowCmdParse (some query) cmd).2 = c → c.id = ReflowCmdId.start.toU8 →
      ∃ seg ∈ segments query.bytes, Encodes seg (ascii "id") (ascii "start")) ∧
    ((reflowCmdParse (some query) cmd).1 = .reject →
      (reflowCmdParse (some query) cmd).2 = cmd) := by
  refine ⟨fun c => ⟨accepts_of_ok, fun h => reflowCmdParse_of_accepts h cmd⟩,
    fun query' hperm => reflowCmdParse_perm hperm cmd, ?_, ?_⟩
  · rintro c hne rfl hstart
    obtain ⟨c, hacc, he⟩ | ⟨-, ⟨-, he⟩ | ⟨-, he⟩⟩ := reflowCmdParse_cases query cmd
    · rw [he] at hstart
      exact start_encoded hacc hstart
    · rw [he] at hstart
      exact absurd hstart (by decide)
    · exact absurd (congrArg Prod.fst he) hne
  · intro hreject
    obtain ⟨c, -, he⟩ | ⟨-, ⟨-, he⟩ | ⟨-, he⟩⟩ := reflowCmdParse_cases query cmd
    · exact absurd ((congrArg Prod.fst he).symm.trans hreject) nofun
    · exact absurd ((congrArg Prod.fst he).symm.trans hreject) nofun
    · rw [he]

theorem reflowCmdParse_exact_profile :
    Accepts (segments (ascii "arg=%32&id=profile&")) ⟨ReflowCmdId.selectProfile.toU8, 2⟩ :=
  ((reflowCmdParse_exact ⟨ascii "arg=%32&id=profile&", by decide⟩ ⟨0, 0⟩).1 _).mp
    (by decide +kernel)

/-- A stop is rescued: a query with a segment that asks for one is accepted as a stop or
rejected with a stop, and nothing else is rejected with a stop. -/
theorem reflowCmdParse_stop (query : CString) (cmd : ReflowCmd) :
    (AsksStop (segments query.bytes) →
      ((reflowCmdParse (some query) cmd).1 = .ok ∨
        (reflowCmdParse (some query) cmd).1 = .rejectStop) ∧
      (reflowCmdParse (some query) cmd).2 = ⟨ReflowCmdId.stop.toU8, 0⟩) ∧
    ((reflowCmdParse (some query) cmd).1 = .rejectStop → AsksStop (segments query.bytes)) := by
  refine ⟨fun hstop => ?_, asksStop_of_rejectStop⟩
  obtain ⟨c, hacc, he⟩ | ⟨-, ⟨-, he⟩ | ⟨hs, -⟩⟩ := reflowCmdParse_cases query cmd
  · rw [he]
    exact ⟨.inl rfl, stop_of_accepts (notMem_segments query.noNul) hacc hstop⟩
  · rw [he]
    exact ⟨.inr rfl, rfl⟩
  · exact absurd hstop hs

theorem reflowCmdParse_stop_twice : AsksStop (segments (ascii "id=start&%zz&id=st%6fp")) :=
  (reflowCmdParse_stop ⟨ascii "id=start&%zz&id=st%6fp", by decide⟩ ⟨0, 0⟩).2 (by decide +kernel)

end ReflowOven.CommandAcceptance

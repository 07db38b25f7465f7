import Mathlib.Data.List.Infix

/-!
# Lines of a stream that comes in chunks

A separator ends a line. The lines of a text are those that end in it, and the rest is the
line that it begins. A reader that keeps the rest of one chunk for the next one has seen, at
any time, exactly the lines of what has arrived, however it was cut. Of a stream that is made
of parts, what has arrived is some whole parts and a beginning of the next one.
-/

namespace ReflowOven.LineStreams

universe u v

variable {α : Type u}

/-- The text of lines that all end. -/
def terminated (sep : α) (ls : List (List α)) : List α := ls.flatMap (· ++ [sep])

@[simp] theorem terminated_nil (sep : α) : terminated sep [] = [] := rfl

@[simp] theorem terminated_cons (sep : α) (l : List α) (ls : List (List α)) :
    terminated sep (l :: ls) = l ++ sep :: terminated sep ls := by
  simp [terminated]

@[simp] theorem terminated_append (sep : α) (ls ls' : List (List α)) :
    terminated sep (ls ++ ls') = terminated sep ls ++ terminated sep ls' :=
  List.flatMap_append

variable [BEq α]

def lines (sep : α) (s : List α) : List (List α) := (s.splitOn sep).dropLast

def rest (sep : α) (s : List α) : List α := (s.splitOn sep).getLast (List.splitOn_ne_nil sep s)

/-- The state of a reader with the line begun, and a state that each line changes. -/
structure Reader (α : Type u) (σ : Type v) where
  buf : List α
  state : σ

/-- A chunk arrives, and the lines that end in it are handled. -/
def Reader.read {σ : Type v} (sep : α) (handle : σ → List α → σ) (r : Reader α σ)
    (chunk : List α) : Reader α σ where
  buf := rest sep (r.buf ++ chunk)
  state := (lines sep (r.buf ++ chunk)).foldl handle r.state

variable {sep : α}

theorem splitOn_eq (s : List α) : s.splitOn sep = lines sep s ++ [rest sep s] :=
  (List.dropLast_concat_getLast (List.splitOn_ne_nil sep s)).symm

variable [LawfulBEq α]

/-- Lines that end are split off, whatever stands behind them. -/
theorem splitOn_terminated {ls : List (List α)} (h : ∀ l ∈ ls, sep ∉ l) (s : List α) :
    (terminated sep ls ++ s).splitOn sep = ls ++ s.splitOn sep := by
  induction ls with
  | nil => rfl
  | cons l ls ih =>
    obtain ⟨hl, hls⟩ := List.forall_mem_cons.mp h
    rw [terminated_cons, List.append_assoc, List.cons_append,
      List.splitOn_append_cons_self_of_not_mem hl, ih hls, List.cons_append]

theorem lines_terminated {ls : List (List α)} (h : ∀ l ∈ ls, sep ∉ l) (s : List α) :
    lines sep (terminated sep ls ++ s) = ls ++ lines sep s := by
  rw [lines, splitOn_terminated h, List.dropLast_append_of_ne_nil (List.splitOn_ne_nil sep s)]
  rfl

theorem rest_terminated {ls : List (List α)} (h : ∀ l ∈ ls, sep ∉ l) (s : List α) :
    rest sep (terminated sep ls ++ s) = rest sep s := by
  have hsplit := splitOn_terminated h s
  rw [splitOn_eq, splitOn_eq s, ← List.append_assoc] at hsplit
  exact List.singleton_inj.mp (List.append_inj_right' hsplit rfl)

theorem lines_of_notMem {s : List α} (h : sep ∉ s) : lines sep s = [] := by
  rw [lines, List.splitOn_eq_singleton h]
  rfl

theorem rest_of_notMem {s : List α} (h : sep ∉ s) : rest sep s = s := by
  simp only [rest, List.splitOn_eq_singleton h, List.getLast_singleton]

variable (sep) in
/-- A text is its lines, each with its separator, and the rest. -/
theorem eq_terminated_append_rest (s : List α) :
    s = terminated sep (lines sep s) ++ rest sep s ∧ (∀ l ∈ lines sep s, sep ∉ l) ∧
      sep ∉ rest sep s := by
  by_cases hmem : sep ∈ s
  · obtain ⟨l, s', hs, hl⟩ := List.eq_append_cons_of_mem hmem
    have hall : ∀ l' ∈ [l], sep ∉ l' := List.forall_mem_singleton.mpr hl
    have hcut : s = terminated sep [l] ++ s' := by simpa using hs
    have hshort : s'.length < s.length := by simp [hs]; omega
    obtain ⟨heq, hlines, hrest⟩ := eq_terminated_append_rest s'
    rw [hcut, lines_terminated hall, rest_terminated hall]
    refine ⟨?_, List.forall_mem_append.mpr ⟨hall, hlines⟩, hrest⟩
    rw [terminated_append, List.append_assoc, ← heq]
  · rw [lines_of_notMem hmem, rest_of_notMem hmem]
    exact ⟨rfl, nofun, hmem⟩
termination_by s.length
decreasing_by exact hshort

theorem lines_append (s t : List α) :
    lines sep (s ++ t) = lines sep s ++ lines sep (rest sep s ++ t) := by
  obtain ⟨heq, hlines, -⟩ := eq_terminated_append_rest sep s
  conv_lhs => rw [heq, List.append_assoc, lines_terminated hlines]

theorem rest_append (s t : List α) : rest sep (s ++ t) = rest sep (rest sep s ++ t) := by
  obtain ⟨heq, hlines, -⟩ := eq_terminated_append_rest sep s
  conv_lhs => rw [heq, List.append_assoc, rest_terminated hlines]

variable (sep) in
/-- However a stream is cut, its reader has handled the lines of all of it. -/
theorem foldl_read {σ : Type v} (handle : σ → List α → σ) (state : σ) (s : List α)
    (chunks : List (List α)) :
    chunks.foldl (Reader.read sep handle) ⟨rest sep s, (lines sep s).foldl handle state⟩ =
      ⟨rest sep (s ++ chunks.flatten), (lines sep (s ++ chunks.flatten)).foldl handle state⟩ := by
  induction chunks generalizing s with
  | nil => simp
  | cons chunk chunks ih =>
    have hread : Reader.read sep handle ⟨rest sep s, (lines sep s).foldl handle state⟩ chunk =
        ⟨rest sep (s ++ chunk), (lines sep (s ++ chunk)).foldl handle state⟩ := by
      rw [rest_append, lines_append, List.foldl_append]
      rfl
    rw [List.foldl_cons, hread, ih, List.flatten_cons, List.append_assoc]

section Beginnings

omit [BEq α] [LawfulBEq α]

variable {parts : List (List α)}

/-- After `k` whole parts there is no more than a beginning of the next one. -/
def Cut (parts : List (List α)) (k : ℕ) (p : List α) : Prop :=
  k = parts.length ∧ p = [] ∨ ∃ part ∈ parts[k]?, p <+: part ∧ p ≠ part

theorem exists_cut {s : List α} (h : s <+: parts.flatten) :
    ∃ k p, s = (parts.take k).flatten ++ p ∧ Cut parts k p := by
  induction parts generalizing s with
  | nil => exact ⟨0, [], List.prefix_nil.mp h, .inl ⟨rfl, rfl⟩⟩
  | cons part parts ih =>
    by_cases hpart : part <+: s
    · obtain ⟨s, rfl⟩ := hpart
      rw [List.flatten_cons, List.prefix_append_right_inj] at h
      obtain ⟨k, p, rfl, hcut⟩ := ih h
      refine ⟨k + 1, p, by simp, ?_⟩
      simpa [Cut] using hcut
    · refine ⟨0, s, rfl, .inr ⟨part, rfl, ?_, ?_⟩⟩
      · exact (List.prefix_or_prefix_of_prefix h (List.prefix_append _ _)).resolve_right hpart
      · rintro rfl
        exact hpart List.prefix_rfl

/-- The whole parts of a beginning are all counted. -/
theorem Cut.le_of_prefix {p : List α} {j k : ℕ} (hcut : Cut parts k p) (hj : j ≤ parts.length)
    (h : (parts.take j).flatten <+: (parts.take k).flatten ++ p) : j ≤ k := by
  obtain ⟨rfl, -⟩ | ⟨part, hpart, hp, hne⟩ := hcut
  · exact hj
  · by_contra hlt
    obtain ⟨hk, rfl⟩ := List.getElem?_eq_some_iff.mp hpart
    have hmore : parts.take (k + 1) <+: parts.take j := List.take_prefix_take_left (by omega)
    rw [List.take_succ_eq_append_getElem hk] at hmore
    have hwhole := hmore.flatten.trans h
    rw [List.flatten_append, List.flatten_singleton, List.prefix_append_right_inj] at hwhole
    exact hne (hp.eq_of_length (Nat.le_antisymm hp.length_le hwhole.length_le))

end Beginnings

end ReflowOven.LineStreams

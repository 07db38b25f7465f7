import ReflowOven.SerialSession

/-!
# Orders over the serial port

The shell commands of `shell_cmds.c` that post, and the page that types them. The shell itself
splits what it receives into lines and words, and is a parameter. Whatever else the page writes
to a port, to poll the oven or to list its profiles, orders nothing.
-/

namespace ReflowOven.SerialOrders

open ClickAnswers CommandQueryGrammar LineStreams SerialConsole SerialSession

section Commands

/-- Of a number that an `int` holds. -/
def atoi (s : List UInt8) : ℤ :=
  match s.dropWhile isBlank with
  | 0x2D :: s => -decimal (s.takeWhile JsonReader.isDigit)
  | 0x2B :: s => decimal (s.takeWhile JsonReader.isDigit)
  | s => decimal (s.takeWhile JsonReader.isDigit)

theorem atoi_decimalText (v : ℕ) : atoi (decimalText v) = v := by
  have hdigits : ∀ c ∈ decimalText v, JsonReader.isDigit c = true := fun c hc => by
    obtain ⟨hlow, hhigh⟩ := digit_of_mem_decimalText hc
    exact decide_eq_true ⟨UInt8.le_iff_toNat_le.mpr hlow, UInt8.le_iff_toNat_le.mpr hhigh⟩
  have hvalue : (decimal ((decimalText v).takeWhile JsonReader.isDigit) : ℤ) = v := by
    rw [List.takeWhile_eq_self_iff.mpr hdigits, decimal, foldl_decimalText]
  obtain ⟨c, s, hcons, hc⟩ := JsonReader.exists_decimalText_cons v
  have hlow : 0x30 ≤ c.toNat := UInt8.le_iff_toNat_le.mp (of_decide_eq_true hc).1
  have hblank : ¬isBlank c = true := by
    simp only [isBlank, decide_eq_true_eq, UInt8.le_iff_toNat_le, ← UInt8.toNat_inj]
    simp
    omega
  rw [hcons] at hvalue ⊢
  rw [atoi, List.dropWhile_cons_of_neg hblank]
  split
  · next heq => cases heq; simp at hlow
  · next heq => cases heq; simp at hlow
  · exact hvalue

/-- What a command prints, by what the lines carry, and what it posts. -/
structure Response where
  prints : List Output
  posts : Option ReflowCmd

def post (id : ReflowCmdId) (arg : ℤ) : Response := ⟨[], some ⟨id.toU8, arg⟩⟩

/-- A handler knows the telemetry heard last; its `argv` begins with the name of its command. -/
abbrev Handler : Type := ReflowTelemetry → List (List UInt8) → Response

def cmdStatus : Handler := fun last _ =>
  ⟨(SerialConsole.cmdStatus last).map fun _ => .other, none⟩

def cmdJson : Handler := fun last _ => ⟨[.json last], none⟩

def cmdStart : Handler := fun _ _ => post .start 0

def cmdStop : Handler := fun _ _ => post .stop 0

def cmdClear : Handler := fun _ _ => post .clearFault 0

def cmdProfile : Handler
  | _, _ :: n :: _ => post .selectProfile (atoi n)
  | _, _ => ⟨(List.range reflowProfileCount).map .entry, none⟩

/-- `args` is how many words a command takes, its name included, and how many more it may
have, where that is checked. -/
structure Subcommand where
  name : List UInt8
  args : Option (ℕ × ℕ)
  handler : Handler

def reflowSub : List Subcommand :=
  [⟨ascii "status", none, cmdStatus⟩, ⟨ascii "json", none, cmdJson⟩,
    ⟨ascii "start", none, cmdStart⟩, ⟨ascii "stop", none, cmdStop⟩,
    ⟨ascii "clear", none, cmdClear⟩, ⟨ascii "profile", some (1, 1), cmdProfile⟩]

/-- A line of words is executed. What the shell itself says carries nothing. -/
def respond (last : ReflowTelemetry) : List (List UInt8) → Response
  | root :: name :: args =>
    if root = ascii "reflow" then
      ((reflowSub.find? fun c => c.name = name).filter fun c =>
        c.args.all fun a => a.1 ≤ args.length + 1 ∧ args.length + 1 ≤ a.1 + a.2).elim ⟨[], none⟩
          fun c => c.handler last (name :: args)
    else ⟨[], none⟩
  | _ => ⟨[], none⟩

/-- A line is answered by the handler of one command, or by none whatever was heard last. -/
theorem respond_cases (words : List (List UInt8)) :
    (∀ last, respond last words = ⟨[], none⟩) ∨
      ∃ c ∈ reflowSub, ∃ argv, ∀ last, respond last words = c.handler last argv := by
  rcases words with _ | ⟨root, _ | ⟨name, args⟩⟩
  · exact .inl fun _ => rfl
  · exact .inl fun _ => rfl
  · by_cases hroot : root = ascii "reflow"
    · simp only [respond, if_pos hroot]
      cases hfind : Option.filter _ _ with
      | none => exact .inl fun _ => rfl
      | some c =>
        have hmem := List.mem_of_find?_eq_some (Option.filter_eq_some_iff.mp hfind).1
        exact .inr ⟨c, hmem, name :: args, fun _ => rfl⟩
    · exact .inl fun _ => if_neg hroot

/-- What a line posts, which is the same whatever was heard last. -/
def execute (words : List (List UInt8)) : Option ReflowCmd := (respond Appliance.blank words).posts

theorem respond_posts (last : ReflowTelemetry) (words : List (List UInt8)) :
    (respond last words).posts = execute words := by
  have hposts : ∀ c ∈ reflowSub, ∀ argv : List (List UInt8),
      (c.handler last argv).posts = (c.handler Appliance.blank argv).posts := by
    simp only [reflowSub, List.forall_mem_cons]
    refine ⟨fun _ => rfl, fun _ => rfl, fun _ => rfl, fun _ => rfl, fun _ => rfl, fun argv => ?_,
      fun _ hc => absurd hc List.not_mem_nil⟩
    rcases argv with _ | ⟨name, _ | ⟨number, rest⟩⟩
    · rfl
    · rfl
    · rfl
  rcases respond_cases words with hnone | ⟨c, hc, argv, hresponse⟩
  · rw [execute, hnone, hnone]
  · rw [execute, hresponse, hresponse]
    exact hposts c hc argv

end Commands

section Words

def IsWord (w : List UInt8) : Prop :=
  w ≠ [] ∧ w.all fun c => 0x30 ≤ c ∧ c ≤ 0x39 ∨ 0x61 ≤ c ∧ c ≤ 0x7A

instance (w : List UInt8) : Decidable (IsWord w) := inferInstanceAs (Decidable (_ ∧ _))

theorem isWord_decimalText (v : ℕ) : IsWord (decimalText v) := by
  refine ⟨decimalText_ne_nil v, List.all_eq_true.mpr fun c hc => decide_eq_true (.inl ?_)⟩
  obtain ⟨hlow, hhigh⟩ := digit_of_mem_decimalText hc
  exact ⟨UInt8.le_iff_toNat_le.mpr hlow, UInt8.le_iff_toNat_le.mpr hhigh⟩

/-- A line of words as it goes over the port. -/
def typed (words : List (List UInt8)) : List UInt8 := [0x20].intercalate words ++ ascii "\r\n"

/-- A shell takes lines of words for these lines. -/
def TakesLines (shell : List UInt8 → List (List (List UInt8))) : Prop :=
  ∀ ls, (∀ words ∈ ls, ∀ w ∈ words, IsWord w) → shell (ls.flatMap typed) = ls

/-- The words that the page types for a click. -/
def wordsOf : Click → List (List UInt8)
  | .start => [ascii "reflow", ascii "start"]
  | .stop => [ascii "reflow", ascii "stop"]
  | .clear => [ascii "reflow", ascii "clear"]
  | .profile v => [ascii "reflow", ascii "profile", decimalText v]

/-- The command they post. -/
def posted : Click → ReflowCmd
  | .start => ⟨ReflowCmdId.start.toU8, 0⟩
  | .stop => ⟨ReflowCmdId.stop.toU8, 0⟩
  | .clear => ⟨ReflowCmdId.clearFault.toU8, 0⟩
  | .profile v => ⟨ReflowCmdId.selectProfile.toU8, v⟩

theorem isWord_wordsOf (click : Click) : ∀ w ∈ wordsOf click, IsWord w := by
  cases click with
  | profile v =>
    simp only [wordsOf, List.forall_mem_cons]
    exact ⟨by decide, by decide, isWord_decimalText v, nofun⟩
  | start | stop | clear =>
    simp only [wordsOf, List.forall_mem_cons]
    exact ⟨by decide, by decide, nofun⟩

theorem execute_wordsOf (click : Click) : execute (wordsOf click) = some (posted click) := by
  cases click with
  | profile v =>
    have hposts : execute (wordsOf (.profile v)) =
        some ⟨ReflowCmdId.selectProfile.toU8, atoi (decimalText v)⟩ := rfl
    rw [hposts, atoi_decimalText]
    rfl
  | start | stop | clear => rfl

theorem usbCmd_eq (click : Click) (s : Tab) : (usbCmd click s).writer =
    (s.choose click).writer.use (typed (wordsOf click)) := by
  cases click with
  | profile v => simp [usbCmd, usbWrite, typed, wordsOf, List.intercalate, ascii]
  | start | stop | clear => rfl

end Words

section Wire

variable {serial : Bool} {n : ℕ}

/-- The click that an event is, while the page names writer `n`. -/
def ordered (n : ℕ) (s : Tab) : Event → List Click
  | .click click => if s.writer.named = some n then [click] else []
  | _ => []

def clicked (serial : Bool) (n : ℕ) (s : Tab) (events : List Event) : List Click :=
  (serialTab serial).yields (ordered n) s events

/-- What is written between two times are lines of words that post what the clicks stand
for, and nothing else. -/
def Says (clicks : List Click) (before after : List (List UInt8)) : Prop :=
  ∃ ls : List (List (List UInt8)), after = before ++ ls.map typed ∧ (∀ words ∈ ls, ∀ w ∈ words, IsWord w) ∧
    ls.filterMap execute = clicks.map posted

theorem says_nothing (u : List (List UInt8)) : Says [] u u := ⟨[], by simp, nofun, rfl⟩

theorem Says.trans {cs cs' : List Click} {u v w : List (List UInt8)} (h : Says cs u v)
    (h' : Says cs' v w) : Says (cs ++ cs') u w := by
  obtain ⟨ls, rfl, hwords, hposts⟩ := h
  obtain ⟨ls', rfl, hwords', hposts'⟩ := h'
  refine ⟨ls ++ ls', by simp, List.forall_mem_append.mpr ⟨hwords, hwords'⟩, ?_⟩
  rw [List.filterMap_append, List.map_append, hposts, hposts']

theorem says_line {words : List (List UInt8)} (hwords : ∀ w ∈ words, IsWord w)
    (clicks : List Click) (hposts : (execute words).toList = clicks.map posted)
    (c : HandleCell (List UInt8)) :
    Says (if c.named = some n then clicks else []) (c.uses n) ((c.use (typed words)).uses n) := by
  rw [HandleCell.uses_use]
  split_ifs with hnamed
  · refine ⟨[words], rfl, List.forall_mem_singleton.mpr hwords, ?_⟩
    rw [← hposts, List.filterMap_cons]
    cases execute words <;> rfl
  · simpa using says_nothing (c.uses n)

/-- The same for a line that posts nothing. -/
theorem says_query (words : List (List UInt8)) (hwords : ∀ w ∈ words, IsWord w)
    (hposts : execute words = none) (c : HandleCell (List UInt8)) :
    Says [] (c.uses n) ((c.use (typed words)).uses n) := by
  have hline := says_line (n := n) hwords [] (by simp [hposts]) c
  simpa using hline

theorem says_usbStart (s : Tab) (reads : Bool) :
    Says [] (s.writer.uses n) ((usbStart reads s).writer.uses n) := by
  have hblank := says_query (n := n) [] nofun rfl s.writer.acquire
  have hlist := says_query (n := n) [ascii "reflow", ascii "profile"]
    (by simp only [List.forall_mem_cons]; exact ⟨by decide, by decide, nofun⟩) rfl
    (s.writer.acquire.use (typed []))
  rw [HandleCell.uses_acquire] at hblank
  exact hblank.trans hlist

theorem says_usbOpened (s : Tab) (p : ℕ) (r : Opening) :
    Says [] (s.writer.uses n) ((usbOpened p r s).writer.uses n) := by
  cases r with
  | refused message => exact says_nothing _
  | noWriter => exact says_nothing _
  | noReader =>
    simp only [usbOpened]
    split_ifs
    · exact says_usbStart _ false
    · exact says_nothing _
  | ready =>
    simp only [usbOpened]
    split_ifs
    · exact says_usbStart _ true
    · exact says_nothing _

theorem says_usbClose (s : Tab) (loops : List (ℕ × List UInt8)) :
    Says [] (s.writer.uses n) ((usbClose { s with loops := loops }).writer.uses n) := by
  have hsame : (usbClose { s with loops := loops }).writer.uses n = s.writer.uses n :=
    HandleCell.uses_release s.writer n
  rw [hsame]
  exact says_nothing _

theorem says_step (s : Tab) (e : Event) :
    Says (ordered n s e) (s.writer.uses n) (((serialTab serial).step s e).writer.uses n) := by
  cases e with
  | connect =>
    cases serial with
    | true => exact says_nothing _
    | false => exact says_nothing _
  | chosen r =>
    cases r with
    | ok p => exact says_nothing _
    | error message => exact says_nothing _
  | opened p r => exact says_usbOpened s p r
  | chunk loop text => exact says_nothing _
  | ended loop => exact says_usbClose s _
  | disconnect => exact says_usbClose s s.loops
  | closed refusal =>
    cases refusal with
    | none => exact says_nothing _
    | some message => exact says_nothing _
  | interval timer =>
    exact says_query [ascii "reflow", ascii "json"]
      (by simp only [List.forall_mem_cons]; exact ⟨by decide, by decide, nofun⟩) rfl s.writer
  | click click =>
    have hwriter : (s.choose click).writer = s.writer := by cases click <;> rfl
    have hline := says_line (n := n) (isWord_wordsOf click) [click]
      (by rw [execute_wordsOf]; rfl) s.writer
    have hstep : ((serialTab serial).step s (.click click)).writer =
        s.writer.use (typed (wordsOf click)) := hwriter ▸ usbCmd_eq click s
    rw [hstep]
    exact hline

theorem says_run (serial : Bool) (s : Tab) (events : List Event) :
    Says (clicked serial n s events) (s.writer.uses n)
      (((serialTab serial).run s events).writer.uses n) := by
  induction events generalizing s with
  | nil => exact says_nothing _
  | cons e events ih => exact (says_step s e).trans (ih _)

end Wire

section Effect

variable {F : Type} [CFloat F]

/-- The command does in every state of the oven what the click stands for. -/
def Does (F : Type) [CFloat F] (cmd : ReflowCmd) (click : Click) : Prop :=
  ∀ (time : ℤ) (w : World F),
    handleCmd time cmd w = click.command.elim w fun c => handleCmd time c w

/-- A number that no profile has selects nothing, if it is a byte. -/
theorem does_posted {click : Click} (h : ∀ v, click = .profile v → v < 256) :
    Does F (posted click) click := by
  intro time w
  cases click with
  | profile v =>
    rw [Click.command]
    split_ifs with hv
    · rfl
    · have hindex : u8OfInt v = v := u8OfInt_natCast (h v rfl)
      have hnone : reflowProfileGet v = none := if_pos (not_lt.mp hv)
      simp only [posted, handleCmd, ReflowCmdId.ofU8?_toU8, hindex, hnone, ite_self]
      rfl
  | start | stop | clear => rfl

end Effect

theorem mem_of_mem_clicked {serial : Bool} {n : ℕ} {s : Tab} {events : List Event}
    {click : Click} (h : click ∈ clicked serial n s events) : .click click ∈ events := by
  induction events generalizing s with
  | nil => cases h
  | cons e events ih =>
    rcases List.mem_append.mp h with hfirst | hrest
    · cases e with
      | click c =>
        rw [ordered] at hfirst
        split_ifs at hfirst with hnamed
        · rw [List.mem_singleton.mp hfirst]
          exact List.mem_cons_self
        · cases hfirst
      | _ => cases hfirst
    · exact List.mem_cons_of_mem _ (ih hrest)

/-- A shell without editing, history or quotes. -/
def plainShell (bytes : List UInt8) : List (List (List UInt8)) :=
  (lines 0x0A bytes).map fun l => (l.dropLast.splitOn 0x20).filter (· ≠ [])

theorem mem_intercalate {α : Type*} {sep c : α} {words : List (List α)}
    (h : c ∈ [sep].intercalate words) : c = sep ∨ ∃ w ∈ words, c ∈ w := by
  induction words with
  | nil => cases h
  | cons w words ih =>
    cases words with
    | nil =>
      rw [List.intercalate_singleton] at h
      exact .inr ⟨w, List.mem_cons_self, h⟩
    | cons w' words =>
      rw [List.intercalate_cons_cons, List.append_assoc, List.mem_append, List.mem_append,
        List.mem_singleton] at h
      rcases h with hw | hsep | hrest
      · exact .inr ⟨w, List.mem_cons_self, hw⟩
      · exact .inl hsep
      · exact (ih hrest).imp_right fun ⟨v, hv, hc⟩ => ⟨v, List.mem_cons_of_mem _ hv, hc⟩

theorem takesLines_plainShell : TakesLines plainShell := by
  intro ls hwords
  have hplain : ∀ words ∈ ls, ∀ w ∈ words, ∀ c ∈ w, c ≠ 0x20 ∧ c ≠ 0x0A := by
    intro words hmem w hw c hc
    have hword := List.all_eq_true.mp (hwords words hmem w hw).2 c hc
    constructor <;> rintro rfl <;> exact absurd hword (by decide)
  have hlines : ls.flatMap typed =
      terminated 0x0A (ls.map fun words => [0x20].intercalate words ++ [0x0D]) ++ [] := by
    simp [terminated, List.flatMap_map]
    rfl
  have hends : ∀ l ∈ ls.map fun words => [0x20].intercalate words ++ [0x0D], 0x0A ∉ l := by
    simp only [List.forall_mem_map, List.mem_append, List.mem_singleton]
    rintro words hmem (hmem' | hcr)
    · rcases mem_intercalate hmem' with hblank | ⟨w, hw, hlf⟩
      · exact absurd hblank (by decide)
      · exact (hplain words hmem w hw _ hlf).2 rfl
    · exact absurd hcr (by decide)
  rw [plainShell, hlines, lines_terminated hends, lines_of_notMem (by simp), List.append_nil,
    List.map_map]
  refine (List.map_congr_left fun words hmem => ?_).trans (List.map_id ls)
  rw [Function.comp_apply, List.dropLast_concat, id]
  rcases eq_or_ne words [] with rfl | hne
  · decide
  · rw [List.splitOn_intercalate 0x20 (fun w hw hc => (hplain words hmem w hw _ hc).1 rfl) hne]
    exact List.filter_eq_self.mpr fun w hw => decide_eq_true (hwords words hmem w hw).1

/-- The profiles are listed, one is picked, and after the cable the start is lost. -/
def pickedAndCut : List Event :=
  [.connect, .chosen (.ok 0), .opened 0 .ready, .interval 0,
    .chunk 0 (ascii "[0] SAC305\r\n[1] Sn42Bi58\r\n"), .click (.profile 1), .interval 0,
    .disconnect, .click .start, .ended 0]

end ReflowOven.SerialOrders

import Mathlib.Data.List.GetD
import ReflowOven.GuardedMachines
import ReflowOven.ReflowProfiles

/-!
# The profile selector of the web page

The part of `index.html` that writes the `<select>` of profiles, as the browser runs it, and
the oven behind it. `update` writes the selector only when a frame carries another profile
than the one cached in `lastProf`, and a pick of the operator moves the selector without
touching the cache; so a pick that the oven does not take leaves the selector where it is.
-/

namespace ReflowOven

/-- The `<select>` and the cache. Option `i` has the value `i`; `none` is no selection. -/
structure SelectorPage (α : Type*) where
  lastProf : ℤ
  options : List α
  value : Option ℕ

namespace SelectorPage

variable {α : Type*}

def loaded : SelectorPage α := ⟨-1, [], none⟩

/-- Assigning a value that no option carries leaves nothing selected. -/
def assign (page : SelectorPage α) (v : ℕ) : SelectorPage α :=
  { page with value := if v < page.options.length then some v else none }

/-- The browser selects the first option of a list in which none is selected. -/
def appendChild (page : SelectorPage α) (o : α) : SelectorPage α :=
  { page with options := page.options ++ [o], value := page.value.or (some 0) }

def update (page : SelectorPage α) (profile : ℕ) : SelectorPage α :=
  if (profile : ℤ) ≠ page.lastProf then { page with lastProf := profile }.assign profile
  else page

def addProfiles (page : SelectorPage α) (list : List α) : SelectorPage α :=
  let page := list.foldl appendChild { page with options := [], value := none }
  if page.lastProf ≥ 0 then page.assign page.lastProf.toNat else page

@[simp] theorem assign_options (page : SelectorPage α) (v : ℕ) :
    (page.assign v).options = page.options := rfl

@[simp] theorem assign_lastProf (page : SelectorPage α) (v : ℕ) :
    (page.assign v).lastProf = page.lastProf := rfl

/-- Whatever the cache held, it holds the profile of the frame afterwards. -/
@[simp] theorem update_lastProf (page : SelectorPage α) (profile : ℕ) :
    (page.update profile).lastProf = profile := by
  simp only [update]
  split
  · rfl
  · next h => exact (not_not.mp h).symm

@[simp] theorem update_options (page : SelectorPage α) (profile : ℕ) :
    (page.update profile).options = page.options := by
  simp only [update]
  split <;> rfl

theorem foldl_appendChild (page : SelectorPage α) (list : List α) :
    (list.foldl appendChild page).options = page.options ++ list ∧
      (list.foldl appendChild page).lastProf = page.lastProf := by
  induction list generalizing page with
  | nil => simp
  | cons o list ih => simp [ih, appendChild]

@[simp] theorem addProfiles_options (page : SelectorPage α) (list : List α) :
    (page.addProfiles list).options = list := by
  simp only [addProfiles]
  split <;> simp [foldl_appendChild]

@[simp] theorem addProfiles_lastProf (page : SelectorPage α) (list : List α) :
    (page.addProfiles list).lastProf = page.lastProf := by
  simp only [addProfiles]
  split <;> simp [foldl_appendChild]

/-- A list with the cached profile in it selects that profile. -/
theorem addProfiles_value (page : SelectorPage α) {list : List α} {v : ℕ}
    (hcache : page.lastProf = v) (hv : v < list.length) :
    (page.addProfiles list).value = some v := by
  obtain ⟨hoptions, hlast⟩ := foldl_appendChild { page with options := [], value := none } list
  simp only [List.nil_append, hcache] at hoptions hlast
  simp only [addProfiles, hcache, hlast, assign, hoptions, Int.toNat_natCast, hv, if_true]
  exact congrArg SelectorPage.value (if_pos (Int.natCast_nonneg v))

/-- A frame with another profile than the cached one selects it, and any other frame leaves
the selector alone. -/
theorem update_value (page : SelectorPage α) {profile : ℕ}
    (hv : profile < page.options.length) : (page.update profile).value =
      if (profile : ℤ) ≠ page.lastProf then some profile else page.value := by
  simp only [update]
  split
  · exact if_pos hv
  · rfl

end SelectorPage

namespace ProfileSelector

variable {α : Type*}

/-- The page, the oven, the profile commands on their way, the profile of the last frame,
and whether a frame has arrived since the last answer. -/
structure Session (α : Type*) where
  page : SelectorPage α
  profile : ℕ
  commands : List ℕ
  lastFrame : Option ℕ
  framed : Bool

/-- What can happen: a frame, a list of the first profiles, a pick, the answer to a command
that the oven took or did not, and a selection made anywhere else. -/
inductive PageEvent
  | frame
  | list (count : ℕ)
  | pick (option : ℕ)
  | answer (i : ℕ) (taken : Bool)
  | select (profile : ℕ)

/-- The page and an oven with the given profile names. -/
def session (names : List α) : Machine (Session α) PageEvent where
  init s := s.page = .loaded ∧ s.profile < names.length ∧ s.commands = [] ∧
    s.lastFrame = none ∧ s.framed = false
  admits s
    | .frame => True
    | .list _ => True
    -- the browser reports a change only
    | .pick option => option < s.page.options.length ∧ s.page.value ≠ some option
    | .answer i _ => i < s.commands.length
    | .select profile => profile < names.length
  step s
    | .frame => { s with
        page := s.page.update s.profile, lastFrame := some s.profile, framed := true }
    | .list count => { s with page := s.page.addProfiles (names.take count) }
    | .pick option => { s with
        page := { s.page with value := some option }, commands := s.commands ++ [option] }
    | .answer i taken => { s with
        profile := if taken then s.commands.getD i s.profile else s.profile
        commands := s.commands.eraseIdx i
        framed := false }
    | .select profile => { s with profile }

instance (names : List α) (s : Session α) : ∀ e, Decidable ((session names).admits s e)
  | .frame | .list _ => inferInstanceAs (Decidable True)
  | .pick _ => inferInstanceAs (Decidable (_ ∧ _ ≠ _))
  | .answer _ _ | .select _ => inferInstanceAs (Decidable (_ < _))

/-- The list has arrived, the last command is answered, and a frame came since. -/
structure Settled (names : List α) (s : Session α) : Prop where
  listed : s.page.options.length = names.length
  answered : s.commands = []
  framed : s.framed = true

/-- The selector shows the profile of the last frame whenever the page is settled. -/
def Shows (names : List α) (s : Session α) : Prop :=
  Settled names s → s.page.value = s.lastFrame

/-- Once every command is answered, a frame finds the selector off the oven's profile only
if that profile is news to the page. -/
def Heeded (names : List α) (s : Session α) : PageEvent → Prop
  | .frame => s.page.options.length = names.length → s.commands = [] →
      s.page.value ≠ some s.profile → (s.profile : ℤ) ≠ s.page.lastProf
  | _ => True

instance (names : List α) (s : Session α) : ∀ e, Decidable (Heeded names s e)
  | .frame => inferInstanceAs (Decidable (_ → s.commands = [] → _ ≠ _ → _ ≠ _))
  | .list _ | .pick _ | .answer _ _ | .select _ => inferInstanceAs (Decidable True)

/-- What every event preserves: profiles exist, and the cache is the last frame. -/
structure Coherent (names : List α) (s : Session α) : Prop where
  profile_lt : s.profile < names.length
  command_lt : ∀ j ∈ s.commands, j < names.length
  options_le : s.page.options.length ≤ names.length
  cached : ∀ p, s.lastFrame = some p → s.page.lastProf = p ∧ p < names.length
  unseen : s.lastFrame = none → s.page.lastProf = -1
  framed : s.framed = true → s.lastFrame.isSome

variable {names : List α}

theorem Coherent.step {s : Session α} {e : PageEvent} (h : Coherent names s)
    (ha : (session names).admits s e) : Coherent names ((session names).step s e) := by
  cases e with
  | frame =>
    refine ⟨h.profile_lt, h.command_lt, ?_, ?_, nofun, fun _ => rfl⟩
    · simpa [session] using h.options_le
    · intro p hp
      cases hp
      exact ⟨SelectorPage.update_lastProf _ _, h.profile_lt⟩
  | list count =>
    refine ⟨h.profile_lt, h.command_lt, ?_, ?_, ?_, h.framed⟩
    · simp only [session, SelectorPage.addProfiles_options, List.length_take]
      exact min_le_right _ _
    · simpa [session] using h.cached
    · simpa [session] using h.unseen
  | pick option =>
    refine ⟨h.profile_lt, ?_, h.options_le, h.cached, h.unseen, h.framed⟩
    intro j hj
    rcases List.mem_append.mp hj with hj | hj
    · exact h.command_lt j hj
    · cases List.mem_singleton.mp hj
      exact ha.1.trans_le h.options_le
  | answer i taken =>
    refine ⟨?_, ?_, h.options_le, h.cached, h.unseen, nofun⟩
    · cases taken with
      | false => exact h.profile_lt
      | true =>
        have hi : i < s.commands.length := ha
        simp only [session, if_true, List.getD_eq_getElem _ _ hi]
        exact h.command_lt _ (List.getElem_mem hi)
    · exact fun j hj => h.command_lt j (List.mem_of_mem_eraseIdx hj)
  | select profile => exact ⟨ha, h.command_lt, h.options_le, h.cached, h.unseen, h.framed⟩

/-- One event keeps the selector honest exactly when it is heeded. -/
theorem shows_step_iff {s : Session α} {e : PageEvent} (h : Coherent names s)
    (hP : Shows names s) (ha : (session names).admits s e) :
    Shows names ((session names).step s e) ↔ Heeded names s e := by
  cases e with
  | frame =>
    have hlisted : ∀ hlist : s.page.options.length = names.length,
        (s.page.update s.profile).value = some s.profile ↔
          (s.page.value ≠ some s.profile → (s.profile : ℤ) ≠ s.page.lastProf) := by
      intro hlist
      rw [SelectorPage.update_value _ (hlist ▸ h.profile_lt)]
      split
      · next hnew => simp [hnew]
      · next hold => simp [not_not.mp hold]
    constructor
    · intro hshow hlist hanswered
      refine (hlisted hlist).mp (hshow ⟨?_, hanswered, rfl⟩)
      simpa [session] using hlist
    · intro hheeded hsettled
      have hlist : s.page.options.length = names.length := by
        simpa [session] using hsettled.listed
      exact (hlisted hlist).mpr (hheeded hlist hsettled.answered)
  | list count =>
    refine iff_of_true (fun hsettled => ?_) trivial
    obtain ⟨p, hp⟩ := Option.isSome_iff_exists.mp (h.framed hsettled.framed)
    obtain ⟨hcache, hlt⟩ := h.cached p hp
    have hlist : (names.take count).length = names.length := by
      simpa [session] using hsettled.listed
    exact (SelectorPage.addProfiles_value _ hcache (hlist ▸ hlt)).trans hp.symm
  | pick option =>
    refine iff_of_true (fun hsettled => ?_) trivial
    exact absurd hsettled.answered (List.append_ne_nil_of_right_ne_nil _ (List.cons_ne_nil _ _))
  | answer i taken => exact iff_of_true (fun hsettled => absurd hsettled.framed nofun) trivial
  | select profile =>
    exact iff_of_true (fun hsettled => hP ⟨hsettled.listed, hsettled.answered, hsettled.framed⟩)
      trivial

theorem Coherent.init {s : Session α} (hs : (session names).init s) : Coherent names s := by
  obtain ⟨hpage, hprofile, hcommands, hlast, hframed⟩ := hs
  refine ⟨hprofile, ?_, ?_, ?_, ?_, ?_⟩
  · simp [hcommands]
  · simp [hpage, SelectorPage.loaded]
  · simp [hlast]
  · simp [hpage, SelectorPage.loaded]
  · simp [hframed]

theorem Shows.init {s : Session α} (hs : (session names).init s) : Shows names s := by
  obtain ⟨-, -, -, -, hframed⟩ := hs
  exact fun hsettled => absurd (hframed.symm.trans hsettled.framed) nofun

/-- Over every order of the events: the selector shows the profile of the last frame whenever
the page is settled, if and only if every frame is heeded. -/
theorem selector_shows_oven_iff (names : List α) (s : Session α) (hs : (session names).init s)
    (es : List PageEvent) (hes : (session names).Admitted s es) :
    (∀ t ∈ (session names).visited s es, t.page.options.length = names.length →
      t.commands = [] → t.framed = true → t.page.value = t.lastFrame) ↔
    ((session names).restrict (Heeded names)).Admitted s es := by
  rw [← Machine.forall_visited_iff (fun _ _ h ha => h.step ha)
    (fun _ _ h hP ha => shows_step_iff h hP ha) (Coherent.init hs) (Shows.init hs) hes]
  constructor
  · exact fun h t ht hsettled => h t ht hsettled.listed hsettled.answered hsettled.framed
  · exact fun h t ht hlisted hanswered hframed => h t ht ⟨hlisted, hanswered, hframed⟩

/-- The oven takes every command, in the order they were sent, and nothing else selects. -/
def TakenInOrder (_ : Session α) : PageEvent → Prop
  | .answer i taken => i = 0 ∧ taken = true
  | .select _ => False
  | _ => True

/-- The profile the oven will have once the commands on their way are taken. -/
def Session.target (s : Session α) : ℕ := s.commands.getLastD s.profile

/-- The selector is on the profile the oven is going to have, or that profile will be news. -/
def Tracks (names : List α) (s : Session α) : Prop :=
  s.page.options.length = names.length →
    s.page.value = some s.target ∨ (s.target : ℤ) ≠ s.page.lastProf

theorem Tracks.heeded {s : Session α} (h : Tracks names s) (e : PageEvent) :
    Heeded names s e := by
  cases e with
  | frame =>
    intro hlist hanswered hoff
    have htarget : s.target = s.profile := by simp [Session.target, hanswered]
    exact (htarget ▸ h hlist).resolve_left hoff
  | list | pick | answer | select => trivial

theorem Tracks.step {s : Session α} {e : PageEvent} (h : Tracks names s)
    (hc : Coherent names s) (ha : (session names).admits s e) (he : TakenInOrder s e) :
    Tracks names ((session names).step s e) := by
  cases e with
  | frame =>
    intro hlist
    simp only [session, SelectorPage.update_options] at hlist
    simp only [session, SelectorPage.update_lastProf,
      SelectorPage.update_value _ (hlist ▸ hc.profile_lt)]
    split
    · by_cases heq : s.target = s.profile
      · exact .inl (congrArg some heq.symm)
      · exact .inr (by exact_mod_cast heq)
    · next hold => exact not_not.mp hold ▸ h hlist
  | list count =>
    intro hlist
    simp only [session, SelectorPage.addProfiles_options] at hlist
    simp only [session, SelectorPage.addProfiles_lastProf]
    cases hlast : s.lastFrame with
    | none =>
      right
      rw [hc.unseen hlast]
      omega
    | some p =>
      obtain ⟨hcache, hlt⟩ := hc.cached p hlast
      rw [SelectorPage.addProfiles_value _ hcache (hlist ▸ hlt), hcache]
      by_cases heq : s.target = p
      · exact .inl (congrArg some heq.symm)
      · exact .inr (by exact_mod_cast heq)
  | pick option =>
    intro _
    left
    simp [session, Session.target]
  | answer i taken =>
    obtain ⟨rfl, rfl⟩ := he
    cases hcommands : s.commands with
    | nil => exact absurd ha (by simp [session, hcommands])
    | cons c rest =>
      -- the oven has taken what it was going to take anyway
      have htarget : ((session names).step s (.answer 0 true)).target = s.target := by
        simp only [session, Session.target, hcommands, List.getLastD_cons]
        rfl
      intro hlist
      rw [htarget]
      exact h hlist
  | select => exact absurd he id

/-- A page whose commands are all taken in order, by an oven that nobody else touches, is
never wrong for longer than a frame. -/
theorem shows_of_taken_in_order {s : Session α} (hs : (session names).init s)
    {es : List PageEvent} (hes : ((session names).restrict TakenInOrder).Admitted s es) :
    ∀ t ∈ (session names).visited s es, Shows names t := by
  have hstart : Tracks names s := by
    intro _
    right
    rw [(Coherent.init hs).unseen hs.2.2.2.1]
    omega
  have hall := Machine.visited_invariant_restrict
    (I := fun t => Coherent names t ∧ Tracks names t ∧ Shows names t)
    (fun t e h ha htaken => ⟨h.1.step ha, h.2.1.step h.1 ha htaken,
      (shows_step_iff h.1 h.2.2 ha).mpr (h.2.1.heeded e)⟩)
    ⟨Coherent.init hs, hstart, Shows.init hs⟩ hes
  exact fun t ht => (hall t ht).2.2

/-- A page just loaded, in front of an oven on its first profile. -/
def opened : Session (List UInt8) := ⟨.loaded, 0, [], none, false⟩

def ovenNames : List (List UInt8) := builtin.map ReflowProfile.name

/-- The third profile is picked, the oven takes it, and the next frame confirms it. -/
theorem selector_shows_oven_taken :
    ((session ovenNames).run opened
        [.list 4, .frame, .pick 2, .answer 0 true, .frame]).page.value =
      ((session ovenNames).run opened
        [.list 4, .frame, .pick 2, .answer 0 true, .frame]).lastFrame := by
  exact (selector_shows_oven_iff ovenNames opened ⟨rfl, by decide, rfl, rfl, rfl⟩ _
    (by decide)).mpr (by decide) _ (Machine.run_mem_visited _ _) (by decide) (by decide)
    (by decide)

/-- The third profile is picked and refused, and the next frame still reports the first:
the selector stays on the third. -/
theorem refused_pick_stays :
    (session ovenNames).init opened ∧
    (session ovenNames).Admitted opened [.list 4, .frame, .pick 2, .answer 0 false, .frame] ∧
    let t := (session ovenNames).run opened [.list 4, .frame, .pick 2, .answer 0 false, .frame]
    t.page.options.length = ovenNames.length ∧ t.commands = [] ∧ t.framed = true ∧
      t.lastFrame = some 0 ∧ t.page.value = some 2 := by
  exact ⟨⟨rfl, by decide, rfl, rfl, rfl⟩, by decide, by decide⟩

end ProfileSelector
end ReflowOven

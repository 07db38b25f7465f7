import Mathlib.Data.List.DropRight
import ReflowOven.ProfileSelector
import ReflowOven.TelemetryRoundTrip

/-!
# The page of the operator

The script of `index.html`: what `update`, `addProfiles`, `say` and `link` write, for both
transports, and a session over HTTP in which frames, lists, clicks and answers come in any
order. Readings keep the number that `toFixed` is given; the drawing of the chart is left out.
-/

namespace ReflowOven.OperatorPage

open JsonReader

/-- The fields of a frame that the page reads. -/
structure Frame where
  tempMc : ℤ
  tempValid : Bool
  setpointMc : ℤ
  duty : ℤ
  state : List UInt8
  fault : List UInt8
  profile : ℕ
  stage : ℤ
  nStages : ℤ
  stageName : List UInt8
  totalMs : ℕ
  deriving DecidableEq

/-- The member of an object; the last one of a name counts. -/
def member (name : String) : Json → Option Json
  | .obj ms => (ms.reverse.find? fun m => m.1 = ascii name).map Prod.snd
  | _ => none

def numberOf (name : String) (d : Json) : Option ℤ :=
  match member name d with
  | some (.num z) => some z
  | _ => none

def stringOf (name : String) (d : Json) : Option (List UInt8) :=
  match member name d with
  | some (.str s) => some s
  | _ => none

def truthOf (name : String) (d : Json) : Option Bool :=
  match member name d with
  | some (.bool b) => some b
  | _ => none

/-- The frame that an object is. -/
def Frame.ofJson (d : Json) : Option Frame := do
  let tempMc ← numberOf "temp_mc" d
  let tempValid ← truthOf "temp_valid" d
  let setpointMc ← numberOf "setpoint_mc" d
  let duty ← numberOf "duty" d
  let state ← stringOf "state" d
  let fault ← stringOf "fault" d
  let profile ← numberOf "profile" d
  let stage ← numberOf "stage" d
  let nStages ← numberOf "n_stages" d
  let stageName ← stringOf "stage_name" d
  let totalMs ← numberOf "total_ms" d
  return ⟨tempMc, tempValid, setpointMc, duty, state, fault, profile.toNat, stage, nStages,
    stageName, totalMs.toNat⟩

/-- The frame that telemetry is sent as. -/
def Frame.ofTelemetry (t : ReflowTelemetry) : Frame where
  tempMc := t.tempMc.toInt
  tempValid := t.tempValid ≠ 0
  setpointMc := t.setpointMc.toInt
  duty := t.dutyPermille.toNat
  state := reflowStateStr t.state
  fault := reflowFaultStr t.fault
  profile := t.profileIdx.toNat
  stage := t.stageIdx.toNat
  nStages := t.nStages.toNat
  stageName := ReflowOven.stageName t
  totalMs := t.totalMs.toNat

theorem Frame.ofJson_telemetryObject (t : ReflowTelemetry) :
    Frame.ofJson (telemetryObject t (ReflowOven.stageName t)) = some (.ofTelemetry t) := by
  rfl

/-- A `<select>`: each option has its value. -/
structure Select where
  options : List (ℕ × List UInt8)
  value : Option ℕ
  deriving DecidableEq

def Select.assign (sel : Select) (v : ℕ) : Select :=
  { sel with value := if v ∈ sel.options.map Prod.fst then some v else none }

/-- The browser selects the first option of a list in which none is selected. -/
def Select.appendChild (sel : Select) (o : ℕ × List UInt8) : Select :=
  { sel with options := sel.options ++ [o], value := sel.value.or (some o.1) }

/-- The contents of the cells that `update` writes; `none` is the dash of a number. -/
structure Cells where
  temp : Option ℤ
  sub : List UInt8
  bad : Bool
  sp : Option ℤ
  duty : Option ℤ
  stage : List UInt8
  el : List UInt8
  deriving DecidableEq

/-- The cells as they are written in the markup. -/
def markup : Cells := ⟨none, ascii "connecting...", false, none, none, ascii "-", ascii "-"⟩

/-- A profile that `profs` has no entry for is a hole of the array. -/
structure Page where
  cells : Cells
  hist : List (ℤ × ℤ)
  profs : List (Option (List UInt8))
  lastProf : ℤ
  prof : Select
  msg : List UInt8
  link : List UInt8
  deriving DecidableEq

def maxp : ℕ := 600

def Page.loaded : Page := ⟨markup, [], [], -1, ⟨[], none⟩, [], []⟩

def fmt (t : ℕ) : List UInt8 :=
  let s := t / 1000
  decimalText (s / 60) ++ 0x3A :: (0x30 :: decimalText (s % 60)).rtake 2

/-- What `update` writes into the cells. -/
def Frame.cells (d : Frame) : Cells where
  temp := if d.tempValid then some d.tempMc else none
  sub := d.state ++ if d.fault ≠ ascii "none" then ascii " - FAULT: " ++ d.fault else []
  bad := d.fault ≠ ascii "none"
  sp := if d.setpointMc ≠ 0 then some d.setpointMc else none
  duty := some d.duty
  stage := d.stageName ++ ascii " (" ++ signedText (if d.nStages ≠ 0 then d.stage + 1 else 0) ++
    0x2F :: (signedText d.nStages ++ ascii ")")
  el := fmt d.totalMs

/-- The chart after a frame. -/
def chart (d : Frame) (hist : List (ℤ × ℤ)) : List (ℤ × ℤ) :=
  let hist := if d.tempValid then hist ++ [(d.tempMc, d.setpointMc)] else hist
  let hist := if hist.length > maxp then hist.tail else hist
  if d.state ≠ ascii "running" ∧ hist.length > 1 ∧ d.setpointMc = 0 ∧ hist.length > maxp then []
  else hist

def Page.update (page : Page) (d : Frame) : Page :=
  { page with
    cells := d.cells
    hist := chart d page.hist
    lastProf := d.profile
    prof := if d.profile ≠ page.lastProf then page.prof.assign d.profile else page.prof
    link := [] }

/-- `forEach` passes over the holes. -/
def numbered (list : List (Option (List UInt8))) : List (ℕ × List UInt8) :=
  list.zipIdx.filterMap fun p => p.1.map fun name => (p.2, name)

def Page.say (page : Page) (t : List UInt8) : Page := { page with msg := t }

def Page.addProfiles (page : Page) (list : List (Option (List UInt8))) : Page :=
  let prof := (numbered list).foldl Select.appendChild ⟨[], none⟩
  { page with prof := if page.lastProf ≥ 0 then prof.assign page.lastProf.toNat else prof }

section Dense

variable {names : List (List UInt8)}

theorem numbered_some (names : List (List UInt8)) :
    numbered (names.map some) = names.zipIdx.map fun p => (p.2, p.1) := by
  rw [numbered, List.zipIdx_map, List.filterMap_map, ← List.filterMap_eq_map]
  rfl

theorem numbered_values (names : List (List UInt8)) :
    (numbered (names.map some)).map Prod.fst = List.range names.length ∧
      (numbered (names.map some)).map Prod.snd = names := by
  rw [numbered_some, List.map_map, List.map_map]
  constructor
  · rw [List.range_eq_range', ← List.zipIdx_map_snd 0 names]
    rfl
  · exact List.zipIdx_map_fst 0 names

theorem foldl_appendChild (sel : Select) (os : List (ℕ × List UInt8)) :
    os.foldl Select.appendChild sel =
      ⟨sel.options ++ os, sel.value.or (os.head?.map Prod.fst)⟩ := by
  induction os generalizing sel with
  | nil => simp
  | cons o os ih =>
    rw [List.foldl_cons, ih]
    cases hvalue : sel.value <;> simp [Select.appendChild, hvalue]

/-- The selector of a page whose list has no holes. -/
def Page.selector (page : Page) : SelectorPage (List UInt8) :=
  ⟨page.lastProf, page.prof.options.map Prod.snd, page.prof.value⟩

/-- Without holes the lists come out as in the selector where option `i` has the value `i`. -/
theorem addProfiles_selector (page : Page) (names : List (List UInt8)) :
    (page.addProfiles (names.map some)).selector = page.selector.addProfiles names := by
  have hvalue (s : SelectorPage (List UInt8)) : names.foldl SelectorPage.appendChild s =
      ⟨s.lastProf, s.options ++ names, s.value.or (names.head?.map fun _ => 0)⟩ := by
    induction names generalizing s with
    | nil => simp
    | cons o names ih =>
      rw [List.foldl_cons, ih]
      cases hvalue : s.value <;> simp [SelectorPage.appendChild, hvalue]
  obtain ⟨hvalues, hnames⟩ := numbered_values names
  have hfirst : (numbered (names.map some)).head?.map Prod.fst = names.head?.map fun _ => 0 := by
    rw [numbered_some]
    cases names <;> rfl
  simp only [Page.addProfiles, SelectorPage.addProfiles, foldl_appendChild, hvalue, Page.selector,
    List.nil_append, hfirst]
  split_ifs
  · simp only [Select.assign, SelectorPage.assign, hvalues, hnames, List.mem_range]
  · simp only [hnames]

theorem update_selector {page : Page} (h : page.prof.options = numbered (names.map some))
    (d : Frame) : (page.update d).selector = page.selector.update d.profile := by
  obtain ⟨hvalues, hnames⟩ := numbered_values names
  simp only [Page.update, SelectorPage.update, Page.selector, h, hnames]
  by_cases hprofile : (d.profile : ℤ) ≠ page.lastProf
  · simp only [if_pos hprofile, Select.assign, SelectorPage.assign, h, hvalues, hnames,
      List.mem_range]
  · simp only [not_not.mp hprofile, ne_eq, not_true_eq_false, if_false, h, hnames]

end Dense

section Session

/-- A session over HTTP: `pending` commands have no answer yet. -/
structure Session where
  page : Page
  pending : ℕ

inductive Event
  | message (d : Frame)
  | error
  | list (names : List (List UInt8))
  | click
  | pick (v : ℕ)
  | answer (status : ℕ)
  | failure

/-- What the page says of an answer, if anything. -/
def notice (status : ℕ) : Option (List UInt8) :=
  if status = 401 then some (ascii "token recusado: confira o campo Token")
  else if status = 403 then some (ascii "recusado: abra esta pagina pelo IP do forno")
  else if status = 503 then
    some (ascii "controle remoto desligado: build sem CONFIG_REFLOW_NET_TOKEN")
  else if status = 400 then some (ascii "requisicao malformada, comando nao executado")
  else if ¬(200 ≤ status ∧ status ≤ 299) then
    some (ascii "comando recusado (" ++ decimalText status ++ ascii ")")
  else none

/-- `cmd`: the answer comes later. -/
def Session.cmd (s : Session) : Session := ⟨s.page.say [], s.pending + 1⟩

def session : Machine Session Event where
  init s := s = ⟨.loaded, 0⟩
  admits
    | s, .answer _ | s, .failure => 0 < s.pending
    | s, .pick v => v ∈ s.page.prof.options.map Prod.fst
    | _, .message _ | _, .error | _, .list _ | _, .click => True
  step
    | s, .message d => { s with page := s.page.update d }
    | s, .error => { s with page := { s.page with link := ascii "link lost, retrying..." } }
    | s, .list names => { s with page := s.page.addProfiles (names.map some) }
    | s, .click => s.cmd
    | s, .pick v => { s with page := { s.page with prof := { s.page.prof with value := some v } } }.cmd
    | s, .answer status => ⟨(notice status).elim s.page s.page.say, s.pending - 1⟩
    | s, .failure => ⟨s.page.say (ascii "sem resposta do forno"), s.pending - 1⟩

def Event.frame : Event → Option Frame
  | .message d => some d
  | _ => none

def Event.names : Event → Option (List (List UInt8))
  | .list names => some names
  | _ => none

def Frame.reading (d : Frame) : Option (ℤ × ℤ) :=
  if d.tempValid then some (d.tempMc, d.setpointMc) else none

/-- What an event writes into `#link`. -/
def Event.link : Event → Option (List UInt8)
  | .message _ => some []
  | .error => some (ascii "link lost, retrying...")
  | _ => none

/-- What an event writes into `#msg`. -/
def Event.msg : Event → Option (List UInt8)
  | .click | .pick _ => some []
  | .answer status => notice status
  | .failure => some (ascii "sem resposta do forno")
  | _ => none

/-- The page as its events so far make it. -/
structure Told (events : List Event) (page : Page) : Prop where
  cells : page.cells = ((events.filterMap Event.frame).getLast?.map Frame.cells).getD markup
  hist : page.hist = ((events.filterMap Event.frame).filterMap Frame.reading).rtake maxp
  link : page.link = (events.filterMap Event.link).getLastD []
  msg : page.msg = (events.filterMap Event.msg).getLastD []
  options : page.prof.options =
    numbered (((events.filterMap Event.names).getLastD []).map some)
  lastProf : page.lastProf =
    ((events.filterMap Event.frame).getLast?.map fun d => (d.profile : ℤ)).getD (-1)

theorem length_rtake_le {α : Type*} (l : List α) (n : ℕ) : (l.rtake n).length ≤ n := by
  rw [List.rtake, List.length_drop]
  omega

/-- A list of the last `n` elements that a new one pushes the oldest out of. -/
theorem push_rtake {α : Type*} (l : List α) (x : α) (n : ℕ) :
    (if (l.rtake n ++ [x]).length > n then (l.rtake n ++ [x]).tail else l.rtake n ++ [x]) =
      (l ++ [x]).rtake n := by
  have hpush : l.rtake n ++ [x] = (l ++ [x]).drop (l.length - n) := by
    rw [List.rtake, List.drop_append_of_le_length (Nat.sub_le _ _)]
  rw [hpush, List.length_drop, ← List.drop_one, List.drop_drop, List.rtake, List.length_append,
    List.length_singleton]
  split_ifs with hlen
  · congr 1
    omega
  · congr 1
    omega

/-- A new reading pushes the oldest one out, and the chart is never emptied. -/
theorem chart_rtake (d : Frame) (readings : List (ℤ × ℤ)) :
    chart d (readings.rtake maxp) = (readings ++ d.reading.toList).rtake maxp := by
  have hfull (hist : List (ℤ × ℤ)) (hlen : hist.length ≤ maxp) :
      (if d.state ≠ ascii "running" ∧ hist.length > 1 ∧ d.setpointMc = 0 ∧ hist.length > maxp
        then [] else hist) = hist := if_neg fun h => absurd h.2.2.2 (Nat.not_lt.mpr hlen)
  simp only [chart, Frame.reading]
  cases d.tempValid with
  | true =>
    simp only [if_true, Option.toList]
    rw [push_rtake, hfull _ (length_rtake_le _ _)]
  | false =>
    have hlen := length_rtake_le readings maxp
    simp only [Bool.false_eq_true, if_false, Option.toList, List.append_nil,
      if_neg (Nat.not_lt.mpr hlen)]
    exact hfull _ hlen

theorem elim_say (page : Page) (t : Option (List UInt8)) :
    t.elim page page.say = { page with msg := t.getD page.msg } := by
  cases t <;> rfl

theorem filterMap_concat {α β : Type*} (f : α → Option β) (l : List α) (a : α) :
    (l ++ [a]).filterMap f = l.filterMap f ++ (f a).toList := by
  cases hf : f a <;> simp [hf]

theorem getLastD_append_toList {α : Type*} (l : List α) (o : Option α) (d : α) :
    (l ++ o.toList).getLastD d = o.getD (l.getLastD d) := by
  cases o <;> simp

theorem Told.step {events : List Event} {s : Session} (h : Told events s.page) (e : Event) :
    Told (events ++ [e]) (session.step s e).page := by
  constructor
  case cells =>
    rw [filterMap_concat]
    cases e <;> simp [session, Event.frame, Page.update, Session.cmd, Page.say, Page.addProfiles,
      elim_say, h.cells]
  case hist =>
    rw [filterMap_concat, List.filterMap_append]
    cases e with
    | message d =>
      have hone : [d].filterMap Frame.reading = d.reading.toList := by
        cases hd : d.reading <;> simp [hd]
      simp only [session, Event.frame, Page.update, Option.toList, hone, h.hist, chart_rtake]
    | _ => simp [session, Event.frame, Session.cmd, Page.say, Page.addProfiles, elim_say, h.hist]
  case link =>
    rw [filterMap_concat, getLastD_append_toList]
    cases e <;> simp [session, Event.link, Page.update, Session.cmd, Page.say, Page.addProfiles,
      elim_say, h.link]
  case msg =>
    rw [filterMap_concat, getLastD_append_toList]
    cases e <;> simp [session, Event.msg, Page.update, Session.cmd, Page.say, Page.addProfiles,
      elim_say, h.msg]
  case options =>
    rw [filterMap_concat, getLastD_append_toList]
    cases e with
    | message d =>
      have hkept := h.options
      simp only [session, Event.names, Page.update, Option.getD]
      split_ifs <;> exact hkept
    | list names =>
      simp only [session, Event.names, Page.addProfiles, foldl_appendChild, Option.getD]
      split_ifs <;> rfl
    | _ => simp [session, Event.names, Session.cmd, Page.say, elim_say, h.options]
  case lastProf =>
    rw [filterMap_concat]
    cases e <;> simp [session, Event.frame, Page.update, Session.cmd, Page.say, Page.addProfiles,
      elim_say, h.lastProf]

/-- In every session, in whatever order frames, lists, clicks and answers come: the cells show
the last frame, the chart the last readings, and a notice about a command stays until the next
action of the operator or the next answer, as no frame writes it; a frame only takes back what
the page said about the link. -/
theorem page_tells_its_history (events : List Event) :
    Told events (session.run ⟨.loaded, 0⟩ events).page := by
  induction events using List.reverseRecOn with
  | nil => exact ⟨rfl, rfl, rfl, rfl, rfl, rfl⟩
  | append_singleton events e ih =>
    rw [Machine.run_append]
    exact ih.step e

end Session

end ReflowOven.OperatorPage
